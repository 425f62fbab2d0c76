import Obos.Loader.File
import Obos.Paging.PageMap

/-!
# The loader of programs

`LoadElfFile` goes over the program headers of a file and copies the segments into an address
space, through the virtual allocator of a process. `loadElfFile_inside_iff` says when it stays
in the file: the header table and what its headers say about the file are never compared with
the size.
-/

namespace Obos.Loader

open Lib Paging Phdr

/-! ## The program -/

/-- What `load` uses of a virtual allocator. -/
structure Allocator (σ : Type) where
  isUsermodeAllocator : Bool
  /-- `VirtualAlloc`: the address it returns, and the state after the call. -/
  virtualAlloc : σ → (base size : Nat) → (flags : BitVec 64) → Nat × σ
  /-- `Memcpy`: whether it gets as far as reading the source, an offset in the file. -/
  memcpy : σ → (remoteDest localSrc size : Nat) → Bool × σ
  /-- `VirtualProtect`. -/
  virtualProtect : σ → (base size : Nat) → (flags : BitVec 64) → σ

/-- `CheckElfFile`. -/
def checkElfFile (file : File) : Load Unit :=
  if file.length ≤ ehdrSize then throw .incorrectFile else checkHeader file

/-- `nPages`, a number of 32 bits. -/
def segmentPages (memsz : Nat) : Nat := (memsz / 4096 + if memsz % 4096 = 0 then 0 else 1) % 2 ^ 32

/-- The addresses `load` refuses. -/
def isRefused (vaddr : Nat) : Bool := 0xFFFF800000000000 < vaddr || vaddr = 0

variable {σ : Type}

/-- `load`, for a segment that is not loaded lazily. -/
def loadSegment (a : Allocator σ) (file : File) (header vaddr : Nat) (allocFlags : BitVec 64)
    (s : σ) : Load σ := do
  let size := segmentPages (← readField file header pMemsz) * 4096
  let (addr, s) := a.virtualAlloc s vaddr size (onlyIf a.isUsermodeAllocator protUserModeAccess)
  let filesz ← readField file header pFilesz
  if filesz = 0 then return a.virtualProtect s addr size allocFlags
  let offset ← readField file header pOffset
  -- the address is moved to that of the segment, wherever the pages are
  let (reads, s) := a.memcpy s vaddr offset filesz
  let _ ← readBytes file offset (if reads then filesz else 0)
  return a.virtualProtect s vaddr size allocFlags

/-- The body of the loop of `load`, on `baseAddress` and the state of the allocator. -/
def loadHeader (a : Allocator σ) (file : File) (lazyLoad : Bool) (phnum : Nat) (st : Nat × σ)
    (header : Nat) : Load (Nat × σ) := do
  if (← readField file header pType) ≠ ptLoad then return st
  let flags ← readField file header pFlags
  let vaddr ← readField file header pVaddr
  if isRefused vaddr then throw .baseAddressUsed
  let allocFlags := onlyIf a.isUsermodeAllocator protUserModeAccess |||
    onlyIf (flags.testBit pfX) protCanExecute ||| onlyIf (!flags.testBit pfW) protReadOnly
  let s ← if lazyLoad then pure st.2 else loadSegment a file header vaddr allocFlags st.2
  return (if vaddr < st.1 ∨ phnum = 1 then vaddr else st.1, s)

/-- The addresses of the program headers. -/
def programHeaders (file : File) : List Nat :=
  entries (field file 0 Ehdr.ePhoff) phdrSize (field file 0 Ehdr.ePhnum)

/-- `load`. -/
def load (a : Allocator σ) (file : File) (lazyLoad : Bool) (s : σ) : Load (Nat × σ) := do
  let phoff ← readHeader file Ehdr.ePhoff
  let phnum ← readHeader file Ehdr.ePhnum
  (entries phoff phdrSize phnum).foldlM (loadHeader a file lazyLoad phnum) (0, s)

/-- `LoadElfFile`: the entry point, the base address, and the state after the call. -/
def loadElfFile (a : Allocator σ) (file : File) (lazyLoad : Bool) (s : σ) :
    Load (Nat × Nat × σ) := do
  checkElfFile file
  let entry ← readHeader file Ehdr.eEntry
  return (entry, ← load a file lazyLoad s)

/-! ## When it stays in the file -/

/-- The bytes of a segment are in the file. -/
def SegmentInside (file : File) (header : Nat) : Prop :=
  field file header pFilesz ≠ 0 →
    FieldInside file header pOffset ∧
      Inside file (field file header pOffset) (field file header pFilesz)

/-- A program header and the bytes of its segment are in the file, as far as `load` looks at
them. -/
def HeaderInside (file : File) (lazyLoad : Bool) (header : Nat) : Prop :=
  FieldInside file header pType ∧
  (field file header pType = ptLoad →
    FieldInside file header pFlags ∧
    FieldInside file header pVaddr ∧
    (isRefused (field file header pVaddr) = false → lazyLoad = false →
      FieldInside file header pMemsz ∧
      FieldInside file header pFilesz ∧
      SegmentInside file header))

/-- The header makes `load` give up. -/
def EndsLoading (file : File) (header : Nat) : Prop :=
  field file header pType = ptLoad ∧ isRefused (field file header pVaddr) = true

/-- Every program header `load` reaches is in the file, with its segment. -/
def ProgramFits (file : File) (lazyLoad : Bool) : Prop :=
  ∀ pre header post, programHeaders file = pre ++ header :: post →
    (∀ h ∈ pre, ¬ EndsLoading file h) → HeaderInside file lazyLoad header

/-- An allocator whose copies all get as far as reading their sources. -/
def copyingAllocator : Allocator Unit where
  isUsermodeAllocator := true
  virtualAlloc _ base _ _ := (base, ())
  memcpy _ _ _ _ := (true, ())
  virtualProtect _ _ _ _ := ()

/-- Whatever the allocator does, `LoadElfFile` reads no byte behind the end of the file. -/
def ProgramReadsInside (file : File) (lazyLoad : Bool) : Prop :=
  ∀ (σ : Type) (a : Allocator σ) (s : σ), Defined (loadElfFile a file lazyLoad s)

section Program

variable {a : Allocator σ} {file : File} {lazyLoad : Bool} {header phnum : Nat} {st : Nat × σ}

/-- A segment in the file is loaded. -/
theorem exists_returns_loadSegment {vaddr : Nat} {flags : BitVec 64} {s : σ}
    (hmemsz : FieldInside file header pMemsz)
    (hfilesz : FieldInside file header pFilesz)
    (hsegment : SegmentInside file header) :
    ∃ s', Returns (loadSegment a file header vaddr flags s) s' := by
  by_cases hzero : field file header pFilesz = 0
  · simp [loadSegment, readField, readBytes, hmemsz, hfilesz, hzero]
  · obtain ⟨hoffset, hbytes⟩ := hsegment hzero
    have hread (reads : Bool) : Inside file (field file header pOffset)
        (if reads then field file header pFilesz else 0) := by
      cases reads with
      | true => exact hbytes
      | false => exact .inl rfl
    simp [loadSegment, readField, readBytes, hmemsz, hfilesz, hzero, hoffset, hread]

/-- The loop goes on behind a header that is in the file and does not end it. -/
theorem exists_returns_loadHeader (hinside : HeaderInside file lazyLoad header)
    (hgoes : ¬ EndsLoading file header) :
    ∃ st', Returns (loadHeader a file lazyLoad phnum st header) st' := by
  obtain ⟨htype, hload⟩ := hinside
  by_cases hisLoad : field file header pType = ptLoad
  · obtain ⟨hflags, hvaddr, hrest⟩ := hload hisLoad
    have haccepted : isRefused (field file header pVaddr) = false := by
      simpa [EndsLoading, hisLoad] using hgoes
    cases hlazy : lazyLoad with
    | true => simp [loadHeader, readField, htype, hisLoad, hflags, hvaddr, haccepted]
    | false =>
      obtain ⟨hmemsz, hfilesz, hsegment⟩ := hrest haccepted hlazy
      simp [loadHeader, readField, htype, hisLoad, hflags, hvaddr, haccepted,
        exists_returns_loadSegment hmemsz hfilesz hsegment]
  · simp [loadHeader, readField, htype, hisLoad]

theorem not_endsLoading_of_returns {st' : Nat × σ}
    (h : Returns (loadHeader a file lazyLoad phnum st header) st') : ¬ EndsLoading file header := by
  rintro ⟨hisLoad, hrefused⟩
  simp [loadHeader, readField, hisLoad, hrefused] at h

/-- A header that is in the file keeps `load` in the file. -/
theorem defined_loadHeader (hinside : HeaderInside file lazyLoad header) :
    Defined (loadHeader a file lazyLoad phnum st header) := by
  by_cases hends : EndsLoading file header
  · obtain ⟨htype, hload⟩ := hinside
    obtain ⟨hisLoad, hrefused⟩ := hends
    obtain ⟨hflags, hvaddr, -⟩ := hload hisLoad
    simp [loadHeader, readField, htype, hisLoad, hflags, hvaddr, hrefused]
  · obtain ⟨st', hst'⟩ : ∃ st', Returns (loadHeader a file lazyLoad phnum st header) st' :=
      exists_returns_loadHeader hinside hends
    exact hst'.defined

theorem headerInside_of_defined {st : Nat × Unit}
    (h : Defined (loadHeader copyingAllocator file lazyLoad phnum st header)) :
    HeaderInside file lazyLoad header := by
  simpa [HeaderInside, SegmentInside, loadHeader, loadSegment, copyingAllocator, readField,
    readBytes] using h

/-- The loop stays in the file up to the first header it does not get past. -/
theorem headerInside_of_defined_foldlM {pre post : List Nat} {st : Nat × Unit}
    (h : Defined ((pre ++ header :: post).foldlM
      (loadHeader copyingAllocator file lazyLoad phnum) st))
    (hpre : ∀ h ∈ pre, ¬ EndsLoading file h) : HeaderInside file lazyLoad header := by
  induction pre generalizing st with
  | nil =>
    rw [List.nil_append, List.foldlM_cons, defined_bind] at h
    exact headerInside_of_defined h.1
  | cons first pre ih =>
    rw [List.cons_append, List.foldlM_cons, defined_bind] at h
    obtain ⟨hends, hpre⟩ := List.forall_mem_cons.1 hpre
    obtain ⟨st1, hst1⟩ := exists_returns_loadHeader (headerInside_of_defined h.1) hends
    exact ih (h.2 st1 hst1) hpre

theorem ehdrSize_lt_of_returns (h : Returns (checkElfFile file) ()) : ehdrSize < file.length := by
  simp only [checkElfFile, returns_ite, returns_throw, and_false, false_or, Nat.not_le] at h
  exact h.1

/-- `LoadElfFile` reads the program headers of a file that `CheckElfFile` accepts. -/
theorem defined_loadElfFile_iff {s : σ} :
    Defined (loadElfFile a file lazyLoad s) ↔
      (Returns (checkElfFile file) () → Defined ((programHeaders file).foldlM
        (loadHeader a file lazyLoad (field file 0 Ehdr.ePhnum)) (0, s))) := by
  have hcheck : Defined (checkElfFile file) := by
    simp only [checkElfFile, defined_ite, defined_throw, implies_true, true_and]
    intro hsize
    exact defined_checkHeader (by omega)
  rw [loadElfFile, defined_bind, and_iff_right hcheck]
  refine Unique.forall_iff.trans (imp_congr_right fun haccepted => ?_)
  have hsize := (ehdrSize_lt_of_returns haccepted).le
  have hentry := inside_header hsize (f := Ehdr.eEntry) (by decide)
  have hphoff := inside_header hsize (f := Ehdr.ePhoff) (by decide)
  have hphnum := inside_header hsize (f := Ehdr.ePhnum) (by decide)
  simp [load, readHeader, readField, programHeaders, hentry, hphoff, hphnum]

/-- `LoadElfFile` stays in the file exactly if every program header it reaches is there, with its
segment. -/
theorem loadElfFile_inside_iff :
    ProgramReadsInside file lazyLoad ↔
      (Returns (checkElfFile file) () → ProgramFits file lazyLoad) := by
  constructor
  · intro hreads haccepted pre header post hheaders hpre
    have hdefined := defined_loadElfFile_iff.1 (hreads Unit copyingAllocator ()) haccepted
    exact headerInside_of_defined_foldlM (hheaders ▸ hdefined) hpre
  · intro hfits σ a s
    rw [defined_loadElfFile_iff, defined_foldlM]
    intro haccepted pre header post hheaders st hst
    refine defined_loadHeader (hfits haccepted pre header post hheaders fun h hh => ?_)
    obtain ⟨st1, st2, hpass⟩ := hst.of_mem hh
    exact not_endsLoading_of_returns hpass

end Program

end Obos.Loader
