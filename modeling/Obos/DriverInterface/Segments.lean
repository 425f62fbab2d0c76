import Obos.DriverInterface.HeaderLoop

/-!
# The segments of a driver

`loadSegments_eq` says what the two loops of `LoadModuleAndRelocate` over the program headers do
together: the pages of the first header are counted twice and those of the last one are not
counted, the segment of the last header is copied twice and that of the first one is not copied,
and the last header is left in the place of the first.

`segments_right_iff` says for which drivers the segments are nevertheless where they should be.
-/

namespace Obos.DriverInterface

open Lib Loader List
open Ehdr (ePhnum ePhoff)
open Phdr (pFilesz pMemsz pOffset pType pVaddr)

/-! ## What the loops do -/

/-- The pages of a segment. -/
def headerPages (file : File) (header : Nat) : Nat :=
  if field file header pType = ptLoad then segmentPages (field file header pMemsz) else 0

/-- The bytes of a segment that is loaded are in the file. -/
def SegmentBytesInside (file : File) (header : Nat) : Prop :=
  field file header pType = ptLoad →
    Inside file (field file header pOffset) (field file header pFilesz)

instance (file : File) (header : Nat) : Decidable (SegmentBytesInside file header) :=
  inferInstanceAs (Decidable (_ → _))

/-- Where a segment is loaded. -/
def segmentTarget (file : File) (baseAddress header : Nat) : Nat :=
  (baseAddress + field file header pVaddr) % 2 ^ 64

/-- The bytes the loop writes for a header, while it is in the first place of the table. -/
def segmentBytes (file : File) (phoff baseAddress i : Nat) : List (BitVec 8) :=
  let header := phoff + phdrSize * i
  if field file header pType ≠ ptLoad then []
  else if field file header pFilesz = 0 then
    List.replicate (segmentTarget file baseAddress header % 4096) 0
  else
    bytesAt (withHeader file phoff i) (field file header pOffset)
      (field file header pFilesz)

/-- The copy made for a header. -/
def segmentCopy (file : File) (baseAddress header : Nat) : Option SegmentCopy :=
  if field file header pType = ptLoad ∧ field file header pFilesz ≠ 0 then
    some ⟨field file header pOffset, segmentTarget file baseAddress header,
      field file header pFilesz⟩
  else none

/-- What the body of the loop does for a header. -/
def Segments.add (file : File) (phoff baseAddress : Nat) (st : Segments) (i : Nat) : Segments where
  memory := writeBytes st.memory (segmentTarget file baseAddress (phoff + phdrSize * i))
    (segmentBytes file phoff baseAddress i)
  dynamicHeader :=
    if field file (phoff + phdrSize * i) pType = ptDynamic then
      some (field file (phoff + phdrSize * i) pOffset)
    else st.dynamicHeader
  copies := st.copies ++ (segmentCopy file baseAddress (phoff + phdrSize * i)).toList

section Passes

variable {file : File} {phoff phnum j : Nat} {f : Field}

theorem writeBytes_nil (m : Memory) (address : Nat) : writeBytes m address [] = m := by
  funext x
  exact getD_nil

variable (hsize : file.length < 2 ^ 64) (h : TableInside file phoff phnum) (hj : j < phnum)
include hsize h hj

/-- A field of the header in the first place can be read. -/
theorem readField_withHeader (hf : f.offset + f.width ≤ phdrSize) :
    readField (withHeader file phoff j) phoff f = pure (field file (phoff + phdrSize * j) f) := by
  have hfirst := h.first hj
  rw [readField, within_of, field_withHeader h hsize hj hf]
  refine .inr ?_
  rw [length_withHeader h hj]
  unfold phdrSize at hf
  omega

theorem countPages_withHeader (total : Nat) :
    countPages phoff (withHeader file phoff j) total =
      pure (total + headerPages file (phoff + phdrSize * j)) := by
  simp only [countPages, readField_withHeader hsize h hj (show pType.offset + _ ≤ _ by decide),
    readField_withHeader hsize h hj (show pMemsz.offset + _ ≤ _ by decide), pure_bind,
    headerPages]
  split <;> simp_all

theorem copySegment_withHeader (baseAddress : Nat) (st : Segments) :
    copySegment phoff baseAddress (withHeader file phoff j) st =
      within (SegmentBytesInside file (phoff + phdrSize * j))
        (st.add file phoff baseAddress j) := by
  simp only [copySegment, readField_withHeader hsize h hj (show pType.offset + _ ≤ _ by decide),
    readField_withHeader hsize h hj (show pOffset.offset + _ ≤ _ by decide),
    readField_withHeader hsize h hj (show pFilesz.offset + _ ≤ _ by decide),
    readField_withHeader hsize h hj (show pVaddr.offset + _ ≤ _ by decide), pure_bind]
  by_cases hdynamic : field file (phoff + phdrSize * j) pType = ptDynamic
  · have hload : ptDynamic ≠ ptLoad := by decide
    have hinside : SegmentBytesInside file (phoff + phdrSize * j) :=
      fun h => absurd (hdynamic.symm.trans h) hload
    rw [within_of hinside]
    simp [Segments.add, hdynamic, hload, segmentBytes, segmentCopy, writeBytes_nil]
  by_cases hload : field file (phoff + phdrSize * j) pType = ptLoad
  · have hne : ptLoad ≠ ptDynamic := by decide
    by_cases hzero : field file (phoff + phdrSize * j) pFilesz = 0
    · have hinside : SegmentBytesInside file (phoff + phdrSize * j) := fun _ => .inl hzero
      rw [within_of hinside]
      simp [Segments.add, hne, hload, hzero, segmentBytes, segmentCopy, segmentTarget]
    · have hinside :
        Inside (withHeader file phoff j) (field file (phoff + phdrSize * j) pOffset)
          (field file (phoff + phdrSize * j) pFilesz) ↔
          SegmentBytesInside file (phoff + phdrSize * j) := by
        rw [SegmentBytesInside, forall_prop_of_true hload, Inside, length_withHeader h hj, Inside]
      rw [readBytes, within_congr hinside, bind_pure_comp, map_within]
      simp [Segments.add, hne, hload, hzero, segmentBytes, segmentCopy, segmentTarget]
  · have hinside : SegmentBytesInside file (phoff + phdrSize * j) := fun h => absurd h hload
    rw [within_of hinside]
    simp [Segments.add, hdynamic, hload, segmentBytes, segmentCopy, writeBytes_nil]

end Passes

/-! ## What both loops do together -/

/-- The pages the first loop counts. -/
def countedPages (file : File) (phoff phnum : Nat) : Nat :=
  ((List.range phnum).map fun k => headerPages file (phoff + phdrSize * headerSeen 0 k)).sum

/-- What the second loop does for the headers its passes see. -/
def copiedSegments (file : File) (phoff phnum baseAddress : Nat) (st : Segments) : Segments :=
  ((List.range phnum).map (headerSeen (phnum - 1))).foldl (Segments.add file phoff baseAddress) st

section Loops

variable {file : File} {phoff phnum : Nat} (hsize : file.length < 2 ^ 64)
  (h : TableInside file phoff phnum) (hphnum : phnum ≤ 65536) (hpos : 0 < phnum)
include hsize h hphnum hpos

/-- The loop that counts the pages. -/
theorem forHeaders_countPages : forHeaders phoff phnum (countPages phoff) file 0 =
    pure (withHeader file phoff (phnum - 1), countedPages file phoff phnum) := by
  have hlast : headerSeen 0 phnum = phnum - 1 := by
    unfold headerSeen
    split <;> omega
  have hpasses : (range phnum).foldlM
      (fun acc k => countPages phoff (withHeader file phoff (headerSeen 0 k)) acc) 0 =
      (pure (countedPages file phoff phnum) : Load Nat) := by
    rw [foldlM_congr_mem (fun k hk total =>
      countPages_withHeader hsize h (headerSeen_lt hpos (mem_range.1 hk).le) total),
      foldlM_pure, countedPages, sum_eq_foldl, foldl_map]
  have hloop := @forHeaders_eq file phoff phnum 0 phnum Nat (countPages phoff) 0 h hphnum hpos
    le_rfl
  rw [withHeader_zero h hpos] at hloop
  rw [hloop, hpasses, pure_bind, hlast]

/-- The loop that copies the segments, with the last header in the first place. -/
theorem forHeaders_copySegment (baseAddress : Nat) (st : Segments) :
    forHeaders phoff phnum (copySegment phoff baseAddress) (withHeader file phoff (phnum - 1)) st =
      within (∀ k < phnum, SegmentBytesInside file (phoff + phdrSize * headerSeen (phnum - 1) k))
        (withHeader file phoff (phnum - 1), copiedSegments file phoff phnum baseAddress st) := by
  have hfirst : phnum - 1 < phnum := by omega
  rw [forHeaders_eq h hphnum hfirst le_rfl, headerSeen_last,
    foldlM_congr_mem (fun k hk st =>
      copySegment_withHeader hsize h (headerSeen_lt hfirst (mem_range.1 hk).le) baseAddress st),
    foldlM_within, bind_pure_comp, map_within, copiedSegments, foldl_map]
  exact within_congr (by simp only [mem_range])

end Loops

/-! ## What the callers rely on -/

/-- The address of a program header. -/
def programHeader (file : File) (i : Nat) : Nat := field file 0 ePhoff + phdrSize * i

/-- A program header of a segment that is to be loaded. -/
def IsLoad (file : File) (i : Nat) : Prop :=
  i < field file 0 ePhnum ∧ field file (programHeader file i) pType = ptLoad

/-- The number of bytes from the start of a segment on that are written or have to be zero. -/
def segmentExtent (file : File) (baseAddress i : Nat) : Nat :=
  let header := programHeader file i
  let filesz := field file header pFilesz
  max (field file header pMemsz)
    (if filesz = 0 then segmentTarget file baseAddress header % 4096 else filesz)

/-- An address in the region `VirtualAlloc` has found. -/
def InRegion (env : Environment) (size address : Nat) : Prop :=
  ∃ region, env.virtualAlloc size = some region ∧
    region.base ≤ address ∧ address < region.base + size

/-- The segments are where they should be, and the table is unchanged. -/
structure SegmentsRight (env : Environment) (file : File) (size : Nat) (segments : Segments)
    (file' : File) : Prop where
  copied_once : segments.copies.Perm ((List.range (field file 0 ePhnum)).filterMap fun i =>
    segmentCopy file (env.baseAddress size) (programHeader file i))
  rest_zero : ∀ i, IsLoad file i → ∀ k, field file (programHeader file i) pFilesz ≤ k →
    k < field file (programHeader file i) pMemsz →
    segments.memory ((env.baseAddress size + field file (programHeader file i) pVaddr + k) %
      2 ^ 64) = 0
  in_region : ∀ i, IsLoad file i → ∀ k < segmentExtent file (env.baseAddress size) i,
    InRegion env size
      ((env.baseAddress size + field file (programHeader file i) pVaddr + k) % 2 ^ 64)
  table_kept : ∀ i < field file 0 ePhnum,
    bytesAt file' (programHeader file i) phdrSize = bytesAt file (programHeader file i) phdrSize

/-- The driver is loaded as its program headers say. -/
def LoadedRight (env : Environment) (file : File) (m : LoadedModule) : Prop :=
  ∃ file' size segments, Returns (loadSegments env file) (file', size, segments) ∧
    SegmentsRight env file size segments m.file

/-! ## When the first and the last header are the same -/

/-- The first and the last header are the same. -/
def SameEnds (file : File) (phoff phnum : Nat) : Prop :=
  bytesAt file (phoff + phdrSize * (phnum - 1)) phdrSize = bytesAt file phoff phdrSize

/-- A function that does not tell the header in the first place from the first header sees the
headers in order, without the last one, and one more header at the start. -/
theorem map_headerSeen {α : Type} {c : Nat → α} {first n : Nat} (hc : c first = c 0) :
    (range (n + 1)).map (fun k => c (headerSeen first k)) =
      c first :: (range n).map c := by
  rw [range_succ_eq_map, map_cons, map_map]
  refine congrArg₂ cons rfl (map_congr_left fun k _ => ?_)
  cases k with
  | zero => exact hc
  | succ k => rfl

section SameEnds

variable {file : File} {phoff phnum : Nat} {f : Field}

variable (hsame : SameEnds file phoff phnum)
include hsame

variable (h : TableInside file phoff phnum)
include h

theorem SameEnds.withHeader (hpos : 0 < phnum) : withHeader file phoff (phnum - 1) = file := by
  have hzero := withHeader_zero h hpos
  unfold Obos.DriverInterface.withHeader at hzero ⊢
  rwa [hsame]

variable (hsize : file.length < 2 ^ 64)
include hsize

theorem SameEnds.field (hpos : 0 < phnum) (hf : f.offset + f.width ≤ phdrSize) :
    field file (phoff + phdrSize * (phnum - 1)) f = field file (phoff + phdrSize * 0) f := by
  rw [← field_withHeader h hsize (by omega) hf, hsame.withHeader h hpos]
  rfl

/-- The pages of all headers are counted. -/
theorem SameEnds.countedPages (hpos : 0 < phnum) : countedPages file phoff phnum =
      ((range phnum).map fun i => headerPages file (phoff + phdrSize * i)).sum := by
  obtain ⟨n, rfl⟩ := Nat.exists_eq_succ_of_ne_zero hpos.ne'
  have hlast :
      headerPages file (phoff + phdrSize * n) = headerPages file (phoff + phdrSize * 0) := by
    have htype := hsame.field h hsize hpos (f := pType) (by decide)
    have hmemsz := hsame.field h hsize hpos (f := pMemsz) (by decide)
    rw [Nat.succ_eq_add_one, Nat.add_sub_cancel] at htype hmemsz
    unfold headerPages
    rw [htype, hmemsz]
  unfold Obos.DriverInterface.countedPages
  rw [Nat.succ_eq_add_one,
    map_headerSeen (c := fun i => headerPages file (phoff + phdrSize * i)) rfl,
    sum_cons, range_succ, map_append, sum_append, map_singleton,
    sum_singleton, hlast, Nat.add_comm]

/-- The last header has the effect of the first one. -/
theorem SameEnds.add (hpos : 0 < phnum) (baseAddress : Nat) (st : Segments) :
    st.add file phoff baseAddress (phnum - 1) = st.add file phoff baseAddress 0 := by
  have htype := hsame.field h hsize hpos (f := pType) (by decide)
  have hoffset := hsame.field h hsize hpos (f := pOffset) (by decide)
  have hvaddr := hsame.field h hsize hpos (f := pVaddr) (by decide)
  have hfilesz := hsame.field h hsize hpos (f := pFilesz) (by decide)
  simp only [Segments.add, segmentBytes, segmentCopy, segmentTarget, htype, hoffset, hvaddr,
    hfilesz, hsame.withHeader h hpos, withHeader_zero h hpos]

/-- The segments are copied in order, that of the last header first. -/
theorem SameEnds.copiedSegments (hpos : 0 < phnum) (baseAddress : Nat) (st : Segments) :
    copiedSegments file phoff phnum baseAddress st =
      ((phnum - 1) :: range (phnum - 1)).foldl (Segments.add file phoff baseAddress) st := by
  -- the passes as functions, which do not tell the last header from the first one
  let pass (i : Nat) (st : Segments) : Segments := st.add file phoff baseAddress i
  have hpass : pass (phnum - 1) = pass 0 := funext fun st => hsame.add h hsize hpos baseAddress st
  have hfold (is : List Nat) : is.foldl (Segments.add file phoff baseAddress) st =
      (is.map pass).foldl (fun st f => f st) st := by
    rw [foldl_map]
  obtain ⟨n, rfl⟩ := Nat.exists_eq_succ_of_ne_zero hpos.ne'
  rw [Obos.DriverInterface.copiedSegments, hfold, hfold, map_map, map_cons]
  exact congrArg (foldl _ st) (map_headerSeen hpass)

end SameEnds

/-! ## The copies and the memory -/

section Copies

variable {file : File} {phoff baseAddress : Nat}

theorem copies_foldl_add (is : List Nat) (st : Segments) :
    (is.foldl (Segments.add file phoff baseAddress) st).copies =
      st.copies ++ is.filterMap fun i => segmentCopy file baseAddress (phoff + phdrSize * i) := by
  induction is generalizing st with
  | nil => simp
  | cons i is ih =>
    rw [foldl_cons, ih, Segments.add, append_assoc, filterMap_cons]
    cases segmentCopy file baseAddress (phoff + phdrSize * i) <;> rfl

/-- The byte a header puts at a place of the region. -/
def writtenBy (file : File) (phoff baseAddress x i : Nat) : Option (BitVec 8) :=
  let vaddr := field file (phoff + phdrSize * i) pVaddr
  if vaddr ≤ x then (segmentBytes file phoff baseAddress i)[x - vaddr]? else none

/-- What bytes written to a region leave at a place of it. -/
theorem writeBytes_region {m : Memory} {size vaddr x : Nat} {bs : List (BitVec 8)}
    (region : Region size) (hx : x < size) (hbs : bs = [] ∨ vaddr + bs.length ≤ size) :
    writeBytes m ((region.base + vaddr) % 2 ^ 64) bs (region.base + x) =
      (if vaddr ≤ x then bs[x - vaddr]? else none).getD (m (region.base + x)) := by
  have hfits := region.fits
  rcases hbs with rfl | hbs
  · simp [writeBytes]
  rw [writeBytes, getD_eq_getElem?_getD]
  by_cases hempty : bs = []
  · simp [hempty]
  have hlength : 0 < bs.length := length_pos_iff.2 hempty
  rw [Nat.mod_eq_of_lt (show region.base + vaddr < 2 ^ 64 by omega)]
  by_cases hle : vaddr ≤ x
  · rw [if_pos hle, show region.base + x + 2 ^ 64 - (region.base + vaddr) = x - vaddr + 2 ^ 64 by
      omega, Nat.add_mod_right, Nat.mod_eq_of_lt (by omega)]
  · rw [if_neg hle, getElem?_eq_none (by omega)]

/-- A place of the region holds what the last header to write there has put there. -/
theorem memory_foldl_add {size x : Nat} (region : Region size) (hbase : baseAddress = region.base)
    (hx : x < size) {is : List Nat} (hfit : ∀ i ∈ is, segmentBytes file phoff baseAddress i = [] ∨
      field file (phoff + phdrSize * i) pVaddr +
        (segmentBytes file phoff baseAddress i).length ≤ size) (st : Segments) :
    (is.foldl (Segments.add file phoff baseAddress) st).memory (region.base + x) =
      (is.reverse.findSome? (writtenBy file phoff baseAddress x)).getD
        (st.memory (region.base + x)) := by
  induction is generalizing st with
  | nil => rfl
  | cons i is ih =>
    obtain ⟨hi, his⟩ := forall_mem_cons.1 hfit
    have hone : (st.add file phoff baseAddress i).memory (region.base + x) =
        (writtenBy file phoff baseAddress x i).getD (st.memory (region.base + x)) := by
      subst hbase
      exact writeBytes_region region hx hi
    rw [foldl_cons, ih his, hone, reverse_cons, findSome?_append]
    cases is.reverse.findSome? (writtenBy file phoff baseAddress x) with
    | none => cases h : writtenBy file phoff baseAddress x i <;> simp [h]
    | some b => rfl

end Copies

/-! ## A driver that is loaded -/

/-- The program headers are in the file. -/
abbrev HeadersInside (file : File) : Prop :=
  TableInside file (field file 0 ePhoff) (field file 0 ePhnum)

/-- The pages `LoadModuleAndRelocate` asks for. -/
def nPagesTotal (file : File) : Nat := countedPages file (field file 0 ePhoff) (field file 0 ePhnum)

/-- The address the driver is loaded at. -/
def imageBase (env : Environment) (file : File) : Nat := env.baseAddress (nPagesTotal file * 4096)

/-- The file as the loops leave it. -/
def fileWithLast (file : File) : File :=
  withHeader file (field file 0 ePhoff) (field file 0 ePhnum - 1)

/-- The segments as the loops leave them in a region of the given size. -/
def loadedSegments (env : Environment) (file : File) (size : Nat) : Segments :=
  copiedSegments file (field file 0 ePhoff) (field file 0 ePhnum) (env.baseAddress size)
    ⟨env.memoryWith size, none, []⟩

section Loaded

variable {env : Environment} {file : File} {m : LoadedModule}

theorem ePhnum_le (file : File) : field file 0 ePhnum ≤ 65536 :=
  (field_lt file 0 ePhnum).le

theorem exists_returns_countPages {phoff : Nat} (file : File) (total : Nat)
    (h : Defined (countPages phoff file total)) :
    ∃ total', Returns (countPages phoff file total) total' := by
  simp only [countPages, readField, defined_within_bind, defined_ite, defined_pure] at h
  by_cases hload : field file phoff pType = ptLoad
  · simp [countPages, readField, hload, h.1, h.2.2 (not_not.2 hload)]
  · simp [countPages, readField, hload, h.1]

/-- A driver that is loaded has program headers. -/
theorem tableInside_of_returns {r : File × Nat × Segments} (h : Returns (loadSegments env file) r) :
    HeadersInside file := by
  simp only [loadSegments, readHeader, readField, returns_within_bind] at h
  obtain ⟨-, -, h⟩ := h
  rw [returns_bind] at h
  obtain ⟨r1, hr1, -⟩ := h
  exact tableInside_of_defined exists_returns_countPages hr1.defined

/-- What the loops leave, if there are program headers. -/
theorem loadSegments_eq (hsize : file.length < 2 ^ 64) {r : File × Nat × Segments}
    (h : Returns (loadSegments env file) r) (hpos : 0 < field file 0 ePhnum) :
    (∀ k < field file 0 ePhnum,
      SegmentBytesInside file (programHeader file (headerSeen (field file 0 ePhnum - 1) k))) ∧
      r = (fileWithLast file, nPagesTotal file * 4096,
        loadedSegments env file (nPagesTotal file * 4096)) := by
  have htable := tableInside_of_returns h
  simp only [loadSegments, readHeader, readField, returns_within_bind,
    forHeaders_countPages hsize htable (ePhnum_le file) hpos, pure_bind,
    forHeaders_copySegment hsize htable (ePhnum_le file) hpos, returns_pure] at h
  exact ⟨h.2.2.1, h.2.2.2⟩

theorem ePhnum_pos_of_returns (h : Returns (loadModuleAndRelocate env file) m) :
    0 < field file 0 ePhnum := by
  by_contra hzero
  rw [Nat.not_lt, Nat.le_zero] at hzero
  simp [loadModuleAndRelocate, loadSegments, readHeader, readField, forHeaders, hzero,
    relocateModule] at h

/-- The buffer is left with the last header in the first place. -/
theorem file_of_returns (hsize : file.length < 2 ^ 64)
    (h : Returns (loadModuleAndRelocate env file) m) :
    (∃ r, Returns (loadSegments env file) r) ∧ m.file = fileWithLast file := by
  have hpos := ePhnum_pos_of_returns h
  simp only [loadModuleAndRelocate, readHeader, readField, returns_within_bind] at h
  obtain ⟨-, -, -, h⟩ := h
  rw [returns_bind] at h
  obtain ⟨r, hr, h⟩ := h
  refine ⟨⟨r, hr⟩, ?_⟩
  have htable := tableInside_of_returns hr
  obtain ⟨-, rfl⟩ := loadSegments_eq hsize hr hpos
  simp only [relocateModule] at h
  split at h
  · simp only [returns_bind, returns_pure] at h
    obtain ⟨_, _, _, _, r, hr, rfl⟩ := h
    exact forHeaders_last htable (ePhnum_le file) hpos hr
  · exact absurd h returns_throw

end Loaded

/-! ## When the segments are right -/

/-- The size of the region, if every header is counted. -/
def regionSize (file : File) : Nat :=
  ((List.range (field file 0 ePhnum)).map fun i =>
    headerPages file (programHeader file i)).sum * 4096

/-- The segments lie in the region. -/
def SegmentsFit (env : Environment) (file : File) : Prop :=
  ∀ i, IsLoad file i →
    segmentExtent file (env.baseAddress (regionSize file)) i = 0 ∨
      (env.virtualAlloc (regionSize file)).isSome ∧
        field file (programHeader file i) pVaddr +
          segmentExtent file (env.baseAddress (regionSize file)) i ≤ regionSize file

/-- The last header to write behind the bytes of a segment, in the order in which they are copied
if the first and the last one are the same, writes a zero there. -/
def RestClear (env : Environment) (file : File) : Prop :=
  let phnum := field file 0 ePhnum
  ∀ i, IsLoad file i → ∀ k, field file (programHeader file i) pFilesz ≤ k →
    k < field file (programHeader file i) pMemsz → ∀ b,
    ((phnum - 1) :: List.range (phnum - 1)).reverse.findSome?
      (writtenBy file (field file 0 ePhoff) (env.baseAddress (regionSize file))
        (field file (programHeader file i) pVaddr + k)) = some b → b = 0

section Right

variable {env : Environment} {file : File} {size : Nat}

theorem baseAddress_of_some {region : Region size} (h : env.virtualAlloc size = some region) :
    env.baseAddress size = region.base := by
  rw [Environment.baseAddress, h]
  rfl

/-- Bytes at a distance from the start of the region lie in it if they end in it. -/
theorem forall_inRegion_iff {vaddr extent : Nat} (hvaddr : vaddr < 2 ^ 64) :
    (∀ k < extent, InRegion env size ((env.baseAddress size + vaddr + k) % 2 ^ 64)) ↔
      extent = 0 ∨ (env.virtualAlloc size).isSome ∧ vaddr + extent ≤ size := by
  constructor
  · intro hin
    by_cases hzero : extent = 0
    · exact .inl hzero
    obtain ⟨region, hregion, hlo, hhi⟩ := hin 0 (by omega)
    rw [baseAddress_of_some hregion] at hin hlo hhi
    have hpos := region.base_pos
    have hfits := region.fits
    refine .inr ⟨by rw [hregion]; rfl, ?_⟩
    by_contra hexceeds
    -- the first byte is in the region, and then the first one behind its end is not
    obtain ⟨region', hregion', hlo', hhi'⟩ := hin (size - vaddr) (by omega)
    cases hregion.symm.trans hregion'
    omega
  · rintro (rfl | ⟨hsome, hends⟩) k hk
    · exact absurd hk (by omega)
    · obtain ⟨region, hregion⟩ := Option.isSome_iff_exists.1 hsome
      have hfits := region.fits
      rw [baseAddress_of_some hregion]
      exact ⟨region, hregion, by omega, by omega⟩

/-- No more is written for a segment than its extent. -/
theorem length_segmentBytes_le (baseAddress i : Nat) :
    (segmentBytes file (field file 0 ePhoff) baseAddress i).length ≤
      segmentExtent file baseAddress i := by
  unfold segmentBytes segmentExtent programHeader
  refine le_trans ?_ (le_max_right _ _)
  dsimp only
  split
  · exact Nat.zero_le _
  · split
    · rw [length_replicate]
    · exact length_take_le _ _

/-- What is written for a header fits into the region. -/
theorem SegmentsFit.bytes (hfit : SegmentsFit env file) {i : Nat} (hi : i < field file 0 ePhnum) :
    let bs := segmentBytes file (field file 0 ePhoff) (env.baseAddress (regionSize file)) i
    bs = [] ∨ field file (programHeader file i) pVaddr + bs.length ≤ regionSize file := by
  have hle := @length_segmentBytes_le file (env.baseAddress (regionSize file)) i
  by_cases hload : field file (programHeader file i) pType = ptLoad
  · rcases hfit i ⟨hi, hload⟩ with hzero | ⟨-, hends⟩
    · exact .inl (length_eq_zero_iff.1 (by omega))
    · exact .inr (by omega)
  · exact .inl (if_pos hload)

section

variable (htable : HeadersInside file)
include htable

/-- The table is unchanged only if the last header may stand in the place of the first one. -/
theorem SegmentsRight.sameEnds {segments : Segments}
    (h : SegmentsRight env file size segments (fileWithLast file))
    (hpos : 0 < field file 0 ePhnum) :
    SameEnds file (field file 0 ePhoff) (field file 0 ePhnum) := by
  have hkept := h.table_kept 0 hpos
  rw [programHeader, Nat.mul_zero, Nat.add_zero, fileWithLast,
    bytesAt_withHeader_first htable (by omega)] at hkept
  exact hkept

variable (hsize : file.length < 2 ^ 64) (hpos : 0 < field file 0 ePhnum)
  (hsame : SameEnds file (field file 0 ePhoff) (field file 0 ePhnum))
include hsize hpos hsame

/-- The bytes behind those of a segment. -/
theorem memory_rest (hfit : SegmentsFit env file) {i k : Nat} (hi : IsLoad file i)
    (hk : k < field file (programHeader file i) pMemsz) :
    (loadedSegments env file (regionSize file)).memory
      ((env.baseAddress (regionSize file) + field file (programHeader file i) pVaddr + k) %
        2 ^ 64) =
      (((field file 0 ePhnum - 1) :: range (field file 0 ePhnum - 1)).reverse.findSome?
        (writtenBy file (field file 0 ePhoff) (env.baseAddress (regionSize file))
          (field file (programHeader file i) pVaddr + k))).getD 0 := by
  have hmemsz : field file (programHeader file i) pMemsz ≤
      segmentExtent file (env.baseAddress (regionSize file)) i := le_max_left _ _
  rcases hfit i hi with hzero | ⟨hsome, hends⟩
  · exact absurd hk (by omega)
  obtain ⟨region, hregion⟩ := Option.isSome_iff_exists.1 hsome
  have hbase := baseAddress_of_some hregion
  have hfits := region.fits
  have hx : field file (programHeader file i) pVaddr + k < regionSize file := by omega
  have hbytes : ∀ j ∈ (field file 0 ePhnum - 1) :: range (field file 0 ePhnum - 1),
      segmentBytes file (field file 0 ePhoff) (env.baseAddress (regionSize file)) j = [] ∨
        field file (field file 0 ePhoff + phdrSize * j) pVaddr +
          (segmentBytes file (field file 0 ePhoff) (env.baseAddress (regionSize file)) j).length ≤
            regionSize file := by
    intro j hj
    refine hfit.bytes ?_
    rcases mem_cons.1 hj with rfl | hj
    · omega
    · have := mem_range.1 hj
      omega
  rw [loadedSegments, hsame.copiedSegments htable hsize hpos]
  have hmemory := memory_foldl_add region hbase hx hbytes
    ⟨env.memoryWith (regionSize file), none, []⟩
  have hfresh : env.memoryWith (regionSize file)
      (region.base + (field file (programHeader file i) pVaddr + k)) = 0 := by
    rw [Environment.memoryWith, hregion]
    exact Memory.fill_inside _ (by omega) (by omega)
  refine Eq.trans ?_ (hmemory.trans (congrArg (Option.getD _) hfresh))
  congr 1
  rw [hbase, Nat.mod_eq_of_lt (by omega), Nat.add_assoc]

/-- If the first and the last header are the same, every segment is copied once, and what is left
is whether the segments fit and keep apart. -/
theorem segmentsRight_iff_of_same :
    SegmentsRight env file (regionSize file) (loadedSegments env file (regionSize file)) file ↔
      SegmentsFit env file ∧ RestClear env file := by
  have hregion (i : Nat) := @forall_inRegion_iff env (regionSize file) _
    (segmentExtent file (env.baseAddress (regionSize file)) i)
    (field_lt file (programHeader file i) pVaddr)
  constructor
  · intro hright
    have hfit : SegmentsFit env file := fun i hi => (hregion i).1 (hright.in_region i hi)
    refine ⟨hfit, ?_⟩
    intro i hi k hlo hhi b hb
    have hzero := hright.rest_zero i hi k hlo hhi
    rwa [memory_rest htable hsize hpos hsame hfit hi hhi, hb] at hzero
  · rintro ⟨hfit, hclear⟩
    refine ⟨?_, ?_, fun i hi => (hregion i).2 (hfit i hi), fun _ _ => rfl⟩
    · rw [loadedSegments, hsame.copiedSegments htable hsize hpos, copies_foldl_add, nil_append]
      obtain ⟨n, hn⟩ := Nat.exists_eq_succ_of_ne_zero hpos.ne'
      rw [hn, Nat.succ_eq_add_one, range_succ]
      exact (perm_append_singleton n _).symm.filterMap _
    · intro i hi k hlo hhi
      rw [memory_rest htable hsize hpos hsame hfit hi hhi]
      cases hlast : findSome? _ _ with
      | none => rfl
      | some b => exact hclear i hi k hlo hhi b hlast

end

/-- A driver is loaded as its program headers say exactly if the first and the last of them are the
same, the segments fit into the region, and none of them puts something behind the bytes of
another one. -/
theorem segments_right_iff {m : LoadedModule} (hsize : file.length < 2 ^ 64)
    (hloaded : Returns (loadModuleAndRelocate env file) m) :
    LoadedRight env file m ↔
      SameEnds file (field file 0 ePhoff) (field file 0 ePhnum) ∧
        SegmentsFit env file ∧ RestClear env file := by
  have hpos := ePhnum_pos_of_returns hloaded
  obtain ⟨⟨r, hr⟩, hfile⟩ := file_of_returns hsize hloaded
  have htable := tableInside_of_returns hr
  obtain ⟨-, rfl⟩ := loadSegments_eq hsize hr hpos
  -- what is said of the results of the loops is said of these
  have hright : LoadedRight env file m ↔ SegmentsRight env file _ _ m.file :=
    ⟨fun ⟨_, _, _, hr', hright⟩ => by cases hr.unique hr'; exact hright,
      fun hright => ⟨_, _, _, hr, hright⟩⟩
  have hsized : SameEnds file (field file 0 ePhoff) (field file 0 ePhnum) →
      nPagesTotal file * 4096 = regionSize file :=
    fun hsame => congrArg (· * 4096) (hsame.countedPages htable hsize hpos)
  rw [hright]
  constructor
  · intro h
    have hsame := (hfile ▸ h).sameEnds htable hpos
    rw [hsized hsame, hfile, fileWithLast, hsame.withHeader htable hpos] at h
    exact ⟨hsame, (segmentsRight_iff_of_same htable hsize hpos hsame).1 h⟩
  · rintro ⟨hsame, h⟩
    rw [hsized hsame, hfile, fileWithLast, hsame.withHeader htable hpos]
    exact (segmentsRight_iff_of_same htable hsize hpos hsame).2 h

end Right

/-- The kernel gives the driver pages at 1 MiB. -/
def smallEnvironment : Environment where
  virtualAlloc size :=
    if h : size ≤ 2 ^ 20 then some ⟨2 ^ 20, by decide, by decide, by omega⟩ else none
  kernelSymbols := []
  memory _ := 0

/-- An ELF header that says where the two tables are, and how many headers they have. -/
def smallEhdr (phoff shoff phnum shnum : BitVec 64) : File :=
  [0x7f, 0x45, 0x4c, 0x46, 2, 1, 1, 0] ++ List.replicate 8 0 ++ toBytes 2 3 ++ toBytes 2 0x3e ++
    toBytes 4 1 ++ toBytes 8 0 ++ toBytes 8 phoff ++ toBytes 8 shoff ++ toBytes 4 0 ++
    toBytes 2 64 ++ toBytes 2 56 ++ toBytes 2 phnum ++ toBytes 2 64 ++ toBytes 2 shnum ++
    toBytes 2 0

/-- A program header for bytes of the file that are loaded as they are. -/
def smallPhdr (type offset vaddr size : BitVec 64) : File :=
  toBytes 4 type ++ toBytes 4 6 ++ toBytes 8 offset ++ toBytes 8 vaddr ++ toBytes 8 vaddr ++
    toBytes 8 size ++ toBytes 8 size ++ toBytes 8 4096

/-- A driver with a segment of four bytes and an empty dynamic table. -/
def smallDriver : File :=
  smallEhdr 64 0 2 0 ++ smallPhdr 1 192 0 4 ++ smallPhdr 2 176 0x100 16 ++ List.replicate 16 0 ++
    [1, 2, 3, 4]

/-- The same driver, with the header of its segment repeated at the end of the table. -/
def repeatingDriver : File :=
  smallEhdr 64 0 3 0 ++ smallPhdr 1 248 0 4 ++ smallPhdr 2 232 0x100 16 ++ smallPhdr 1 248 0 4 ++
    List.replicate 16 0 ++ [1, 2, 3, 4]

theorem segments_right_iff_repeatingDriver :
    ∃ m, Returns (loadModuleAndRelocate smallEnvironment repeatingDriver) m ∧
      LoadedRight smallEnvironment repeatingDriver m := by
  obtain ⟨m, hm⟩ := exists_returns_of_isOk
    (show isOk (loadModuleAndRelocate smallEnvironment repeatingDriver) by decide +kernel)
  refine ⟨m, hm, (segments_right_iff (by decide +kernel) hm).2 ⟨?_, ?_, ?_⟩⟩
  · show bytesAt repeatingDriver _ _ = _
    decide +kernel
  · have hfit : ∀ i < field repeatingDriver 0 ePhnum,
        (smallEnvironment.virtualAlloc (regionSize repeatingDriver)).isSome ∧
          field repeatingDriver (programHeader repeatingDriver i) pVaddr +
            segmentExtent repeatingDriver
              (smallEnvironment.baseAddress (regionSize repeatingDriver)) i ≤
            regionSize repeatingDriver := by
      decide +kernel
    exact fun i hi => .inr (hfit i hi.1)
  · have hsame : ∀ i < field repeatingDriver 0 ePhnum,
        field repeatingDriver (programHeader repeatingDriver i) pMemsz =
          field repeatingDriver (programHeader repeatingDriver i) pFilesz := by
      decide +kernel
    intro i hi k hlo hhi
    exact absurd (hsame i hi.1) (by omega)

theorem smallDriver_not_right :
    ∃ m, Returns (loadModuleAndRelocate smallEnvironment smallDriver) m ∧
      ¬ LoadedRight smallEnvironment smallDriver m := by
  obtain ⟨m, hm⟩ := exists_returns_of_isOk
    (show isOk (loadModuleAndRelocate smallEnvironment smallDriver) by decide +kernel)
  refine ⟨m, hm, ?_⟩
  rintro ⟨file', size, segments, hr, hright⟩
  have hends : ¬ SameEnds smallDriver (field smallDriver 0 ePhoff)
      (field smallDriver 0 ePhnum) := by
    unfold SameEnds
    decide +kernel
  rw [(file_of_returns (by decide +kernel) hm).2] at hright
  exact hends (hright.sameEnds (tableInside_of_returns hr) (ePhnum_pos_of_returns hm))

end Obos.DriverInterface
