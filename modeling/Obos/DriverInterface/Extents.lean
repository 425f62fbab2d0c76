import Obos.DriverInterface.Segments

/-!
# What the loaders read

Neither loader compares an offset or a size it takes from a file with the size of the file. The
conditions below say for each part of a file when it is read inside the file: the section headers
and their names, the program headers and their segments, the dynamic table with the relocation
tables it points at, and the symbols. `reads_inside_iff` puts them together.
-/

namespace Obos.DriverInterface

open Lib Vfs Loader List Ehdr Shdr Phdr
open Ehdr (eEntry ePhnum ePhoff eShnum eShoff)

/-! ## The section headers -/

/-- The addresses of the section headers. -/
def sectionHeaders (file : File) : List Nat :=
  entries (field file 0 eShoff) shdrSize (field file 0 eShnum)

/-- The section header of the names of the sections. -/
def namesHeader (file : File) : Nat :=
  (field file 0 eShoff + shdrSize * field file 0 eShstrndx) % 2 ^ 64

/-- Where the name of a section is. -/
def nameOffset (file : File) (shdr : Nat) : Nat :=
  (field file (namesHeader file) shOffset + field file shdr shName) % 2 ^ 64

/-- The name of a section can be read. -/
def NameInside (file : File) (shdr : Nat) : Prop :=
  FieldInside file shdr shName ∧ FieldInside file (namesHeader file) shOffset ∧
    Terminates file (nameOffset file shdr)

instance (file : File) (shdr : Nat) : Decidable (NameInside file shdr) :=
  inferInstanceAs (Decidable (_ ∧ _ ∧ _))

/-- The section has the name of the section with the driver header. -/
def holdsDriverHeader (file : File) (shdr : Nat) : Bool :=
  strcmp driverHeaderSectionName (stringAt file (nameOffset file shdr))

/-- The section headers up to that of the driver header can be read, and the start of the driver
header. -/
def CheckFits (file : File) : Prop :=
  Returns (checkModuleExecutable file) () →
    (∀ shdr ∈ searched (holdsDriverHeader file) (sectionHeaders file), NameInside file shdr) ∧
    ∀ shdr, (sectionHeaders file).find? (holdsDriverHeader file) = some shdr →
      let header := field file shdr shOffset
      FieldInside file shdr shOffset ∧
      (header ≠ 0 →
        FieldInside file header DriverHeader.magicNumber ∧
        (field file header DriverHeader.magicNumber = driverHeaderMagic →
          FieldInside file shdr Shdr.shAddr))

section Check

variable {file : File} {shdr : Nat}

theorem readHeader_eq (hsize : ehdrSize ≤ file.length) {f : Field}
    (hf : f.offset + f.width ≤ ehdrSize) : readHeader file f = pure (field file 0 f) := by
  rw [readHeader, readField, within_of (inside_header hsize hf)]

theorem sectionName_eq (hsize : ehdrSize ≤ file.length) :
    sectionName file shdr =
      within (NameInside file shdr) (stringAt file (nameOffset file shdr)) := by
  have hshoff := readHeader_eq hsize (f := eShoff) (by decide)
  have hshstrndx := readHeader_eq hsize (f := eShstrndx) (by decide)
  have hname : sectionName file shdr = (do
      let index ← readField file shdr shName
      let start ← readField file (namesHeader file) shOffset
      readString file ((start + index) % 2 ^ 64)) := by
    simp only [sectionName, getElfString, hshoff, hshstrndx, pure_bind, bind_assoc]
    rfl
  rw [hname]
  refine eq_within (fun h => ?_) fun h => ?_
  · simp only [readField, readString, defined_within_bind, defined_within] at h
    exact h
  · simp only [readField, readString, returns_within_bind, returns_within]
    exact ⟨h.1, h.2.1, h.2.2, rfl⟩

/-- The search for the driver header. -/
theorem findM?_isDriverHeaderSection (hsize : ehdrSize ≤ file.length) (shdrs : List Nat) :
    shdrs.findM? (isDriverHeaderSection file) =
      within (∀ shdr ∈ searched (holdsDriverHeader file) shdrs, NameInside file shdr)
        (shdrs.find? (holdsDriverHeader file)) := by
  rw [← findM?_within]
  congr 1
  funext shdr
  rw [isDriverHeaderSection, sectionName_eq hsize, bind_pure_comp, map_within]
  rfl

theorem ehdrSize_le_of_returns (h : Returns (checkModuleExecutable file) ()) :
    ehdrSize ≤ file.length := by
  by_contra hshort
  simp [checkModuleExecutable, Nat.not_le.1 hshort] at h

/-- The tests of the header stay in the file. -/
theorem defined_checkModuleExecutable : Defined (checkModuleExecutable file) := by
  by_cases hshort : file.length < ehdrSize
  · simp [checkModuleExecutable, hshort]
  · have hsize := Nat.not_lt.1 hshort
    have htype := readHeader_eq hsize (f := eType) (by decide)
    simp [checkModuleExecutable, hshort, defined_checkHeader hsize, htype]

/-- `CheckModule` stays in the file exactly if what it looks at is there. -/
theorem defined_checkModuleImpl_iff : Defined (checkModuleImpl file) ↔ CheckFits file := by
  rw [checkModuleImpl, defined_bind, and_iff_right defined_checkModuleExecutable]
  refine Unique.forall_iff.trans (imp_congr_right fun hheader => ?_)
  have hsize := ehdrSize_le_of_returns hheader
  simp only [readHeader_eq hsize (show eShoff.offset + _ ≤ _ by decide),
    readHeader_eq hsize (show eShnum.offset + _ ≤ _ by decide), pure_bind,
    findM?_isDriverHeaderSection hsize, defined_within_bind]
  refine and_congr_right fun _ => ?_
  rw [← sectionHeaders]
  cases (sectionHeaders file).find? (holdsDriverHeader file) with
  | none => simp
  | some shdr => simp [readField]

end Check

/-! ## The dynamic table -/

/-- A relocation record is in the file. -/
def RelocationInside (file : File) (rela : Nat) : Prop :=
  FieldInside file rela Rela.rInfo ∧ FieldInside file rela Rela.rOffset ∧
    FieldInside file rela Rela.rAddend

instance (file : File) (rela : Nat) : Decidable (RelocationInside file rela) :=
  inferInstanceAs (Decidable (_ ∧ _ ∧ _))

/-- The relocation table an entry of the dynamic table points at is in the file. -/
def TableFits (file : File) (entry sz : Nat) : Prop :=
  FieldInside file entry Dyn.dUn ∧
    ∀ rela ∈ entries (field file entry Dyn.dUn) relaSize (sz / relaSize), RelocationInside file rela

/-- The dynamic table from an entry on ends in the file, and so do the relocation tables it makes
the loader read. -/
inductive DynamicFits (file : File) (baseAddress : BitVec 64) : Nat → Dynamic → Prop where
  | ends {entry : Nat} {d : Dynamic} (htag : FieldInside file entry Dyn.dTag)
      (hnull : field file entry Dyn.dTag = 0) : DynamicFits file baseAddress entry d
  | goesOn {entry : Nat} {d : Dynamic} (htag : FieldInside file entry Dyn.dTag)
      (hnull : field file entry Dyn.dTag ≠ 0)
      (hvalue : FieldInside file entry Dyn.dUn)
      (htable : ∀ table ∈ (d.next baseAddress entry (field file entry Dyn.dTag)
        (field file entry Dyn.dUn)).2, TableFits file table.1 table.2)
      (hrest : DynamicFits file baseAddress ((entry + dynSize) % 2 ^ 64)
        (d.next baseAddress entry (field file entry Dyn.dTag) (field file entry Dyn.dUn)).1) :
      DynamicFits file baseAddress entry d

section Dynamic

variable {file : File} {baseAddress : BitVec 64}

theorem readRelocation_eq (rela : Nat) : ∃ r, readRelocation file rela =
    within (RelocationInside file rela) r := by
  refine ⟨⟨field file rela Rela.rInfo / 2 ^ 32, BitVec.ofNat 64 (field file rela Rela.rOffset),
    field file rela Rela.rInfo % 2 ^ 16, BitVec.ofNat 64 (field file rela Rela.rAddend)⟩,
    eq_within (fun h => ?_) fun h => ?_⟩
  · simp only [readRelocation, readField, defined_within_bind, defined_pure, and_true] at h
    exact h
  · simp only [readRelocation, readField, returns_within_bind, returns_pure, and_true]
    exact h

/-- A relocation table that fits is read. -/
theorem exists_returns_handleTable {table : Option (Nat × Nat)}
    (h : ∀ t ∈ table, TableFits file t.1 t.2) : ∃ rs, Returns (handleTable file table) rs := by
  choose record hrecord using @readRelocation_eq file
  cases table with
  | none => exact ⟨[], returns_pure.2 rfl⟩
  | some t =>
    obtain ⟨hptr, hrecords⟩ := h t rfl
    simp only [handleTable, handleDtRel, readField, funext hrecord, mapM_within,
      returns_within_bind, returns_within]
    exact ⟨_, hptr, hrecords, rfl⟩

/-- A relocation table that is read fits. -/
theorem tableFits_of_defined {table : Option (Nat × Nat)} (h : Defined (handleTable file table)) :
    ∀ t ∈ table, TableFits file t.1 t.2 := by
  choose record hrecord using @readRelocation_eq file
  rintro t rfl
  simp only [handleTable, handleDtRel, readField, funext hrecord, mapM_within,
    defined_within_bind, defined_within] at h
  exact h

/-- The loop returns if there is an end of the table in the file. -/
theorem DynamicFits.exists_returns {entry : Nat} {d : Dynamic} (hsize : file.length < 2 ^ 64)
    (h : DynamicFits file baseAddress entry d) {fuel : Nat} (hfuel : file.length + 1 ≤ fuel + entry)
    (hentry : entry < 2 ^ 64) (relocations : List Relocation) :
    ∃ r, Returns (readDynamic file baseAddress fuel entry d relocations) r := by
  have hinside {o : Nat} (h : Inside file (entry + o) 8) : (entry + o) % 2 ^ 64 + 8 ≤ file.length :=
    h.resolve_left (by decide)
  induction h generalizing fuel relocations with
  | @ends entry d htag hnull =>
    have hend := hinside (o := 0) htag
    obtain ⟨fuel, rfl⟩ := Nat.exists_eq_succ_of_ne_zero (show fuel ≠ 0 by omega)
    simp [readDynamic, readField, htag, hnull]
  | @goesOn entry d htag hnull hvalue htable hrest ih =>
    have hend := hinside (o := 0) htag
    have hend' := hinside (o := 8) hvalue
    obtain ⟨fuel, rfl⟩ := Nat.exists_eq_succ_of_ne_zero (show fuel ≠ 0 by omega)
    obtain ⟨rs, hrs⟩ := exists_returns_handleTable htable
    have hnext : (entry + dynSize) % 2 ^ 64 = entry + 16 := by
      unfold dynSize
      exact Nat.mod_eq_of_lt (by omega)
    obtain ⟨r, hr⟩ := @ih fuel (by omega) (by omega) (relocations ++ rs)
      (fun h => h.resolve_left (by decide))
    refine ⟨r, ?_⟩
    simp only [readDynamic, readField, returns_within_bind, returns_ite]
    exact ⟨htag, .inr ⟨hnull, hvalue, returns_bind.2 ⟨rs, hrs, hr⟩⟩⟩

/-- The loop leaves the file if there is none. -/
theorem dynamicFits_of_defined {fuel entry : Nat} {d : Dynamic} {relocations : List Relocation}
    (h : Defined (readDynamic file baseAddress fuel entry d relocations)) :
    DynamicFits file baseAddress entry d := by
  induction fuel generalizing entry d relocations with
  | zero => exact absurd h (by simp [readDynamic])
  | succ fuel ih =>
    simp only [readDynamic, readField, defined_within_bind, defined_ite] at h
    obtain ⟨htag, -, hrest⟩ := h
    by_cases hnull : field file entry Dyn.dTag = 0
    · exact .ends htag hnull
    · obtain ⟨hvalue, hrest⟩ := hrest hnull
      rw [defined_bind] at hrest
      have htable := tableFits_of_defined hrest.1
      obtain ⟨rs, hrs⟩ := exists_returns_handleTable htable
      exact .goesOn htag hnull hvalue htable (ih (hrest.2 rs hrs))

end Dynamic

/-! ## The program headers -/

/-- The bytes of the segments are in the file, but for those of the first header, which are copied
only if it is the last one, too. -/
def SegmentsInside (file : File) : Prop :=
  ∀ i < field file 0 ePhnum, (i = 0 → field file 0 ePhnum = 1) →
    SegmentBytesInside file (programHeader file i)

/-- The dynamic table: the last one in the order in which the headers are seen. -/
def dynamicTable (file : File) : Option Nat :=
  let phnum := field file 0 ePhnum
  ((List.range phnum).map (headerSeen (phnum - 1))).reverse.findSome? fun i =>
    if field file (programHeader file i) pType = ptDynamic then
      some (field file (programHeader file i) pOffset)
    else none

/-- What `LoadModuleAndRelocate` looks at is in the file. -/
structure LoadFits (env : Environment) (file : File) : Prop where
  table : HeadersInside file
  segments : SegmentsInside file
  dynamic : ∀ entry ∈ dynamicTable file,
    DynamicFits (fileWithLast file) (BitVec.ofNat 64 (imageBase env file)) entry .initial

section Load

variable {env : Environment} {file : File}

theorem defined_withSymbol (symbol : Option KernelSymbol)
    (effect : KernelSymbol → RelocationEffect) : Defined (withSymbol symbol effect) := by
  cases symbol with
  | none => exact defined_throw _
  | some s => exact defined_pure _

theorem defined_relocationEffect (symbol : Option KernelSymbol) (baseAddress got place : BitVec 64)
    (r : Relocation) : Defined (relocationEffect symbol baseAddress got place r) := by
  unfold relocationEffect
  split <;> simp only [defined_withSymbol, defined_pure, defined_throw]

theorem defined_resolveSymbol (symbols : List KernelSymbol) (baseAddress : BitVec 64) (d : Dynamic)
    (m : Memory) (r : Relocation) : Defined (resolveSymbol symbols baseAddress d m r) := by
  simp only [resolveSymbol, defined_ite, defined_pure, implies_true, true_and]
  intro _
  split
  · exact defined_throw _
  · simp only [defined_ite, defined_throw, defined_pure, implies_true, and_true]

theorem defined_relocate (symbols : List KernelSymbol) (baseAddress : BitVec 64) (d : Dynamic)
    (st : Memory × List CopyRelocation) (r : Relocation) :
    Defined (relocate symbols baseAddress d st r) := by
  simp only [relocate, defined_bind, defined_resolveSymbol, defined_relocationEffect, defined_pure,
    implies_true, and_true]

/-- The passes see every header but the first one, which is seen only if it is the last one. -/
theorem forall_headerSeen_iff {n : Nat} {P : Nat → Prop} :
    (∀ k < n, P (headerSeen (n - 1) k)) ↔ ∀ i < n, (i = 0 → n = 1) → P i := by
  constructor
  · intro h i hi hfirst
    by_cases hlast : i = n - 1
    · exact hlast ▸ h 0 (by omega)
    · have hseen := h (i + 1) (by omega)
      rwa [headerSeen, if_neg (by omega), Nat.add_sub_cancel] at hseen
  · intro h k hk
    unfold headerSeen
    split
    · exact h _ (by omega) (by omega)
    · exact h _ (by omega) (by omega)

/-- The two loops return if the headers and the segments are in the file. -/
theorem exists_returns_loadSegments (hheader : ehdrSize ≤ file.length)
    (hsize : file.length < 2 ^ 64) (hpos : 0 < field file 0 ePhnum)
    (htable : HeadersInside file)
    (hsegments : SegmentsInside file) : ∃ r, Returns (loadSegments env file) r := by
  have hphoff := readHeader_eq hheader (f := ePhoff) (by decide)
  have hphnum := readHeader_eq hheader (f := ePhnum) (by decide)
  simp only [loadSegments, hphoff, hphnum, pure_bind,
    forHeaders_countPages hsize htable (ePhnum_le file) hpos,
    forHeaders_copySegment hsize htable (ePhnum_le file) hpos, returns_within_bind, returns_pure]
  exact ⟨_, forall_headerSeen_iff.2 hsegments, rfl⟩

/-- They leave the file if not. -/
theorem inside_of_defined_loadSegments (hheader : ehdrSize ≤ file.length)
    (hsize : file.length < 2 ^ 64) (hpos : 0 < field file 0 ePhnum)
    (h : Defined (loadSegments env file)) :
    HeadersInside file ∧ SegmentsInside file := by
  have hphoff := readHeader_eq hheader (f := ePhoff) (by decide)
  have hphnum := readHeader_eq hheader (f := ePhnum) (by decide)
  simp only [loadSegments, hphoff, hphnum, pure_bind] at h
  have htable := tableInside_of_defined exists_returns_countPages (defined_bind.1 h).1
  simp only [forHeaders_countPages hsize htable (ePhnum_le file) hpos, pure_bind,
    forHeaders_copySegment hsize htable (ePhnum_le file) hpos, defined_within_bind,
    defined_pure, and_true] at h
  exact ⟨htable, forall_headerSeen_iff.1 h⟩

/-- A pass of the loop that protects the segments stays in the table. -/
theorem defined_protectSegment {phoff phnum j baseAddress : Nat} (hsize : file.length < 2 ^ 64)
    (h : TableInside file phoff phnum) (hj : j < phnum) (calls : List (Nat × Nat × BitVec 64)) :
    Defined (protectSegment phoff baseAddress (withHeader file phoff j) calls) := by
  simp only [protectSegment,
    readField_withHeader hsize h hj (show pType.offset + _ ≤ _ by decide),
    readField_withHeader hsize h hj (show Phdr.pFlags.offset + _ ≤ _ by decide),
    readField_withHeader hsize h hj (show Phdr.pVaddr.offset + _ ≤ _ by decide),
    readField_withHeader hsize h hj (show Phdr.pMemsz.offset + _ ≤ _ by decide), pure_bind,
    defined_ite, defined_pure, implies_true, and_true]

/-- The second half of `LoadModuleAndRelocate` stays in the file exactly if the dynamic table and
the relocation tables are there. -/
theorem defined_relocateModule_iff {phoff phnum baseAddress entryPoint : Nat} {segments : Segments}
    (hsize : file.length < 2 ^ 64) (h : TableInside file phoff phnum) (hphnum : phnum ≤ 65536)
    (hpos : 0 < phnum) (hentry : ∀ entry ∈ segments.dynamicHeader, entry < 2 ^ 64) :
    Defined (relocateModule env (withHeader file phoff (phnum - 1)) phoff phnum baseAddress
        entryPoint segments) ↔
      ∀ entry ∈ segments.dynamicHeader,
        DynamicFits (withHeader file phoff (phnum - 1)) (BitVec.ofNat 64 baseAddress) entry
          .initial := by
  have hlast : phnum - 1 < phnum := by omega
  have hlength := length_withHeader h hlast
  unfold relocateModule
  cases hheader : segments.dynamicHeader with
  | none => simp
  | some entry =>
    simp only [Option.mem_def, Option.some.injEq, forall_eq']
    rw [defined_bind]
    constructor
    · exact fun hdefined => dynamicFits_of_defined hdefined.1
    · intro hfits
      obtain ⟨r, hr⟩ := hfits.exists_returns (hlength ▸ hsize) (Nat.le_add_right _ _)
        (hentry entry hheader) []
      refine ⟨hr.defined, fun r' _ => ?_⟩
      rw [defined_bind]
      refine ⟨defined_foldlM.2 fun _ _ _ _ _ _ => defined_relocate _ _ _ _ _, fun _ _ => ?_⟩
      rw [forHeaders_eq h hphnum hlast le_rfl]
      simp only [defined_bind, defined_pure, implies_true, and_true]
      refine defined_foldlM.2 fun pre k post hk _ _ => ?_
      have hmem : k ∈ range phnum := hk ▸ mem_append_right pre mem_cons_self
      exact defined_protectSegment hsize h (headerSeen_lt hlast (mem_range.1 hmem).le) _

/-- The dynamic table is that of the last header of its kind. -/
theorem dynamicHeader_foldl_add {phoff baseAddress : Nat} (is : List Nat) (st : Segments) :
    (is.foldl (Segments.add file phoff baseAddress) st).dynamicHeader =
      (is.reverse.findSome? fun i =>
        if field file (phoff + phdrSize * i) pType = ptDynamic then
          some (field file (phoff + phdrSize * i) pOffset)
        else none).or st.dynamicHeader := by
  induction is generalizing st with
  | nil => rfl
  | cons i is ih =>
    rw [foldl_cons, ih, reverse_cons, findSome?_append, Option.or_assoc]
    congr 1
    by_cases hdynamic : field file (phoff + phdrSize * i) pType = ptDynamic
    · simp [Segments.add, hdynamic]
    · simp [Segments.add, hdynamic]

theorem dynamicTable_lt {entry : Nat} (h : entry ∈ dynamicTable file) : entry < 2 ^ 64 := by
  obtain ⟨i, -, hi⟩ := exists_of_findSome?_eq_some h
  by_cases hdynamic : field file (programHeader file i) pType = ptDynamic
  · rw [if_pos hdynamic] at hi
    exact Option.some.inj hi ▸ field_lt file _ pOffset
  · rw [if_neg hdynamic] at hi
    cases hi

/-- `LoadModuleAndRelocate` stays in the file exactly if what it looks at is there. -/
theorem defined_loadModuleAndRelocate_iff (hheader : ehdrSize ≤ file.length)
    (hsize : file.length < 2 ^ 64) :
    Defined (loadModuleAndRelocate env file) ↔ LoadFits env file := by
  have hphoff := readHeader_eq hheader (f := ePhoff) (by decide)
  have hphnum := readHeader_eq hheader (f := ePhnum) (by decide)
  have hentry := readHeader_eq hheader (f := eEntry) (by decide)
  rcases Nat.eq_zero_or_pos (field file 0 ePhnum) with hzero | hpos
  · refine iff_of_true ?_ ⟨?_, ?_, ?_⟩
    · simp [loadModuleAndRelocate, loadSegments, hphoff, hphnum, hentry, hzero, forHeaders,
        relocateModule]
    · exact fun i hi => absurd hi (by omega)
    · exact fun i hi => absurd hi (by omega)
    · simp [dynamicTable, hzero]
  · simp only [loadModuleAndRelocate, hphoff, hphnum, hentry, pure_bind]
    rw [defined_bind]
    -- what the second half gets from the first
    have hsecond (htable : HeadersInside file)
        {r : File × Nat × Segments} (hr : Returns (loadSegments env file) r) :
        Defined (relocateModule env r.1 (field file 0 ePhoff) (field file 0 ePhnum)
          (env.baseAddress r.2.1) ((env.baseAddress r.2.1 + field file 0 eEntry) % 2 ^ 64)
          r.2.2) ↔
        ∀ entry ∈ dynamicTable file, DynamicFits (fileWithLast file)
          (BitVec.ofNat 64 (imageBase env file)) entry .initial := by
      obtain ⟨-, rfl⟩ := loadSegments_eq hsize hr hpos
      have hdynamic : (loadedSegments env file (nPagesTotal file * 4096)).dynamicHeader =
          dynamicTable file := by
        rw [loadedSegments, copiedSegments, dynamicHeader_foldl_add, Option.or_none]
        rfl
      refine (defined_relocateModule_iff hsize htable (ePhnum_le file) hpos ?_).trans ?_
      · exact fun entry h => dynamicTable_lt (hdynamic ▸ h)
      · exact hdynamic ▸ Iff.rfl
    constructor
    · rintro ⟨hfirst, hrest⟩
      obtain ⟨htable, hsegments⟩ := inside_of_defined_loadSegments hheader hsize hpos hfirst
      obtain ⟨r, hr⟩ := exists_returns_loadSegments hheader hsize hpos htable hsegments
      exact ⟨htable, hsegments, (hsecond htable hr).1 (hrest r hr)⟩
    · rintro ⟨htable, hsegments, hdynamic⟩
      obtain ⟨r, hr⟩ := exists_returns_loadSegments hheader hsize hpos htable hsegments
      exact ⟨hr.defined, fun r hr => (hsecond htable hr).2 hdynamic⟩

end Load

/-! ## The symbols -/

/-- The sections that are looked at for the symbols, and the tables that are found. -/
def searchSections (file : File) : List Nat → SymbolTables → List Nat × SymbolTables
  | [], t => ([], t)
  | shdr :: rest, t =>
    let (t, done) := t.next shdr (stringAt file (nameOffset file shdr))
    let found := if done then ([], t) else searchSections file rest t
    (shdr :: found.1, found.2)

/-- A symbol is in the file, and its name if it is a function. -/
def SymbolInside (file : File) (stringTable sym : Nat) : Prop :=
  FieldInside file sym Sym.stInfo ∧
  (field file sym Sym.stInfo % 16 = 2 →
    FieldInside file sym Sym.stValue ∧
    FieldInside file sym Sym.stSize ∧
    FieldInside file sym Sym.stName ∧
    Terminates file (stringTable + field file sym Sym.stName))

instance (file : File) (stringTable sym : Nat) : Decidable (SymbolInside file stringTable sym) :=
  inferInstanceAs (Decidable (_ ∧ (_ → _)))

/-- The sections that are looked at have names in the file, and so have the symbols. -/
def SymbolsFit (file : File) : Prop :=
  (∀ shdr ∈ (searchSections file (sectionHeaders file) ⟨none, none⟩).1, NameInside file shdr) ∧
  ∀ symtab strtab, (searchSections file (sectionHeaders file) ⟨none, none⟩).2 =
    ⟨some symtab, some strtab⟩ →
    FieldInside file symtab shOffset ∧
    FieldInside file strtab shOffset ∧
    FieldInside file symtab shSize ∧
    ∀ sym ∈ entries (field file symtab shOffset) symSize
      (field file symtab shSize / symSize),
      SymbolInside file (field file strtab shOffset) sym

section Symbols

variable {file : File}

/-- The search for the tables. -/
theorem findSymbolTables_eq (hheader : ehdrSize ≤ file.length) (shdrs : List Nat)
    (t : SymbolTables) :
    findSymbolTables file shdrs t =
      within (∀ shdr ∈ (searchSections file shdrs t).1, NameInside file shdr)
        (searchSections file shdrs t).2 := by
  induction shdrs generalizing t with
  | nil => exact (within_of (by simp [searchSections])).symm
  | cons shdr rest ih =>
    rw [findSymbolTables, sectionName_eq hheader]
    by_cases hname : NameInside file shdr
    · rw [within_of hname, pure_bind]
      simp only [searchSections, forall_mem_cons, hname, true_and]
      cases hdone : (t.next shdr (stringAt file (nameOffset file shdr))).2 with
      | true =>
        exact (within_of trivial).symm
      | false =>
        exact ih _
    · simp only [within, searchSections, forall_mem_cons, hname, false_and, if_false]
      rfl

theorem readSymbol_eq (baseAddress stringTable sym : Nat) : ∃ s,
    readSymbol file baseAddress stringTable sym = within (SymbolInside file stringTable sym) s := by
  by_cases hfunction : field file sym Sym.stInfo % 16 = 2
  · refine ⟨some ⟨(baseAddress + field file sym Sym.stValue) % 2 ^ 64, field file sym Sym.stSize,
      stringAt file (stringTable + field file sym Sym.stName)⟩,
      eq_within (fun h => ?_) fun h => ?_⟩
    · simp only [readSymbol, readField, readString, defined_within_bind, hfunction, ne_eq,
        not_true_eq_false, if_false, defined_pure, and_true] at h
      exact ⟨h.1, fun _ => h.2⟩
    · simp only [readSymbol, readField, readString, returns_within_bind, hfunction, ne_eq,
        not_true_eq_false, if_false, returns_pure, and_true]
      exact ⟨h.1, h.2 hfunction⟩
  · refine ⟨none, eq_within (fun h => ?_) fun h => ?_⟩
    · simp only [readSymbol, readField, defined_within_bind] at h
      exact ⟨h.1, fun hf => absurd hf hfunction⟩
    · simp only [readSymbol, readField, returns_within_bind, ne_eq, hfunction, not_false_eq_true,
        if_true, returns_pure, and_true]
      exact h.1

/-- The symbols are read in the file exactly if they and their names are there. -/
theorem defined_driverSymbols_iff (hheader : ehdrSize ≤ file.length) (baseAddress : Nat) :
    Defined (driverSymbols file baseAddress) ↔ SymbolsFit file := by
  simp only [driverSymbols, readHeader_eq hheader (show eShoff.offset + _ ≤ _ by decide),
    readHeader_eq hheader (show eShnum.offset + _ ≤ _ by decide), pure_bind,
    findSymbolTables_eq hheader, defined_within_bind]
  refine and_congr_right fun _ => ?_
  rw [← sectionHeaders]
  obtain ⟨symtab, strtab⟩ := (searchSections file (sectionHeaders file) ⟨none, none⟩).2
  cases symtab with
  | none => simp
  | some symtab =>
    cases strtab with
    | none => simp
    | some strtab =>
      choose symbol hsymbol using fun stringTable sym =>
        @readSymbol_eq file baseAddress stringTable sym
      simp only [readField, fun t => funext (hsymbol t), mapM_within, defined_within_bind,
        defined_pure, and_true]
      simp

end Symbols

/-! ## The loaders -/

/-- Whatever drivers are registered, `LoadModule` reads no byte behind the end of the file. -/
def DriverReadsInside (env : Environment) (file : File) : Prop :=
  ∀ registered, Defined (loadModule env registered file)

/-- What `CheckModule` and `LoadModule` look at is in the file: for a driver that is accepted, its
header, what `LoadModuleAndRelocate` looks at, and the symbols if the driver can be relocated. -/
def DriverFits (env : Environment) (file : File) : Prop :=
  CheckFits file ∧
  ∀ header virtAddr, Returns (checkModuleImpl file) (header, virtAddr) →
    FieldInside file header DriverHeader.getServiceType ∧
    (field file header DriverHeader.getServiceType ≠ 0 → LoadFits env file ∧
      (isOk (loadModuleAndRelocate env file) → SymbolsFit (fileWithLast file)))

section Loaders

variable {env : Environment} {file : File}

theorem ehdrSize_le_of_accepted {r : Nat × Nat} (h : Returns (checkModuleImpl file) r) :
    ehdrSize ≤ file.length := by
  rw [checkModuleImpl, returns_bind] at h
  obtain ⟨_, hheader, -⟩ := h
  exact ehdrSize_le_of_returns hheader

/-- The symbols are read from the file as the loops over the headers have left it. -/
theorem defined_symbols_iff (hheader : ehdrSize ≤ file.length) (hsize : file.length < 2 ^ 64) :
    (∀ image, Returns (loadModuleAndRelocate env file) image →
      Defined (driverSymbols image.file image.baseAddress)) ↔
    (isOk (loadModuleAndRelocate env file) → SymbolsFit (fileWithLast file)) := by
  have hfile {image : LoadedModule} (h : Returns (loadModuleAndRelocate env file) image) :
      Defined (driverSymbols image.file image.baseAddress) ↔ SymbolsFit (fileWithLast file) := by
    obtain ⟨⟨r, hr⟩, hlast⟩ := file_of_returns hsize h
    have hlength := length_withHeader (tableInside_of_returns hr)
      (Nat.sub_lt (ePhnum_pos_of_returns h) Nat.one_pos)
    rw [hlast]
    exact defined_driverSymbols_iff (hlength ▸ hheader) _
  constructor
  · intro h hok
    obtain ⟨image, himage⟩ := exists_returns_of_isOk hok
    exact (hfile himage).1 (h image himage)
  · intro h image himage
    exact (hfile himage).2 (h himage.isOk)

/-- `LoadModule` stays in the file exactly if what it looks at is there. -/
theorem driverReadsInside_iff (hsize : file.length < 2 ^ 64) :
    DriverReadsInside env file ↔ DriverFits env file := by
  have hload (registered : List Nat) : Defined (loadModule env registered file) ↔
      CheckFits file ∧ ∀ header virtAddr, Returns (checkModuleImpl file) (header, virtAddr) →
        FieldInside file header DriverHeader.getServiceType ∧
        (field file header DriverHeader.getServiceType ≠ 0 → LoadFits env file ∧
          ∀ image, Returns (loadModuleAndRelocate env file) image →
            memoryNumber image.memory
              (image.baseAddress + virtAddr + DriverHeader.driverId.offset) 4 ∉ registered →
            Defined (driverSymbols image.file image.baseAddress)) := by
    rw [loadModule, defined_bind, defined_checkModuleImpl_iff, Prod.forall]
    refine and_congr_right fun _ => forall₃_congr fun header virtAddr haccepted => ?_
    rw [← defined_loadModuleAndRelocate_iff (ehdrSize_le_of_accepted haccepted) hsize]
    simp [readField]
  simp only [DriverReadsInside, hload, DriverFits]
  constructor
  · intro h
    -- no driver is registered: the symbols are read if the driver is relocated
    obtain ⟨hcheck, hrest⟩ := h []
    refine ⟨hcheck, fun header virtAddr haccepted => ?_⟩
    obtain ⟨hservice, hrest⟩ := hrest header virtAddr haccepted
    refine ⟨hservice, fun hnonzero => ⟨(hrest hnonzero).1, ?_⟩⟩
    rw [← defined_symbols_iff (ehdrSize_le_of_accepted haccepted) hsize]
    exact fun image himage => (hrest hnonzero).2 image himage not_mem_nil
  · rintro ⟨hcheck, hrest⟩ registered
    refine ⟨hcheck, fun header virtAddr haccepted => ?_⟩
    obtain ⟨hservice, hrest⟩ := hrest header virtAddr haccepted
    refine ⟨hservice, fun hnonzero => ⟨(hrest hnonzero).1, fun image himage _ => ?_⟩⟩
    have hsymbols := (defined_symbols_iff (ehdrSize_le_of_accepted haccepted) hsize).2
      (hrest hnonzero).2
    exact hsymbols image himage

/-- Both loaders stay in a file exactly if what they look at is there. -/
theorem reads_inside_iff (env : Environment) (file : File) (lazyLoad : Bool)
    (hsize : file.length < 2 ^ 64) :
    (ProgramReadsInside file lazyLoad ↔
      (Returns (checkElfFile file) () → ProgramFits file lazyLoad)) ∧
    (DriverReadsInside env file ↔ DriverFits env file) :=
  ⟨loadElfFile_inside_iff, driverReadsInside_iff hsize⟩

end Loaders

/-! ## A small file -/

/-- An image with one section, which holds the driver header and the name of the section, and a
table of two program headers, said to be at the given offset: a segment with the driver header,
and an empty dynamic table. -/
def sectionedFile (phoff : BitVec 64) : File :=
  smallEhdr phoff 64 2 1 ++
  -- the section header
  (toBytes 4 40 ++ List.replicate 12 0 ++ toBytes 8 0x1000 ++ toBytes 8 128 ++
    List.replicate 32 0) ++
  -- the driver header up to the service type, and the name
  (toBytes 4 0x5902E288 ++ List.replicate 28 0 ++ toBytes 8 1) ++ driverHeaderSectionName ++ [0] ++
  smallPhdr 1 128 0x1000 40 ++ smallPhdr 2 136 0x1008 16

theorem reads_inside_iff_sectionedFile :
    ProgramReadsInside (sectionedFile 186) false ∧
      DriverReadsInside smallEnvironment (sectionedFile 186) := by
  have hiff := reads_inside_iff smallEnvironment (sectionedFile 186) false (by decide +kernel)
  refine ⟨hiff.1.2 fun _ => ?_, hiff.2.2 ⟨fun _ => ⟨by decide +kernel, ?_⟩, ?_⟩⟩
  · have hinside : ∀ h ∈ programHeaders (sectionedFile 186),
        HeaderInside (sectionedFile 186) false h := by
      unfold HeaderInside SegmentInside
      decide +kernel
    intro pre header post hsplit _
    exact hinside header (hsplit ▸ mem_append_right pre mem_cons_self)
  · have hfind : (sectionHeaders (sectionedFile 186)).find?
        (holdsDriverHeader (sectionedFile 186)) = some 64 := by
      decide +kernel
    intro shdr hshdr
    obtain rfl := Option.some.inj (hfind.symm.trans hshdr)
    decide +kernel
  · have haccepted : Returns (checkModuleImpl (sectionedFile 186)) (128, 0x1000) := by
      unfold Returns
      decide +kernel
    intro header virtAddr h
    obtain ⟨rfl, rfl⟩ := Prod.mk.inj (haccepted.unique h)
    refine ⟨by decide +kernel, fun _ => ⟨⟨?_, ?_, ?_⟩, fun _ => ⟨?_, ?_⟩⟩⟩
    · unfold HeadersInside TableInside
      decide +kernel
    · unfold SegmentsInside SegmentBytesInside
      decide +kernel
    · have hdynamic : dynamicTable (sectionedFile 186) = some 136 := by decide +kernel
      intro entry hentry
      obtain rfl := Option.some.inj (hdynamic.symm.trans hentry)
      exact .ends (by decide +kernel) (by decide +kernel)
    · decide +kernel
    · intro symtab strtab hfound
      have hnone : (searchSections (fileWithLast (sectionedFile 186))
          (sectionHeaders (fileWithLast (sectionedFile 186))) ⟨none, none⟩).2.symtabSection =
            none := by
        decide +kernel
      rw [hfound] at hnone
      cases hnone

theorem sectionedFile_leaves :
    isOk (checkElfFile (sectionedFile 0x10000)) ∧ isOk (checkModuleImpl (sectionedFile 0x10000)) ∧
      ¬ ProgramReadsInside (sectionedFile 0x10000) false ∧
      ¬ DriverReadsInside smallEnvironment (sectionedFile 0x10000) := by
  refine ⟨by decide +kernel, by decide +kernel, fun h => ?_, fun h => ?_⟩
  · have hleaves : ¬ Defined (loadElfFile copyingAllocator (sectionedFile 0x10000) false ()) := by
      unfold Defined
      decide +kernel
    exact hleaves (h Unit copyingAllocator ())
  · have hleaves : ¬ Defined (loadModule smallEnvironment [] (sectionedFile 0x10000)) := by
      unfold Defined
      decide +kernel
    exact hleaves (h [])

end Obos.DriverInterface
