import Obos.Lib.Defined
import Obos.Vfs.Path

/-!
# Reading an ELF file in memory

The loaders get the bytes of a file and read its structures in place: a field is a number of a
given width at a given distance from the start of its structure. Offsets are added modulo
`2 ^ 64`. Reading a byte behind the end of the file leaves the model.
-/

namespace Obos.Loader

open Lib Vfs

/-- The bytes of a file. -/
abbrev File := List (BitVec 8)

/-- Why loading a file fails. -/
inductive LoaderError where
  | incorrectFile
  | incorrectArchitecture
  | baseAddressUsed
  | notADriver
  | invalidDriverHeader
  | driverReferencedUnresolvedSymbol
  | driverSymbolMismatch
  | unimplementedFeature
  | alreadyExists
  /-- The kernel uses a null pointer. -/
  | fault
  /-- The call fails without an error. -/
  | silent
  deriving DecidableEq

/-- What reads a file may fail, and is undefined where it leaves the file. -/
abbrev Load := ExceptT LoaderError Option

/-- The bytes from an offset on lie in the file. -/
def Inside (file : File) (offset count : Nat) : Prop :=
  count = 0 ∨ offset % 2 ^ 64 + count ≤ file.length

instance (file : File) (offset count : Nat) : Decidable (Inside file offset count) :=
  inferInstanceAs (Decidable (_ ∨ _))

/-- The bytes from an offset on. -/
def bytesAt (file : File) (offset count : Nat) : List (BitVec 8) :=
  (file.drop (offset % 2 ^ 64)).take count

/-- Read bytes of a file. -/
def readBytes (file : File) (offset count : Nat) : Load (List (BitVec 8)) :=
  within (Inside file offset count) (bytesAt file offset count)

/-- The number with the given bytes, the lowest one first. -/
def ofBytes : List (BitVec 8) → Nat
  | [] => 0
  | b :: bs => b.toNat + 256 * ofBytes bs

/-- A member of a structure: its distance from the start of the structure, and its width. -/
structure Field where
  offset : Nat
  width : Nat

/-- The value of a member of the structure at an address. -/
def field (file : File) (address : Nat) (f : Field) : Nat :=
  ofBytes (bytesAt file (address + f.offset) f.width)

/-- A member of the structure at an address is in the file. -/
abbrev FieldInside (file : File) (address : Nat) (f : Field) : Prop :=
  Inside file (address + f.offset) f.width

/-- Read a member of the structure at an address. -/
def readField (file : File) (address : Nat) (f : Field) : Load Nat :=
  within (FieldInside file address f) (field file address f)

/-- A byte at which `strlen` stops. -/
def endsString (b : BitVec 8) : Bool := b = 0 || b = 1

/-- There is an end of the string in the file. -/
def Terminates (file : File) (offset : Nat) : Prop :=
  ∃ b ∈ file.drop (offset % 2 ^ 64), endsString b = true

instance (file : File) (offset : Nat) : Decidable (Terminates file offset) :=
  decidable_of_iff ((file.drop (offset % 2 ^ 64)).any endsString = true) List.any_eq_true

/-- The string at an offset, as far as `strlen` sees it. -/
def stringAt (file : File) (offset : Nat) : CString :=
  (file.drop (offset % 2 ^ 64)).takeWhile (!endsString ·)

/-- Read a string up to its end. -/
def readString (file : File) (offset : Nat) : Load CString :=
  within (Terminates file offset) (stringAt file offset)

/-- The addresses of the structures of a table. -/
def entries (start size count : Nat) : List Nat :=
  (List.range count).map fun i => (start + size * i) % 2 ^ 64

/-! ## The structures -/

namespace Ehdr

/-- `e_ident[i]`. -/
def eIdent (i : Nat) : Field := ⟨i, 1⟩
/-- `e_type`. -/
def eType : Field := ⟨16, 2⟩
/-- `e_version`. -/
def eVersion : Field := ⟨20, 4⟩
/-- `e_entry`. -/
def eEntry : Field := ⟨24, 8⟩
/-- `e_phoff`. -/
def ePhoff : Field := ⟨32, 8⟩
/-- `e_shoff`. -/
def eShoff : Field := ⟨40, 8⟩
/-- `e_phnum`. -/
def ePhnum : Field := ⟨56, 2⟩
/-- `e_shnum`. -/
def eShnum : Field := ⟨60, 2⟩
/-- `e_shstrndx`. -/
def eShstrndx : Field := ⟨62, 2⟩

end Ehdr

namespace Phdr

/-- `p_type`. -/
def pType : Field := ⟨0, 4⟩
/-- `p_flags`. -/
def pFlags : Field := ⟨4, 4⟩
/-- `p_offset`. -/
def pOffset : Field := ⟨8, 8⟩
/-- `p_vaddr`. -/
def pVaddr : Field := ⟨16, 8⟩
/-- `p_filesz`. -/
def pFilesz : Field := ⟨32, 8⟩
/-- `p_memsz`. -/
def pMemsz : Field := ⟨40, 8⟩

end Phdr

namespace Shdr

/-- `sh_name`. -/
def shName : Field := ⟨0, 4⟩
/-- `sh_addr`. -/
def shAddr : Field := ⟨16, 8⟩
/-- `sh_offset`. -/
def shOffset : Field := ⟨24, 8⟩
/-- `sh_size`. -/
def shSize : Field := ⟨32, 8⟩

end Shdr

/-- `sizeof(Elf64_Ehdr)`. -/
def ehdrSize : Nat := 64
/-- `sizeof(Elf64_Phdr)`. -/
def phdrSize : Nat := 56
/-- `sizeof(Elf64_Shdr)`. -/
def shdrSize : Nat := 64

/-- `PT_LOAD`. -/
def ptLoad : Nat := 1
/-- `PT_DYNAMIC`. -/
def ptDynamic : Nat := 2
/-- `PF_X`. -/
def pfX : Nat := 0
/-- `PF_W`. -/
def pfW : Nat := 1
/-- `PF_R`. -/
def pfR : Nat := 2

/-- Read a member of the ELF header. -/
def readHeader (file : File) (f : Field) : Load Nat := readField file 0 f

/-- The tests both loaders make on the ELF header: the magic number, the version, and the class
and byte order. -/
def checkHeader (file : File) : Load Unit := do
  let magic ← readBytes file 0 4
  if magic ≠ [0x7f, 0x45, 0x4c, 0x46] then throw .incorrectFile
  if (← readHeader file Ehdr.eVersion) ≠ 1 then throw .incorrectFile
  if (← readHeader file (Ehdr.eIdent 4)) ≠ 2 then throw .incorrectArchitecture
  if (← readHeader file (Ehdr.eIdent 5)) ≠ 1 then throw .incorrectArchitecture

/-! ## When reading stays in the file -/

section Reading

variable {file : File} {f : Field}

/-- The ELF header of a file that is long enough can be read. -/
theorem inside_header (hsize : ehdrSize ≤ file.length) (hf : f.offset + f.width ≤ ehdrSize) :
    FieldInside file 0 f := by
  refine .inr ?_
  omega

theorem ofBytes_lt (bs : List (BitVec 8)) : ofBytes bs < 256 ^ bs.length := by
  induction bs with
  | nil => exact Nat.one_pos
  | cons b bs ih =>
    rw [ofBytes, List.length_cons]
    omega

theorem field_lt (file : File) (address : Nat) (f : Field) : field file address f < 256 ^ f.width :=
  (ofBytes_lt _).trans_le (Nat.pow_le_pow_right (by decide) (List.length_take_le _ _))

/-- The tests of the ELF header read nothing else. -/
theorem defined_checkHeader (hsize : ehdrSize ≤ file.length) : Defined (checkHeader file) := by
  have hmagic : Inside file 0 4 := inside_header hsize (f := ⟨0, 4⟩) (by decide)
  have hversion := inside_header hsize (f := Ehdr.eVersion) (by decide)
  have hclass := inside_header hsize (f := Ehdr.eIdent 4) (by decide)
  have hdata := inside_header hsize (f := Ehdr.eIdent 5) (by decide)
  simp [checkHeader, readHeader, readBytes, readField, hmagic, hversion, hclass, hdata]

end Reading

end Obos.Loader
