import Obos.Lib.Memory
import Obos.Loader.Elf

/-!
# The loader of drivers

`LoadModule` looks for the driver header of a file, copies its segments to a region of the
kernel's address space, applies the relocations its dynamic table names, and collects its
symbols. The loops over the program headers go through `programHeader`, a reference to the first
header of the table, so that going on to the next header overwrites the first one.

The fields of the ELF header are read once by each function: a program header has another type,
so that writing one may be taken not to change them. The buffer with the file is kept apart from
the memory the driver is copied to.
-/

namespace Obos.DriverInterface

open Lib Vfs Loader Paging Ehdr Phdr

/-! ## Checking a file -/

/-- `OBOS_DRIVER_HEADER_SECTION_NAME`. -/
def driverHeaderSectionName : CString := bytes ".obosDriverHeader"

/-- `OBOS_DRIVER_HEADER_MAGIC`. -/
def driverHeaderMagic : Nat := 0x5902E288

namespace DriverHeader

/-- `magicNumber`. -/
def magicNumber : Field := ⟨0, 4⟩
/-- `driverId`. -/
def driverId : Field := ⟨4, 4⟩
/-- `driverType`. -/
def driverType : Field := ⟨8, 4⟩
/-- `functionTable.GetServiceType`. -/
def getServiceType : Field := ⟨32, 8⟩

end DriverHeader

/-- `CheckModuleExecutable`. -/
def checkModuleExecutable (file : File) : Load Unit := do
  if file.length < ehdrSize then throw .silent
  checkHeader file
  if (← readHeader file eType) ≠ 3 then throw .incorrectFile

/-- `getElfString`: the offset of a string. -/
def getElfString (file : File) (index : Nat) : Load Nat := do
  let shoff ← readHeader file eShoff
  let shstrndx ← readHeader file eShstrndx
  let start ← readField file ((shoff + shdrSize * shstrndx) % 2 ^ 64) Shdr.shOffset
  return (start + index) % 2 ^ 64

/-- The name of the section with the given header. -/
def sectionName (file : File) (shdr : Nat) : Load CString := do
  readString file (← getElfString file (← readField file shdr Shdr.shName))

/-- Whether a section holds the driver header. -/
def isDriverHeaderSection (file : File) (shdr : Nat) : Load Bool :=
  return strcmp driverHeaderSectionName (← sectionName file shdr)

/-- `_CheckModuleImpl`: the offset of the driver header, and the address it asks for. -/
def checkModuleImpl (file : File) : Load (Nat × Nat) := do
  checkModuleExecutable file
  let shoff ← readHeader file eShoff
  let shnum ← readHeader file eShnum
  let some currentSection ← (entries shoff shdrSize shnum).findM? (isDriverHeaderSection file)
    | throw .notADriver
  let header ← readField file currentSection Shdr.shOffset
  if header = 0 then throw .notADriver
  if (← readField file header DriverHeader.magicNumber) ≠ driverHeaderMagic then throw .notADriver
  return (header, ← readField file currentSection Shdr.shAddr)

/-! ## The segments -/

/-- Pages `VirtualAlloc` has found, at an address of its choice. -/
structure Region (size : Nat) where
  base : Nat
  base_pos : 0 < base
  aligned : base % 4096 = 0
  fits : base + size ≤ 2 ^ 64

/-- Write bytes to memory, from an address on. -/
def writeBytes (m : Memory) (address : Nat) (bs : List (BitVec 8)) : Memory := fun x =>
  bs.getD ((x + 2 ^ 64 - address) % 2 ^ 64) (m x)

/-- A copy from the file to memory. -/
structure SegmentCopy where
  source : Nat
  target : Nat
  size : Nat
  deriving DecidableEq

/-- `file`, with other bytes from an offset on. -/
def overwrite (file : File) (offset : Nat) (bs : List (BitVec 8)) : File :=
  file.take offset ++ bs ++ file.drop (offset + bs.length)

/-- `programHeader = programHeaderStart[i]`. -/
def assignHeader (file : File) (phoff i : Nat) : Load File := do
  let header ← readBytes file (phoff + phdrSize * i) phdrSize
  within (Inside file phoff phdrSize) (overwrite file (phoff % 2 ^ 64) header)

/-- `for (size_t i = 0; i < e_phnum; programHeader = programHeaderStart[i++])`. The body sees the
header that stands in the first place. -/
def forHeaders {α : Type} (phoff phnum : Nat) (body : File → α → Load α) (file : File) (acc : α) :
    Load (File × α) :=
  (List.range phnum).foldlM (fun st i => do
    let acc ← body st.1 st.2
    return (← assignHeader st.1 phoff i, acc)) (file, acc)

/-- The body of the loop that counts the pages. -/
def countPages (phoff : Nat) (file : File) (nPagesTotal : Nat) : Load Nat := do
  if (← readField file phoff pType) ≠ ptLoad then return nPagesTotal
  return nPagesTotal + segmentPages (← readField file phoff pMemsz)

/-- What the loop that copies the segments has done. -/
structure Segments where
  memory : Memory
  dynamicHeader : Option Nat
  copies : List SegmentCopy

/-- The body of the loop that copies the segments. -/
def copySegment (phoff baseAddress : Nat) (file : File) (st : Segments) : Load Segments := do
  let type ← readField file phoff pType
  if type = ptDynamic then
    return { st with dynamicHeader := some (← readField file phoff pOffset) }
  if type ≠ ptLoad then return st
  let filesz ← readField file phoff pFilesz
  let target := (baseAddress + (← readField file phoff pVaddr)) % 2 ^ 64
  if filesz = 0 then
    return { st with memory := writeBytes st.memory target (List.replicate (target % 4096) 0) }
  let source ← readField file phoff pOffset
  let bs ← readBytes file source filesz
  return { st with
    memory := writeBytes st.memory target bs
    copies := st.copies ++ [⟨source, target, filesz⟩] }

/-- A function or an object of the kernel. -/
structure KernelSymbol where
  name : CString
  binding : Nat
  value : BitVec 64
  size : BitVec 64
  deriving DecidableEq

/-- What the loader finds in the kernel: free pages, the kernel's symbols, and the memory. -/
structure Environment where
  virtualAlloc : (size : Nat) → Option (Region size)
  kernelSymbols : List KernelSymbol
  memory : Memory

/-- The address a call of `VirtualAlloc` returns. -/
def Environment.baseAddress (env : Environment) (size : Nat) : Nat :=
  ((env.virtualAlloc size).map Region.base).getD 0

/-- The memory after a call of `VirtualAlloc`: new pages read as zero. -/
def Environment.memoryWith (env : Environment) (size : Nat) : Memory :=
  match env.virtualAlloc size with
  | none => env.memory
  | some region => env.memory.fill region.base size 0

/-- The first half of `LoadModuleAndRelocate`: the file it leaves, the size of the region, and
the segments. -/
def loadSegments (env : Environment) (file : File) : Load (File × Nat × Segments) := do
  let phoff ← readHeader file ePhoff
  let phnum ← readHeader file ePhnum
  let (file, nPagesTotal) ← forHeaders phoff phnum (countPages phoff) file 0
  let size := nPagesTotal * 4096
  let (file, segments) ← forHeaders phoff phnum (copySegment phoff (env.baseAddress size)) file
    ⟨env.memoryWith size, none, []⟩
  return (file, size, segments)

/-! ## The dynamic table -/

/-- `relocation`. -/
structure Relocation where
  symbolTableOffset : Nat
  virtualAddress : BitVec 64
  relocationType : Nat
  addend : BitVec 64
  deriving DecidableEq

namespace Dyn

/-- `d_tag`. -/
def dTag : Field := ⟨0, 8⟩
/-- `d_un`. -/
def dUn : Field := ⟨8, 8⟩

end Dyn

namespace Rela

/-- `r_offset`. -/
def rOffset : Field := ⟨0, 8⟩
/-- `r_info`. -/
def rInfo : Field := ⟨8, 8⟩
/-- `r_addend`. -/
def rAddend : Field := ⟨16, 8⟩

end Rela

/-- `sizeof(Elf64_Dyn)`. -/
def dynSize : Nat := 16
/-- `sizeof(Elf64_Rela)`. -/
def relaSize : Nat := 24

/-- `DT_PLTRELSZ`. -/
def dtPltrelsz : Nat := 2
/-- `DT_PLTGOT`. -/
def dtPltgot : Nat := 3
/-- `DT_STRTAB`. -/
def dtStrtab : Nat := 5
/-- `DT_SYMTAB`. -/
def dtSymtab : Nat := 6
/-- `DT_RELA`. -/
def dtRela : Nat := 7
/-- `DT_RELASZ`. -/
def dtRelasz : Nat := 8
/-- `DT_REL`. -/
def dtRel : Nat := 17
/-- `DT_RELSZ`. -/
def dtRelsz : Nat := 18
/-- `DT_PLTREL`. -/
def dtPltrel : Nat := 20
/-- `DT_JMPREL`. -/
def dtJmprel : Nat := 23

/-- A relocation record of the file. -/
def readRelocation (file : File) (rela : Nat) : Load Relocation := do
  let info ← readField file rela Rela.rInfo
  let offset ← readField file rela Rela.rOffset
  let addend ← readField file rela Rela.rAddend
  return ⟨info / 2 ^ 32, BitVec.ofNat 64 offset, info % 2 ^ 16, BitVec.ofNat 64 addend⟩

/-- `handleDtRel` and `handleDtRela`, which do the same: the records of the table an entry of the
dynamic table points at. -/
def handleDtRel (file : File) (entry sz : Nat) : Load (List Relocation) := do
  let relTable ← readField file entry Dyn.dUn
  (entries relTable relaSize (sz / relaSize)).mapM (readRelocation file)

/-- The records of the table that is to be handled, if there is one. -/
def handleTable (file : File) : Option (Nat × Nat) → Load (List Relocation)
  | none => pure []
  | some (entry, sz) => handleDtRel file entry sz

/-- A relocation table and its size, of which either may come first. -/
structure SizedTable where
  lastSize : Nat
  foundSize : Bool
  /-- The entry of a table whose size is not known yet. -/
  awaitingSize : Option Nat

/-- A table is found: it is handled if its size is known. -/
def SizedTable.table (t : SizedTable) (entry : Nat) : SizedTable × Option (Nat × Nat) :=
  if t.foundSize then ({ t with foundSize := false, lastSize := 0 }, some (entry, t.lastSize))
  else ({ t with awaitingSize := some entry }, none)

/-- A size is found: the table that waits for it is handled. -/
def SizedTable.size (t : SizedTable) (size : Nat) : SizedTable × Option (Nat × Nat) :=
  match t.awaitingSize with
  | none => (⟨size, true, none⟩, none)
  | some entry => (⟨size, false, none⟩, some (entry, size))

/-- The variables of the loop over the dynamic table. -/
structure Dynamic where
  rela : SizedTable
  rel : SizedTable
  pltrel : Nat
  pltrelsz : Nat
  /-- The address of the symbols. -/
  symbolTable : BitVec 64
  stringTable : BitVec 64
  got : BitVec 64

/-- The variables in front of the loop. -/
def Dynamic.initial : Dynamic := ⟨⟨0, false, none⟩, ⟨0, false, none⟩, 0, 0, 0, 0, 0⟩

/-- The body of the loop over the dynamic table: the variables, and the table to be handled with
its size. -/
def Dynamic.next (d : Dynamic) (baseAddress : BitVec 64) (entry tag value : Nat) :
    Dynamic × Option (Nat × Nat) :=
  if tag = dtPltgot then ({ d with got := baseAddress + BitVec.ofNat 64 value }, none)
  else if tag = dtRel then ({ d with rel := (d.rel.table entry).1 }, (d.rel.table entry).2)
  else if tag = dtRela then ({ d with rela := (d.rela.table entry).1 }, (d.rela.table entry).2)
  else if tag = dtJmprel then
    (d, if d.pltrel = dtRel ∨ d.pltrel = dtRela then some (entry, d.pltrelsz) else none)
  else if tag = dtRelsz then ({ d with rel := (d.rel.size value).1 }, (d.rel.size value).2)
  else if tag = dtRelasz then ({ d with rela := (d.rela.size value).1 }, (d.rela.size value).2)
  else if tag = dtPltrel then ({ d with pltrel := value }, none)
  else if tag = dtPltrelsz then ({ d with pltrelsz := value }, none)
  else if tag = dtStrtab then ({ d with stringTable := BitVec.ofNat 64 value }, none)
  else if tag = dtSymtab then
    ({ d with symbolTable := baseAddress + BitVec.ofNat 64 value }, none)
  else (d, none)

/-- The loop over the dynamic table. The member `d_un` of an entry lies in front of the next tag,
which is read in any case. -/
def readDynamic (file : File) (baseAddress : BitVec 64) :
    Nat → Nat → Dynamic → List Relocation → Load (Dynamic × List Relocation)
  -- there are not that many entries in a file
  | 0, _, d, relocations => within False (d, relocations)
  | fuel + 1, entry, d, relocations => do
      let tag ← readField file entry Dyn.dTag
      if tag = 0 then return (d, relocations)
      let value ← readField file entry Dyn.dUn
      let (d, table) := d.next baseAddress entry tag value
      let found ← handleTable file table
      readDynamic file baseAddress fuel ((entry + dynSize) % 2 ^ 64) d (relocations ++ found)

/-! ## Relocations -/

/-- The bytes of a number, the lowest one first. -/
def toBytes : Nat → BitVec 64 → List (BitVec 8)
  | 0, _ => []
  | n + 1, v => v.setWidth 8 :: toBytes n (v >>> 8)

/-- A number in memory. -/
def memoryNumber (m : Memory) (address width : Nat) : Nat :=
  ofBytes ((List.range width).map fun i => m ((address + i) % 2 ^ 64))

/-- `utils::strcmp` of a string with one in memory. -/
def isStringAt (m : Memory) (s : CString) (address : Nat) : Bool :=
  (List.range (strlen s)).all (fun i => !endsString (m ((address + i) % 2 ^ 64))) &&
    endsString (m ((address + strlen s) % 2 ^ 64)) &&
    s.zipIdx.all fun b => m ((address + b.2) % 2 ^ 64) = b.1

/-- `GetSymbolFromTable`, on the symbols of the kernel. -/
def getSymbolFromTable (symbols : List KernelSymbol) (m : Memory) (name : Nat) :
    Option KernelSymbol :=
  symbols.find? fun s => s.binding = 1 && isStringAt m s.name name

/-- What a relocation does: nothing, a number is written, or an object of the kernel is copied
at the end. -/
inductive RelocationEffect where
  | nothing
  | write (size : Nat) (result : BitVec 64)
  | copy (source size : BitVec 64)

/-- The effect of a relocation that uses its symbol. A symbol that is not named is a null
pointer. -/
def withSymbol (symbol : Option KernelSymbol) (effect : KernelSymbol → RelocationEffect) :
    Load RelocationEffect :=
  match symbol with
  | none => throw .fault
  | some s => pure (effect s)

/-- The effect of a relocation at the given place. -/
def relocationEffect (symbol : Option KernelSymbol) (baseAddress got place : BitVec 64)
    (r : Relocation) : Load RelocationEffect :=
  match r.relocationType with
  -- `R_AMD64_NONE`
  | 0 => pure .nothing
  -- `R_AMD64_64`
  | 1 => withSymbol symbol fun s => .write 8 (s.value + r.addend)
  -- `R_AMD64_PC32`
  | 2 => withSymbol symbol fun s => .write 4 (s.value + r.addend - place)
  -- `R_AMD64_GOT32`, `R_AMD64_PLT32`
  | 3 => throw .unimplementedFeature
  | 4 => throw .unimplementedFeature
  -- `R_AMD64_COPY`
  | 5 => withSymbol symbol fun s => .copy s.value s.size
  -- `R_AMD64_GLOB_DAT`, `R_AMD64_JUMP_SLOT`
  | 6 => withSymbol symbol fun s => .write 8 s.value
  | 7 => withSymbol symbol fun s => .write 8 s.value
  -- `R_AMD64_RELATIVE`
  | 8 => pure (.write 8 (baseAddress + r.addend))
  -- `R_AMD64_GOTPCREL`
  | 9 => throw .unimplementedFeature
  -- `R_AMD64_32`, `R_AMD64_32S`
  | 10 => withSymbol symbol fun s => .write 4 (s.value + r.addend)
  | 11 => withSymbol symbol fun s => .write 4 (s.value + r.addend)
  -- `R_AMD64_16`, `R_AMD64_PC16`
  | 12 => withSymbol symbol fun s => .write 2 (s.value + r.addend)
  | 13 => withSymbol symbol fun s => .write 2 (s.value + r.addend - place)
  -- `R_AMD64_8`, `R_AMD64_PC8`
  | 14 => withSymbol symbol fun s => .write 1 (s.value + r.addend)
  | 15 => withSymbol symbol fun s => .write 1 (s.value + r.addend - place)
  -- `R_AMD64_PC64`
  | 24 => withSymbol symbol fun s => .write 8 (s.value + r.addend - place)
  -- `R_AMD64_GOTOFF64`, `R_AMD64_GOTPC32`
  | 25 => withSymbol symbol fun s => .write 8 (s.value + r.addend - got)
  | 26 => pure (.write 8 (got + r.addend + place))
  -- `R_AMD64_SIZE32`, `R_AMD64_SIZE64`
  | 32 => withSymbol symbol fun s => .write 4 (s.size + r.addend)
  | 33 => withSymbol symbol fun s => .write 8 (s.size + r.addend)
  | _ => pure .nothing

/-- The result of a relocation is written. A word of 32 bits is cut to 16 bits before. -/
def writeResult (m : Memory) (place : BitVec 64) (size : Nat) (result : BitVec 64) : Memory :=
  writeBytes m place.toNat
    (toBytes size (if size = 4 then (result.setWidth 16).setWidth 64 else result))

/-- `copy_reloc`: where an object of the kernel is copied to, where it is, and its size. -/
structure CopyRelocation where
  src : BitVec 64
  dest : BitVec 64
  size : BitVec 64

/-- The symbol a relocation names: it is looked up by its name in the kernel. -/
def resolveSymbol (symbols : List KernelSymbol) (baseAddress : BitVec 64) (d : Dynamic) (m : Memory)
    (r : Relocation) : Load (Option KernelSymbol) :=
  let unresolved := d.symbolTable.toNat + 24 * r.symbolTableOffset
  let name := baseAddress.toNat + d.stringTable.toNat + memoryNumber m unresolved 4
  if r.symbolTableOffset = 0 then pure none
  else
    match getSymbolFromTable symbols m name with
    | none => throw .driverReferencedUnresolvedSymbol
    | some s =>
      if memoryNumber m (unresolved + 16) 8 ≠ s.size.toNat ∧ r.relocationType = 5 then
        throw .driverSymbolMismatch
      else pure (some s)

/-- The memory and the copies to be made after an effect at the given place. -/
def RelocationEffect.apply (place : BitVec 64) (st : Memory × List CopyRelocation) :
    RelocationEffect → Memory × List CopyRelocation
  | .nothing => st
  | .write size result => (writeResult st.1 place size result, st.2)
  | .copy source size => (st.1, st.2 ++ [⟨place, source, size⟩])

/-- The body of the loop over the relocations. -/
def relocate (symbols : List KernelSymbol) (baseAddress : BitVec 64) (d : Dynamic)
    (st : Memory × List CopyRelocation) (r : Relocation) : Load (Memory × List CopyRelocation) := do
  let symbol ← resolveSymbol symbols baseAddress d st.1 r
  let place := baseAddress + r.virtualAddress
  let effect ← relocationEffect symbol baseAddress d.got place r
  return effect.apply place st

/-- The body of the loop that protects the segments: the calls of `VirtualProtect`. -/
def protectSegment (phoff baseAddress : Nat) (file : File)
    (calls : List (Nat × Nat × BitVec 64)) : Load (List (Nat × Nat × BitVec 64)) := do
  if (← readField file phoff pType) ≠ ptLoad then return calls
  let flags ← readField file phoff pFlags
  let vaddr ← readField file phoff pVaddr
  let memsz ← readField file phoff pMemsz
  return calls ++ [((baseAddress + vaddr) % 2 ^ 64, memsz,
    onlyIf (flags.testBit pfR && !flags.testBit pfW) protReadOnly |||
      onlyIf (flags.testBit pfX) protCanExecute)]

/-- A driver in memory. -/
structure LoadedModule where
  /-- The buffer with the file, as the loader leaves it. -/
  file : File
  baseAddress : Nat
  entry : Nat
  memory : Memory
  protections : List (Nat × Nat × BitVec 64)

/-- The second half of `LoadModuleAndRelocate`. -/
def relocateModule (env : Environment) (file : File) (phoff phnum baseAddress entry : Nat)
    (segments : Segments) : Load LoadedModule := do
  let base := BitVec.ofNat 64 baseAddress
  let some dynamicHeader := segments.dynamicHeader | throw .fault
  let (d, relocations) ← readDynamic file base (file.length + 1) dynamicHeader .initial []
  let (m, copies) ← relocations.foldlM (relocate env.kernelSymbols base d) (segments.memory, [])
  let m := copies.foldl (fun m c => m.copy c.src.toNat c.dest.toNat c.size.toNat) m
  let (file, protections) ← forHeaders phoff phnum (protectSegment phoff baseAddress) file []
  return ⟨file, baseAddress, entry, m, protections⟩

/-- `LoadModuleAndRelocate`. -/
def loadModuleAndRelocate (env : Environment) (file : File) : Load LoadedModule := do
  let phoff ← readHeader file ePhoff
  let phnum ← readHeader file ePhnum
  let e_entry ← readHeader file eEntry
  let (file, size, segments) ← loadSegments env file
  let baseAddress := env.baseAddress size
  relocateModule env file phoff phnum baseAddress ((baseAddress + e_entry) % 2 ^ 64) segments

/-! ## The symbols of a driver -/

namespace Sym

/-- `st_name`. -/
def stName : Field := ⟨0, 4⟩
/-- `st_info`. -/
def stInfo : Field := ⟨4, 1⟩
/-- `st_value`. -/
def stValue : Field := ⟨8, 8⟩
/-- `st_size`. -/
def stSize : Field := ⟨16, 8⟩

end Sym

/-- `sizeof(Elf64_Sym)`. -/
def symSize : Nat := 24

/-- `tables`. -/
structure SymbolTables where
  symtabSection : Option Nat
  strtabSection : Option Nat

/-- A section is looked at: the tables, and whether the search ends. -/
def SymbolTables.next (t : SymbolTables) (shdr : Nat) (name : CString) : SymbolTables × Bool :=
  if strcmp (bytes ".symtab") name then ({ t with symtabSection := some shdr }, false)
  else if strcmp (bytes ".strtab") name then ({ t with strtabSection := some shdr }, false)
  else (t, t.strtabSection.isSome && t.symtabSection.isSome)

/-- The loop of `GetDriverSymbolStringTables`. -/
def findSymbolTables (file : File) : List Nat → SymbolTables → Load SymbolTables
  | [], t => pure t
  | shdr :: rest, t => do
      let (t, done) := t.next shdr (← sectionName file shdr)
      if done then return t else findSymbolTables file rest t

/-- `obosDriverSymbol`. -/
structure DriverSymbol where
  addr : Nat
  size : Nat
  name : CString

/-- A symbol of the driver, if it is a function. -/
def readSymbol (file : File) (baseAddress stringTable sym : Nat) : Load (Option DriverSymbol) := do
  if (← readField file sym Sym.stInfo) % 16 ≠ 2 then return none
  let value ← readField file sym Sym.stValue
  let size ← readField file sym Sym.stSize
  let name ← readString file (stringTable + (← readField file sym Sym.stName))
  return some ⟨(baseAddress + value) % 2 ^ 64, size, name⟩

/-- The part of `LoadModule` that collects the symbols of the driver. -/
def driverSymbols (file : File) (baseAddress : Nat) : Load (List DriverSymbol) := do
  let shoff ← readHeader file eShoff
  let shnum ← readHeader file eShnum
  match ← findSymbolTables file (entries shoff shdrSize shnum) ⟨none, none⟩ with
  | ⟨some symtab, some strtab⟩ => do
      let symbolTable ← readField file symtab Shdr.shOffset
      let stringTable ← readField file strtab Shdr.shOffset
      let size ← readField file symtab Shdr.shSize
      let symbols ← (entries symbolTable symSize (size / symSize)).mapM
        (readSymbol file baseAddress stringTable)
      return symbols.filterMap id
  | _ => return []

/-- The driver `LoadModule` starts and registers. -/
structure LoadedDriver where
  image : LoadedModule
  driverId : Nat
  serviceType : Nat
  symbols : List DriverSymbol

/-- `LoadModule`, up to the start of the driver. -/
def loadModule (env : Environment) (registered : List Nat) (file : File) : Load LoadedDriver := do
  let (header, headerVirtAddr) ← checkModuleImpl file
  if (← readField file header DriverHeader.getServiceType) = 0 then throw .invalidDriverHeader
  let image ← loadModuleAndRelocate env file
  let header := image.baseAddress + headerVirtAddr
  let driverId := memoryNumber image.memory (header + DriverHeader.driverId.offset) 4
  let serviceType := memoryNumber image.memory (header + DriverHeader.driverType.offset) 4
  if driverId ∈ registered then throw .alreadyExists
  return ⟨image, driverId, serviceType, ← driverSymbols image.file image.baseAddress⟩

end Obos.DriverInterface
