import Obos.Paging.Remap

/-!
# Page faults

Two kinds of pages are mapped before they have a frame: demand-paged ones (bit 9), which read
as physical page 0, and the uncommitted pages of a mapped file (bit 10). `exception14` gives
such a page a frame of its own when it is accessed. It fills the frame from physical page 0 or
from the file, which it reads through a temporary mapping, and then maps it.
-/

namespace Obos.Paging

open Lib Lib.TableTree Physical

/-! ## The program -/

/-- A file: its contents and its size, and whether it is read-only or a directory. -/
structure DirectoryEntry where
  data : Nat → BitVec 8
  filesize : Nat
  readOnly : Bool
  directory : Bool

/-- `virtuallyMappedRegionNode`: the record of one page of a mapped file. -/
structure RegionNode where
  addr : Nat
  dirent : DirectoryEntry
  off : Nat

/-- What a page fault works on: physical memory, and the records of the mapped files of the process,
in the order in which they were made. -/
structure Space where
  pmm : Pmm
  memoryMappedFiles : List RegionNode

/-- `memoryMappedFiles.at`: the oldest record for the page of an address. -/
def Space.recordAt (x : Space) (addr : Nat) : Option RegionNode :=
  x.memoryMappedFiles.find? fun node => pageOf node.addr == pageOf addr

/-- `ReadFile` of a filesystem driver: it copies a slice that is inside the file, and writes nothing
otherwise. -/
def readFile (c : Cpu) (cr3 : Nat) (file : DirectoryEntry) (nToSkip nToRead buff : Nat)
    (m : Memory) : Option Memory :=
  if nToSkip + nToRead ≤ file.filesize then
    (List.range nToRead).foldlM (fun m i =>
      match access c m cr3 kernelWrite ((buff + i) % 2 ^ 64) with
      | .ok p => some (Function.update m p (file.data (nToSkip + i)))
      | .error _ => none) m
  else some m

/-- The part of `mapFilePFHandler` that reads a page of a file and maps it in. -/
def loadFilePage (c : Cpu) (fuel : Nat) (s : Pmm) (proc : Process) (node : RegionNode) (addr : Nat)
    (flags : BitVec 64) : Option Pmm := do
  let (page, s) ← s.allocatePhysicalPage fuel 1
  let fileData := findUsableAddress c s.mem proc 1
  let s ← mapPhysicalAddress c fuel s proc.cr3 (BitVec.ofNat 64 page) fileData 3
  let mem ← readFile c proc.cr3 node.dirent (pageOf node.off) (min node.dirent.filesize 4096)
    fileData
    s.mem
  let s ← unmapAddress c { s with mem := mem } proc.cr3 fileData
  mapEntry c fuel s proc.cr3 (BitVec.ofNat 64 page ||| flags) (pageOf addr)

/-- `mapFilePFHandler`. It returns false, here `some none`, for an access it does not handle. -/
def mapFilePFHandler (c : Cpu) (fuel : Nat) (x : Space) (proc : Process) (addr : Nat)
    (kind : AccessKind) : Option (Option Space) :=
  match x.recordAt addr with
  | none => some none
  | some node =>
    let protFlags := getL1PageMapEntryAt c x.pmm.mem proc.cr3 addr >>> 52
    if kind.execute && !hasBit protFlags 2 then some none
    else if kind.write && hasBit protFlags 0 then some none
    -- bit 1 is `PROT_USER_MODE_ACCESS`: user programs are kept out where they are allowed
    else if kind.user && hasBit protFlags 1 then some none
    else if node.dirent.readOnly && kind.write then some none
    else (loadFilePage c fuel x.pmm proc node addr
      (decodeProtectionFlags c protFlags ||| bit 0)).map fun s => some { x with pmm := s }

/-- The branch of `exception14` for a demand-paged page. -/
def commitDemandPage (c : Cpu) (fuel : Nat) (s : Pmm) (cr3 faultAddress : Nat) (entry : BitVec 64) :
    Option Pmm := do
  let (newEntry, s) ← s.allocatePhysicalPage fuel 1
  let mem ← copyToFrame c cr3 newEntry faultAddress 4096 s.mem
  let s ← unmapAddress c { s with mem := mem } cr3 faultAddress
  mapEntry c fuel s cr3
    (BitVec.ofNat 64 newEntry ||| (decodeProtectionFlags c (entry >>> 52) ||| bit 0))
    faultAddress

/-- `exception14`, for a fault the process `proc` causes. A fault that is not handled, here
`some none`, is a signal for a user process and a panic for the kernel. -/
def exception14 (c : Cpu) (fuel : Nat) (x : Space) (proc : Process) (address : Nat)
    (kind : AccessKind) (fault : PageFault) : Option (Option Space) :=
  let faultAddress := pageOf address
  let entry := getL1PageMapEntryAt c x.pmm.mem proc.cr3 faultAddress
  match fault with
  | .notPresent =>
    if hasBit entry 10 then mapFilePFHandler c fuel x proc faultAddress kind else some none
  | .protection =>
    if hasBit entry 9 then
      (commitDemandPage c fuel x.pmm proc.cr3 faultAddress entry).map fun s =>
        some { x with pmm := s }
    -- the entry was changed since, and is read again
    else if hasBit entry 1 && kind.write || hasBit entry 63 && kind.execute then some (some x)
    else some none

theorem key_add {addr : Nat} (haligned : addr % 4096 = 0) {i : Nat} (hi : i < 4096) :
    key (addr + i) = key addr := by
  unfold key
  omega

end Obos.Paging
