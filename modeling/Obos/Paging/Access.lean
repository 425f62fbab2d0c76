import Obos.Paging.Alloc
import Obos.Paging.Free

/-!
# Accesses through a page map

The CPU finds the byte at a virtual address by walking the page map, and lets the access
through if every entry on the way permits it; otherwise it raises a page fault, whose error
code says whether the page was present. The kernel maps single pages by hand with
`MapPhysicalAddress`, `MapEntry` and `UnmapAddress`, and copies through its own mappings with
`memcpy`.
-/

namespace Obos.Paging

open Lib Physical

/-- How a byte is accessed. -/
structure AccessKind where
  write : Bool
  user : Bool
  execute : Bool
  deriving DecidableEq

/-- The kernel reads. -/
def kernelRead : AccessKind := ⟨false, false, false⟩

/-- The kernel writes. It runs with `CR0.WP`, so that it may not write everywhere. -/
def kernelWrite : AccessKind := ⟨true, false, false⟩

/-- An entry permits an access. -/
def AccessKind.permits (k : AccessKind) (entry : BitVec 64) : Bool :=
  (!k.write || hasBit entry 1) && (!k.user || hasBit entry 2) && (!k.execute || !hasBit entry 63)

/-- A CPU on which execution cannot be disabled takes the bit for it as reserved: it lets no access
through an entry that has it. -/
def Cpu.reserves (c : Cpu) (entry : BitVec 64) : Bool := !c.executeDisable && hasBit entry 63

/-- Why the CPU raises a page fault. -/
inductive PageFault where
  | notPresent
  | protection
  deriving DecidableEq

/-- The entries the CPU passes on its way to an address, and the physical address it ends at, if all
of them are present. The CPU takes the frame of a page from the bits below 52 of the last entry. -/
def entriesTo (c : Cpu) (m : Memory) (cr3 address : Nat) : Option (List (BitVec 64) × Nat) :=
  let l4 := getL4PageMapEntryAt c m cr3 address
  let l3 := getL3PageMapEntryAt c m cr3 address
  let l2 := getL2PageMapEntryAt c m cr3 address
  let l1 := getL1PageMapEntryAt c m cr3 address
  if !hasBit l4 0 || !hasBit l3 0 then none
  else if hasBit l3 7 then some ([l4, l3], frame l3 / 2 ^ 30 * 2 ^ 30 + address % 2 ^ 30)
  else if !hasBit l2 0 then none
  else if hasBit l2 7 then some ([l4, l3, l2], frame l2 / 2 ^ 21 * 2 ^ 21 + address % 2 ^ 21)
  else if hasBit l1 0 then some ([l4, l3, l2, l1], frame l1 + address % 4096)
  else none

/-- The physical address of an access. -/
def access (c : Cpu) (m : Memory) (cr3 : Nat) (k : AccessKind) (address : Nat) :
    Except PageFault Nat :=
  match entriesTo c m cr3 address with
  | none => .error .notPresent
  | some (entries, physical) =>
    if entries.all fun entry => k.permits entry && !c.reserves entry then .ok physical
    else .error .protection

/-- `utils::memcpy` from a virtual address to physical memory, which the kernel has mapped for
itself. It does not return where it faults. -/
def copyToFrame (c : Cpu) (cr3 frame src n : Nat) (m : Memory) : Option Memory :=
  (List.range n).foldlM (fun m i =>
    match access c m cr3 kernelRead ((src + i) % 2 ^ 64) with
    | .ok p => some (Function.update m (frame + i) (m p))
    | .error _ => none) m

/-- `utils::memcpy`. It does not return where it faults. -/
def copyBytes (c : Cpu) (cr3 dest src n : Nat) (m : Memory) : Option Memory :=
  (List.range n).foldlM (fun m i =>
    match access c m cr3 kernelRead ((src + i) % 2 ^ 64),
      access c m cr3 kernelWrite ((dest + i) % 2 ^ 64) with
    | .ok p, .ok q => some (Function.update m q (m p))
    | _, _ => none) m

/-- `MapPhysicalAddress`. -/
def mapPhysicalAddress (c : Cpu) (fuel : Nat) (s : Pmm) (cr3 : Nat) (phys : BitVec 64) (dest : Nat)
    (cpuFlags : BitVec 64) : Option Pmm := do
  let (pageTable, s) ← allocatePagingStructures c fuel s cr3 dest cpuFlags
  some { s with mem := s.mem.store64 (pageTable + 8 * addressToIndex dest 0) (phys ||| cpuFlags) }

/-- `MapEntry`. -/
def mapEntry (c : Cpu) (fuel : Nat) (s : Pmm) (cr3 : Nat) (entry : BitVec 64) (dest : Nat) :
    Option Pmm := do
  let (pageTable, s) ← allocatePagingStructures c fuel s cr3 dest (entry &&& 0x800000000000003F)
  some { s with mem := s.mem.store64 (pageTable + 8 * addressToIndex dest 0) entry }

/-- `UnmapAddress`. -/
def unmapAddress (c : Cpu) (s : Pmm) (cr3 addr : Nat) : Option Pmm :=
  let pageMapPhys := c.rawPtr (getL2PageMapEntryAt c s.mem cr3 addr)
  (freePagingStructures c (Unmapping.write ⟨s, []⟩ (pageMapPhys + 8 * addressToIndex addr 0) 0)
    pageMapPhys cr3 addr).map Unmapping.pmm

end Obos.Paging
