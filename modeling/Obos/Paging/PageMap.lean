import Obos.Lib.Bits
import Obos.Lib.Memory

/-!
# Reading page maps

A page map is a tree of four levels of page tables in physical memory, which the
kernel reaches through a direct mapping. The accessors `getL4PageMapEntryAt` to
`getL1PageMapEntryAt` read the entry of one level for a virtual address; an
entry whose physical address is 0 or exceeds the address width of the CPU has
nothing below it. On top of them stand the tests `PagesAllocated` and
`CanAllocatePages`, the translation between the kernel's protection flags and
page-table entries in both directions, and `VirtualGetProtection`.

Virtual addresses are numbers below `2 ^ 64`; the loops of the source over the
pages of a range end when the address, computed modulo `2 ^ 64`, reaches the end
of the range, and `pagesFrom` lists the addresses they visit.
-/

namespace Obos.Paging

open Lib

/-- What the kernel asks the CPU: the width of physical addresses, and whether pages can be made
non-executable. -/
structure Cpu where
  physAddrBits : Nat
  executeDisable : Bool

/-- `g_physAddrMask`. -/
def Cpu.physAddrMask (c : Cpu) : BitVec 64 := BitVec.ofNat 64 ((2 ^ c.physAddrBits - 1) * 2 ^ 12)

/-- The process on whose behalf a call is made: the physical address of its page map, and whether
it is a user process. -/
structure Process where
  cr3 : Nat
  isUsermode : Bool

/-! ## Entries -/

/-- `PageMap::addressToIndex`. -/
def addressToIndex (address level : Nat) : Nat := address / 2 ^ (9 * level + 12) % 512

/-- `PageMap::getL4PageMapEntryAt`. -/
def getL4PageMapEntryAt (c : Cpu) (m : Memory) (cr3 address : Nat) : BitVec 64 :=
  if 2 ^ c.physAddrBits < cr3 then 0 else m.load64 (cr3 + 8 * addressToIndex address 3)

/-- The entry with the given index in the table an entry of the level above points at. -/
def nextEntry (c : Cpu) (m : Memory) (above : BitVec 64) (index : Nat) : BitVec 64 :=
  let rawPtr := (above &&& c.physAddrMask).toNat
  if rawPtr = 0 ∨ 2 ^ c.physAddrBits < rawPtr then 0 else m.load64 (rawPtr + 8 * index)

/-- `PageMap::getL3PageMapEntryAt`. -/
def getL3PageMapEntryAt (c : Cpu) (m : Memory) (cr3 address : Nat) : BitVec 64 :=
  nextEntry c m (getL4PageMapEntryAt c m cr3 address) (addressToIndex address 2)

/-- `PageMap::getL2PageMapEntryAt`. -/
def getL2PageMapEntryAt (c : Cpu) (m : Memory) (cr3 address : Nat) : BitVec 64 :=
  nextEntry c m (getL3PageMapEntryAt c m cr3 address) (addressToIndex address 1)

/-- `PageMap::getL1PageMapEntryAt`. -/
def getL1PageMapEntryAt (c : Cpu) (m : Memory) (cr3 address : Nat) : BitVec 64 :=
  nextEntry c m (getL2PageMapEntryAt c m cr3 address) (addressToIndex address 0)

/-! ## Ranges of pages -/

/-- The address of the page an address is on. -/
def pageOf (address : Nat) : Nat := address / 4096 * 4096

/-- The addresses visited by `for (addr = base; addr != base + nPages * 4096; addr += 4096)`. -/
def pagesFrom (base nPages : Nat) : List Nat :=
  (List.range (nPages % 2 ^ 52)).map fun i => (base + 4096 * i) % 2 ^ 64

/-- The body of the loop of `PagesAllocated`. A page of a mapped file counts as allocated before
it is present. -/
def pageAllocated (c : Cpu) (m : Memory) (cr3 address : Nat) : Bool :=
  hasBit (getL4PageMapEntryAt c m cr3 address) 0 &&
  hasBit (getL3PageMapEntryAt c m cr3 address) 0 &&
  hasBit (getL2PageMapEntryAt c m cr3 address) 0 &&
  (hasBit (getL1PageMapEntryAt c m cr3 address) 0 ||
    hasBit (getL1PageMapEntryAt c m cr3 address) 10)

/-- `PagesAllocated`. -/
def pagesAllocated (c : Cpu) (m : Memory) (cr3 base nPages : Nat) : Bool :=
  (pagesFrom (pageOf base) nPages).all (pageAllocated c m cr3)

/-- `CanAllocatePages`. -/
def canAllocatePages (c : Cpu) (m : Memory) (cr3 base nPages : Nat) : Bool :=
  (pagesFrom (pageOf base) nPages).all fun addr => !pagesAllocated c m cr3 addr 1

/-- `_Impl_IsValidAddress`: whether an address is canonical. -/
def isValidAddress (address : Nat) : Bool :=
  address / 2 ^ 47 == 0 || address / 2 ^ 47 == 0x1ffff

/-! ## Protection flags -/

/-- `PROT_READ_ONLY`. -/
def protReadOnly : BitVec 64 := bit 0
/-- `PROT_USER_MODE_ACCESS`. -/
def protUserModeAccess : BitVec 64 := bit 1
/-- `PROT_CAN_EXECUTE`. -/
def protCanExecute : BitVec 64 := bit 2
/-- `PROT_NO_COW_ON_ALLOCATE`. -/
def protNoCowOnAllocate : BitVec 64 := bit 3
/-- `PROT_DISABLE_CACHE`. -/
def protDisableCache : BitVec 64 := bit 4
/-- `PROT_IS_PRESENT`. -/
def protIsPresent : BitVec 64 := bit 5
/-- `PROT_ALL_BITS_SET`. -/
def protAllBitsSet : BitVec 64 := lowBits 6

/-- `EncodeProtectionFlags`: the protection flags an entry stands for. A demand-paged entry
(bit 9) carries them in its bits 52 to 58. -/
def encodeProtectionFlags (c : Cpu) (entry : BitVec 64) : BitVec 64 :=
  let entry := entry &&& ~~~c.physAddrMask
  if !hasBit entry 0 then 0
  else if hasBit entry 9 then protIsPresent ||| ((entry >>> 52) &&& lowBits 7)
  else protIsPresent ||| onlyIf (!hasBit entry 1) protReadOnly |||
    onlyIf (hasBit entry 4) protDisableCache ||| onlyIf (hasBit entry 2) protUserModeAccess |||
    onlyIf (!hasBit entry 63) protCanExecute

/-- `DecodeProtectionFlags`: the hardware flags for protection flags. -/
def decodeProtectionFlags (c : Cpu) (flags : BitVec 64) : BitVec 64 :=
  let flags := flags &&& protAllBitsSet
  onlyIf (!hasBit flags 0) (bit 1) ||| onlyIf (!hasBit flags 2 && c.executeDisable) (bit 63) |||
    onlyIf (hasBit flags 4) (bit 4) ||| onlyIf (hasBit flags 1) (bit 2) |||
    onlyIf (hasBit flags 5) (bit 0)

/-- The errors the virtual memory functions set. -/
inductive Error where
  | invalidParameter
  | accessDenied
  | addressUnmapped
  | baseAddressUsed
  | noFreeRegion
  deriving DecidableEq

/-- The body of the loop of `_Impl_ProcVirtualGetProtection`. -/
def pageProtection (c : Cpu) (m : Memory) (cr3 address : Nat) : BitVec 64 :=
  if pagesAllocated c m cr3 address 1 then
    encodeProtectionFlags c (getL1PageMapEntryAt c m cr3 address)
  else 0

/-- `_Impl_ProcVirtualGetProtection`. -/
def procVirtualGetProtection (c : Cpu) (m : Memory) (proc : Process) (base nPages : Nat) :
    Except Error (List (BitVec 64)) :=
  if !isValidAddress base then .error .invalidParameter
  else if 0xffff800000000000 < base && proc.isUsermode then .error .accessDenied
  else .ok ((pagesFrom (pageOf base) nPages).map (pageProtection c m proc.cr3))

/-- The number of pages the functions of `VirtualAllocator` make of a size. -/
def sizeToPages (size : Nat) : Nat := size / 4096 + if size % 4096 = 0 then 0 else 1

/-- `VirtualAllocator::VirtualGetProtection`. -/
def virtualGetProtection (c : Cpu) (m : Memory) (proc : Process) (base size : Nat) :
    Except Error (List (BitVec 64)) :=
  if pageOf base = 0 then .error .invalidParameter
  else procVirtualGetProtection c m proc (pageOf base) (sizeToPages size)

/-! ## A small page map -/

/-- A CPU with physical addresses of 36 bits. -/
def smallCpu : Cpu := ⟨36, true⟩

/-- A page map at `0x1000` that maps the page `0x5000`, writable and for user programs, and nothing
else. -/
def onePageMapped : Memory :=
  (((Memory.store64 (fun _ => 0) 0x1000 0x2007).store64 0x2000 0x3007).store64 0x3000
    0x4007).store64 0x4028 0x9007

/-! ## What depends on the page only -/

section Page

variable {c : Cpu} {m : Memory} {cr3 address : Nat}

/-- The mask covers physical addresses of pages. -/
theorem hasBit_physAddrMask (c : Cpu) (i : Nat) :
    hasBit c.physAddrMask i = (decide (i < 64) && decide (12 ≤ i ∧ i < c.physAddrBits + 12)) := by
  unfold hasBit Cpu.physAddrMask
  rw [BitVec.getLsbD_ofNat, Nat.testBit_mul_two_pow]
  by_cases hi : 12 ≤ i
  · have hiff : i - 12 < c.physAddrBits ↔ i < c.physAddrBits + 12 := by omega
    simp [hi, hiff]
  · simp [hi]

variable (address : Nat) {a : Nat}

/-- All addresses on a page have the same indices. -/
theorem addressToIndex_pageOf (level : Nat) :
    addressToIndex (pageOf address) level = addressToIndex address level := by
  unfold addressToIndex pageOf
  rw [Nat.pow_add, Nat.mul_comm (2 ^ (9 * level)), ← Nat.div_div_eq_div_mul,
    ← Nat.div_div_eq_div_mul, Nat.mul_div_cancel _ (by decide)]

theorem getL4PageMapEntryAt_pageOf :
    getL4PageMapEntryAt c m cr3 (pageOf address) = getL4PageMapEntryAt c m cr3 address := by
  rw [getL4PageMapEntryAt, getL4PageMapEntryAt, addressToIndex_pageOf]

theorem getL3PageMapEntryAt_pageOf :
    getL3PageMapEntryAt c m cr3 (pageOf address) = getL3PageMapEntryAt c m cr3 address := by
  rw [getL3PageMapEntryAt, getL3PageMapEntryAt, addressToIndex_pageOf, getL4PageMapEntryAt_pageOf]

theorem getL2PageMapEntryAt_pageOf :
    getL2PageMapEntryAt c m cr3 (pageOf address) = getL2PageMapEntryAt c m cr3 address := by
  rw [getL2PageMapEntryAt, getL2PageMapEntryAt, addressToIndex_pageOf, getL3PageMapEntryAt_pageOf]

theorem getL1PageMapEntryAt_pageOf :
    getL1PageMapEntryAt c m cr3 (pageOf address) = getL1PageMapEntryAt c m cr3 address := by
  rw [getL1PageMapEntryAt, getL1PageMapEntryAt, addressToIndex_pageOf, getL2PageMapEntryAt_pageOf]

/-- An address is canonical exactly when its page is. -/
theorem isValidAddress_pageOf : isValidAddress (pageOf address) = isValidAddress address := by
  have hdiv : pageOf address / 2 ^ 47 = address / 2 ^ 47 := by
    unfold pageOf
    omega
  rw [isValidAddress, isValidAddress, hdiv]

/-- The page of a page is itself. -/
theorem pageOf_of_aligned (h : a % 4096 = 0) : pageOf a = a := by
  unfold pageOf
  omega

theorem pagesFrom_one (h : a < 2 ^ 64) : pagesFrom a 1 = [a] := by
  simpa [pagesFrom] using h

/-- `PagesAllocated` of one page. -/
theorem pagesAllocated_one (ha : a % 4096 = 0) (hlt : a < 2 ^ 64) :
    pagesAllocated c m cr3 a 1 = pageAllocated c m cr3 a := by
  rw [pagesAllocated, pageOf_of_aligned ha, pagesFrom_one hlt]
  simp

/-- A page has the present flag exactly when its entry is present. -/
theorem hasBit_encodeProtectionFlags_five (c : Cpu) (e : BitVec 64) :
    hasBit (encodeProtectionFlags c e) 5 = hasBit e 0 := by
  unfold encodeProtectionFlags
  by_cases h0 : hasBit e 0 = true
  · by_cases h9 : hasBit e 9 = true
    · simp [h0, h9, hasBit_physAddrMask, protIsPresent]
    · simp [h0, h9, hasBit_physAddrMask, protIsPresent]
  · simp [h0]

/-- A page with the user flag is user-accessible. -/
theorem user_of_encodeProtectionFlags {c : Cpu} {e : BitVec 64}
    (h : hasBit (encodeProtectionFlags c e) 1 = true) :
    (if hasBit e 9 then hasBit e 53 else hasBit e 2) = true := by
  unfold encodeProtectionFlags at h
  by_cases h0 : hasBit e 0 = true
  · by_cases h9 : hasBit e 9 = true
    · simp [h0, h9, hasBit_physAddrMask, protIsPresent] at h
      simp [h9, h.1]
    · simpa [h0, h9, hasBit_physAddrMask, protIsPresent, protReadOnly, protDisableCache,
        protUserModeAccess, protCanExecute] using h
  · simp [h0] at h

end Page

end Obos.Paging
