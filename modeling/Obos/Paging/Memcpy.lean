import Obos.Paging.Access
import Obos.Syscalls.VerifyPars

/-!
# Copying into another address space

`_Impl_Memcpy` writes to the pages of another process. It asks for the protection flags of every
page it is going to write, maps the frames of the pages for itself, one after the other, and
copies. Its test rejects a page only if the page is not present, read-only and closed to user
programs all at once; flags that are reported without the present bit are zero, so that no page is
ever rejected by it (`checkDestination_eq_error_iff`). `memcpy_checked_iff` says what is left: the
call is safe if the process may not use an address at all, if the source is not mapped, or if
the destination was accessible anyway.
-/

namespace Obos.Paging

open Lib Physical

/-! ## The program -/

/-- `MEMCPY_DESTINATION_PFAULT` and `MEMCPY_SOURCE_PFAULT`. -/
inductive MemcpyFault where
  | destination
  | source
  deriving DecidableEq

/-- `nPagesDest` and `nPagesSrc`. -/
def memcpyPages (address size : Nat) : Nat :=
  size / 4096 + (if address < pageOf ((address + size) % 2 ^ 64) then 1 else 0) +
    if size < 4096 then 1 else 0

/-- The body of the loop over the pages of the destination: the flags it leaves. -/
def checkPage (c : Cpu) (m : Memory) (proc : Process) (flags : BitVec 64) (dest : Nat) :
    Except MemcpyFault (BitVec 64) :=
  match procVirtualGetProtection c m proc dest 1 with
  | .error .accessDenied => .error .destination
  | r =>
    let flags :=
      match r with
      | .ok pageFlags => pageFlags.headD flags
      -- an address that is not canonical leaves the flags of the page before it
      | .error _ => flags
    if !hasBit flags 5 && hasBit flags 0 && (!hasBit flags 1 && proc.isUsermode) then
      .error .destination
    else .ok flags

/-- The loop over the pages of the destination. -/
def checkDestination (c : Cpu) (m : Memory) (proc : Process) (pages : List Nat) :
    Except MemcpyFault (BitVec 64) :=
  pages.foldlM (checkPage c m proc) 0

/-- The flags of the mappings `_Impl_Memcpy` makes for itself. -/
def memcpyFlags : BitVec 64 := bit 0 ||| bit 1 ||| bit 63

/-- Give a demand-paged page of the destination a frame of its own. -/
def commitPage (c : Cpu) (fuel : Nat) (current : Process) (cr3 dest : Nat) (entry : BitVec 64)
    (s : Pmm) : Option Pmm := do
  let (frame, s) ← s.allocatePhysicalPage fuel 1
  let entryAddr := findUsableAddress c s.mem current 1
  let s ← mapPhysicalAddress c fuel s current.cr3 (entry &&& c.physAddrMask) entryAddr memcpyFlags
  let mem ← copyToFrame c current.cr3 frame entryAddr 4096 s.mem
  let s ← unmapAddress c { s with mem := mem } current.cr3 entryAddr
  let pageTable := c.rawPtr (getL2PageMapEntryAt c s.mem cr3 dest)
  some { s with
    mem := s.mem.store64 (pageTable + 8 * addressToIndex dest 0)
      (BitVec.ofNat 64 frame ||| (decodeProtectionFlags c (entry >>> 52) ||| bit 0)) }

/-- The body of the loop that maps the pages of the destination at `realDest`. -/
def remapPage (c : Cpu) (fuel : Nat) (current : Process) (cr3 : Nat) (st : Pmm × Nat) (dest : Nat) :
    Option (Pmm × Nat) := do
  let (s, realDest) := st
  let slot := c.rawPtr (getL2PageMapEntryAt c s.mem cr3 dest) + 8 * addressToIndex dest 0
  let entry := s.mem.load64 slot
  let s ← if hasBit entry 9 then commitPage c fuel current cr3 dest entry s else some s
  let s ← mapPhysicalAddress c fuel s current.cr3 (s.mem.load64 slot &&& c.physAddrMask) realDest
    memcpyFlags
  some (s, (realDest + 4096) % 2 ^ 64)

/-- `_Impl_Memcpy`, called on behalf of the process `current`: the address returned, and the state
after the call. -/
def memcpy (c : Cpu) (fuel : Nat) (s : Pmm) (current proc : Process)
    (remoteDest localSrc size : Nat) : Option (Except MemcpyFault Nat × Pmm) :=
  let nPagesDest := memcpyPages remoteDest size
  let pages := pagesBelow (pageOf remoteDest) nPagesDest
  match checkDestination c s.mem proc pages with
  | .error e => some (.error e, s)
  | .ok _ =>
    if !pagesAllocated c s.mem proc.cr3 localSrc (memcpyPages localSrc size) then
      some (.error .source, s)
    else do
      let baseDest := findUsableAddress c s.mem current nPagesDest
      let (s, _) ← pages.foldlM (remapPage c fuel current proc.cr3) (s, baseDest)
      let baseDest := (baseDest + remoteDest % 4096) % 2 ^ 64
      let mem ← copyBytes c current.cr3 baseDest localSrc size s.mem
      let s ← (pagesBelow (pageOf baseDest) nPagesDest).foldlM (unmapAddress c · current.cr3 ·)
        { s with mem := mem }
      some (.ok remoteDest, s)

/-! ## The number of pages -/

/-- The pages counted for a range reach from the page of its first byte to its end. -/
def WindowCovers (address size : Nat) : Prop :=
  address % 4096 + size ≤ memcpyPages address size * 4096

/-- The ranges whose pages are counted right. One of at least a page is taken to touch at most one
page more than its size has, so that what its two ends cut off must fit on one page. One that ends
behind the address space is counted without that page. -/
def WindowFits (address size : Nat) : Prop :=
  if address + size < 2 ^ 64 then size < 4096 ∨ address % 4096 + size % 4096 ≤ 4096
  else if size < 4096 then address + size = 2 ^ 64
  else address % 4096 = 0 ∧ size % 4096 = 0

section Window

variable {address size : Nat}

theorem memcpyPages_of_le (h : 4096 ≤ size) (hend : address + size < 2 ^ 64) :
    memcpyPages address size = size / 4096 + 1 := by
  have hlt : address < pageOf ((address + size) % 2 ^ 64) := by
    rw [pageOf]
    omega
  rw [memcpyPages, if_pos hlt, if_neg (by omega)]

/-- The rounded end of a range that leaves the address space is not. -/
theorem memcpyPages_of_wrap (hsize : size < 2 ^ 64) (hend : 2 ^ 64 ≤ address + size) :
    memcpyPages address size = size / 4096 + if size < 4096 then 1 else 0 := by
  have hge : ¬ address < pageOf ((address + size) % 2 ^ 64) := by
    rw [pageOf]
    omega
  rw [memcpyPages, if_neg hge, Nat.add_zero]

/-- The window of `_Impl_Memcpy` covers the range it is made for exactly if the range fits. -/
theorem memcpyPages_covers_iff (haddress : address < 2 ^ 64) (hpos : 1 ≤ size)
    (hsize : size < 2 ^ 64) : WindowCovers address size ↔ WindowFits address size := by
  unfold WindowCovers WindowFits
  by_cases hend : address + size < 2 ^ 64
  · rw [if_pos hend]
    by_cases hsmall : size < 4096
    · -- two pages are counted if the range crosses into the second one
      have hcount : memcpyPages address size =
          (if address < pageOf (address + size) then 1 else 0) + 1 := by
        rw [memcpyPages, if_pos hsmall, Nat.mod_eq_of_lt hend, Nat.div_eq_of_lt hsmall,
          Nat.zero_add]
      rw [hcount]
      unfold pageOf
      split
      · omega
      · omega
    · rw [memcpyPages_of_le (by omega) hend]
      omega
  · rw [if_neg hend, memcpyPages_of_wrap hsize (by omega)]
    by_cases hsmall : size < 4096
    · rw [if_pos hsmall, if_pos hsmall]
      omega
    · rw [if_neg hsmall, if_neg hsmall]
      omega

end Window

/-- A copy of a page and 8 bytes to the start of a page. -/
theorem memcpyPages_covers_iff_aligned :
    (0x5000 < 2 ^ 64 ∧ 1 ≤ 0x1008 ∧ 0x1008 < 2 ^ 64) ∧
      (WindowCovers 0x5000 0x1008 ↔ WindowFits 0x5000 0x1008) :=
  ⟨by decide, memcpyPages_covers_iff (by decide) (by decide) (by decide)⟩

/-- A copy of a page and 16 bytes to 8 bytes before the end of a page reaches into a third page, but
two are counted. -/
theorem memcpyPages_not_covers : ¬ WindowCovers 0x5ff8 0x1010 := by
  unfold WindowCovers
  decide

/-! ## What the callers rely on -/

/-- The byte at an address of an address space. -/
def byteAt (c : Cpu) (m : Memory) (cr3 address : Nat) : Except PageFault (BitVec 8) :=
  (access c m cr3 kernelRead address).map m

/-- The call fails and leaves the destination as it is, or every byte it writes was on a page that
is present, writable and, for a user process, open to user programs. -/
def MemcpyChecked (c : Cpu) (fuel : Nat) (s : Pmm) (current proc : Process)
    (remoteDest localSrc size : Nat) : Prop :=
  (∃ e s', memcpy c fuel s current proc remoteDest localSrc size = some (.error e, s') ∧
    ∀ a, byteAt c s'.mem proc.cr3 a = byteAt c s.mem proc.cr3 a) ∨
  ∀ b, remoteDest ≤ b → b < remoteDest + size → Syscalls.Accessible c s.mem proc true b

/-! ## The test of the destination -/

/-- The process may not use the address at all. -/
def denied (proc : Process) (page : Nat) : Bool :=
  isValidAddress page && decide (0xffff800000000000 < page) && proc.isUsermode

section Check

variable {c : Cpu} {m : Memory} {proc : Process}

/-- Flags with the bit of a read-only page have the bit of a present one. -/
def PresentIfReadOnly (flags : BitVec 64) : Prop := hasBit flags 0 = true → hasBit flags 5 = true

/-- The flags reported for a page are zero or those of a present page. -/
theorem presentIfReadOnly_pageProtection (cr3 address : Nat) :
    PresentIfReadOnly (pageProtection c m cr3 address) := by
  unfold pageProtection PresentIfReadOnly
  split
  · rw [hasBit_encodeProtectionFlags_five]
    intro h
    by_contra hclear
    rw [Bool.not_eq_true] at hclear
    simp [encodeProtectionFlags, hclear] at h
  · exact fun h => absurd h (by simp)

/-- A page is rejected only if the process may not use its address. -/
theorem checkPage_cases {flags : BitVec 64} (hflags : PresentIfReadOnly flags) (dest : Nat) :
    (denied proc dest = true ∧ checkPage c m proc flags dest = .error .destination) ∨
      (denied proc dest = false ∧
        ∃ flags', checkPage c m proc flags dest = .ok flags' ∧ PresentIfReadOnly flags') := by
  -- the test at the end of the body lets all flags of this kind through
  have hpass {flags' : BitVec 64} (h : PresentIfReadOnly flags') :
      (!hasBit flags' 5 && hasBit flags' 0 && (!hasBit flags' 1 && proc.isUsermode)) = false := by
    cases h0 : hasBit flags' 0 with
    | false => simp
    | true => simp [h h0]
  have hpages : pagesFrom (pageOf dest) 1 = [pageOf dest % 2 ^ 64] := by simp [pagesFrom]
  have hprot := presentIfReadOnly_pageProtection (c := c) (m := m) proc.cr3
    (pageOf dest % 2 ^ 64)
  unfold checkPage procVirtualGetProtection denied
  cases hvalid : isValidAddress dest with
  | false => exact .inr ⟨rfl, flags, by simp [hpass hflags], hflags⟩
  | true =>
    cases hdenied : decide (0xffff800000000000 < dest) && proc.isUsermode with
    | true => exact .inl ⟨by simpa using hdenied, by simp⟩
    | false =>
      refine .inr ⟨by simpa using hdenied, _, ?_, hprot⟩
      simp only [Bool.not_true, Bool.false_eq_true, if_false, hpages, List.map_cons,
        List.map_nil, List.headD_cons, hpass hprot]

/-- The loop fails only on an address the process may not use. -/
theorem checkDestination_eq_error_iff (pages : List Nat) :
    (∃ e, checkDestination c m proc pages = .error e) ↔ ∃ page ∈ pages, denied proc page =
      true := by
  have hloop {flags : BitVec 64} (hflags : PresentIfReadOnly flags) :
      (∃ e, pages.foldlM (checkPage c m proc) flags = .error e) ↔
        ∃ page ∈ pages, denied proc page = true := by
    induction pages generalizing flags with
    | nil => simp [pure, Except.pure]
    | cons page pages ih =>
      rw [List.foldlM_cons, List.exists_mem_cons_iff]
      rcases checkPage_cases hflags page with
        ⟨hdenied, hpage⟩ | ⟨hdenied, flags', hpage, hflags'⟩
      · rw [hpage]
        exact iff_of_true ⟨_, rfl⟩ (.inl hdenied)
      · rw [hpage, hdenied]
        simpa [bind, Except.bind] using ih hflags'
  exact hloop fun h => absurd h (by simp)

end Check

/-! ## When the call is safe -/

section Call

variable {c : Cpu} {fuel : Nat} {s : Pmm} {current proc : Process} {remoteDest localSrc size : Nat}

/-- The call fails exactly on an address the process may not use and on a source that is not
mapped, and a call that fails has done nothing. -/
theorem memcpy_eq_error_iff {s' : Pmm} :
    (∃ e, memcpy c fuel s current proc remoteDest localSrc size = some (.error e, s')) ↔
      s' = s ∧ ((∃ page ∈ pagesBelow (pageOf remoteDest) (memcpyPages remoteDest size),
        denied proc page = true) ∨
        pagesAllocated c s.mem proc.cr3 localSrc (memcpyPages localSrc size) = false) := by
  rw [← checkDestination_eq_error_iff (c := c) (m := s.mem)]
  cases hcheck : checkDestination c s.mem proc
      (pagesBelow (pageOf remoteDest) (memcpyPages remoteDest size)) with
  | error e =>
    simp only [memcpy, hcheck]
    constructor
    · rintro ⟨e', he⟩
      cases he
      exact ⟨rfl, .inl ⟨e, rfl⟩⟩
    · rintro ⟨rfl, -⟩
      exact ⟨e, rfl⟩
  | ok flags =>
    cases hsource : pagesAllocated c s.mem proc.cr3 localSrc (memcpyPages localSrc size) with
    | false =>
      simp only [memcpy, hcheck, hsource, Bool.not_false, if_true]
      constructor
      · rintro ⟨e', he⟩
        cases he
        exact ⟨rfl, .inr trivial⟩
      · rintro ⟨rfl, -⟩
        exact ⟨.source, rfl⟩
    | true =>
      simp only [memcpy, hcheck, hsource, bind, Bool.not_true, Bool.false_eq_true, if_false,
        Option.bind_eq_some_iff, Option.some.injEq, Prod.mk.injEq]
      constructor
      · rintro ⟨_, _, -, _, -, _, -, hok, -⟩
        cases hok
      · rintro ⟨-, ⟨_, h⟩ | h⟩ <;> cases h

/-- The call is safe exactly if the process may not use an address of the destination at all, the
source is not mapped, or the destination was accessible. -/
theorem memcpy_checked_iff :
    MemcpyChecked c fuel s current proc remoteDest localSrc size ↔
      (∃ page ∈ pagesBelow (pageOf remoteDest) (memcpyPages remoteDest size),
        denied proc page = true) ∨
      pagesAllocated c s.mem proc.cr3 localSrc (memcpyPages localSrc size) = false ∨
      ∀ b, remoteDest ≤ b → b < remoteDest + size → Syscalls.Accessible c s.mem proc true b := by
  rw [← or_assoc]
  refine or_congr_left ⟨?_, fun h => ?_⟩
  · rintro ⟨e, s', hret, -⟩
    exact (memcpy_eq_error_iff.1 ⟨e, hret⟩).2
  · obtain ⟨e, hret⟩ := memcpy_eq_error_iff.2 ⟨rfl, h⟩
    exact ⟨e, s, hret, fun _ => rfl⟩

end Call

/-- A page map at `0x1000` with the pages `0xffffffff00004000`, which is read-only, and
`0xffffffff00005000`, which is not and starts with the byte 7. -/
def readOnlyMapped : Memory :=
  Function.update (((((Memory.store64 (fun _ => 0) 0x1ff8 0x2003).store64 0x2fe0 0x3003).store64
    0x3000 0x4003).store64 0x4020 0x9001).store64 0x4028 0xa003) 0xa000 7

/-- A kernel process writes to a page it has mapped read-only: the call succeeds and changes the
page. -/
theorem memcpy_writes_readOnly :
    (memcpy smallCpu 1 ⟨readOnlyMapped, 0, 0, 1, false, true⟩ ⟨0x1000, false⟩
      ⟨0x1000, false⟩ 0xffffffff00004010 0xffffffff00005000 1).map
      (fun r => (r.1.toOption, r.2.mem 0x9010)) = some (some 0xffffffff00004010, 7) ∧
    readOnlyMapped 0x9010 = 0 ∧
    ¬ MemcpyChecked smallCpu 1 ⟨readOnlyMapped, 0, 0, 1, false, true⟩ ⟨0x1000, false⟩
      ⟨0x1000, false⟩ 0xffffffff00004010 0xffffffff00005000 1 := by
  refine ⟨by decide +kernel, by decide +kernel, ?_⟩
  rintro (⟨e, s', hret, -⟩ | h)
  · obtain ⟨-, hdenied | hsource⟩ := memcpy_eq_error_iff.1 ⟨e, hret⟩
    · revert hdenied
      decide +kernel
    · revert hsource
      decide +kernel
  · obtain ⟨-, -, l, hleaf, -, hwritable⟩ := h 0xffffffff00004010 le_rfl (by decide)
    have hentry : Syscalls.leafAt smallCpu readOnlyMapped 0x1000 0xffffffff00004010 =
        some ⟨0x9001, false⟩ := by decide +kernel
    cases hleaf.symm.trans hentry
    exact absurd (hwritable rfl) (by decide)

end Obos.Paging
