import Obos.Paging.PageMap

/-!
# Checking user pointers

`canAccessUserMemory` is the check every system call makes before it touches a
buffer of its caller. `Sound` is what the callers rely on: if the check passes,
every byte of the buffer lies on a page that may be accessed. The function
rounds the size but not the end of the buffer up to a page, looks at the
read-only flag of the first page only, and computes the number of pages and
their addresses modulo `2 ^ 64`; `sound_iff` says for which inputs this matters.
-/

namespace Obos.Syscalls

open Lib Paging Bool Option

variable {c : Cpu} {m : Memory} {proc : Process}

/-- The number of pages the check looks at: the size rounded up to whole pages, in 64 bits. -/
def pagesToCheck (size : Nat) : Nat := (size + 0xfff) % 2 ^ 64 / 4096

/-- `canAccessUserMemory`. `kmalloc` says whether the heap has a buffer of a size: writing the
flags of the first page through a null pointer is a fault. -/
def canAccessUserMemory (c : Cpu) (m : Memory) (proc : Process) (kmalloc : Nat → Bool)
    (addr size : Nat) (hasToWrite : Bool) : Option Bool :=
  if addr = 0 then some false
  else if proc.isUsermode && decide (0xffff800000000000 < addr) then some false
  else
    let nPagesToCheck := pagesToCheck size
    let requiredFlags := protIsPresent ||| onlyIf proc.isUsermode protUserModeAccess
    match virtualGetProtection c m proc (pageOf addr) (nPagesToCheck * 4096) with
    | .error _ => some false
    | .ok pageFlags =>
      if nPagesToCheck ≠ 0 ∧ kmalloc (nPagesToCheck * 8) = false then none
      else some (pageFlags.all fun flags =>
        -- the read-only test looks at the first page in every round
        !((flags &&& requiredFlags != requiredFlags) ||
          (hasBit (pageFlags.headD 0) 0 && hasToWrite)))

/-! ## What the callers rely on -/

/-- The entry that maps a page, and whether it maps a huge page. -/
structure Leaf where
  entry : BitVec 64
  huge : Bool
  deriving DecidableEq

/-- The entry that maps an address, if the page is present. The tables are read as the kernel reads
them. -/
def leafAt (c : Cpu) (m : Memory) (cr3 address : Nat) : Option Leaf :=
  let l3 := getL3PageMapEntryAt c m cr3 address
  let l2 := getL2PageMapEntryAt c m cr3 address
  let l1 := getL1PageMapEntryAt c m cr3 address
  if !hasBit (getL4PageMapEntryAt c m cr3 address) 0 || !hasBit l3 0 then none
  else if hasBit l3 7 then some ⟨l3, true⟩
  else if !hasBit l2 0 then none
  else if hasBit l2 7 then some ⟨l2, true⟩
  else if hasBit l1 0 then some ⟨l1, false⟩
  else none

/-- The page is demand-paged: bit 9 is set, and the protection flags are kept from bit 52 on. -/
def Leaf.demandPaged (l : Leaf) : Bool := !l.huge && hasBit l.entry 9

/-- User programs may access the page. -/
def Leaf.userAccessible (l : Leaf) : Bool :=
  if l.demandPaged then hasBit l.entry 53 else hasBit l.entry 2

/-- The page may not be written. -/
def Leaf.readOnly (l : Leaf) : Bool :=
  if l.demandPaged then hasBit l.entry 52 else !hasBit l.entry 1

/-- A byte that the process may access: it is at a canonical address, on a page that is present,
user-accessible for a user process, and not read-only for a write. -/
def Accessible (c : Cpu) (m : Memory) (proc : Process) (hasToWrite : Bool) (address : Nat) : Prop :=
  address < 2 ^ 64 ∧ isValidAddress address = true ∧
  ∃ l, leafAt c m proc.cr3 address = some l ∧
    (proc.isUsermode = true → l.userAccessible = true) ∧ (hasToWrite = true → l.readOnly = false)

/-- If the check passes, every byte of the buffer may be accessed. -/
def Sound (c : Cpu) (m : Memory) (proc : Process) (kmalloc : Nat → Bool) (addr size : Nat)
    (hasToWrite : Bool) : Prop :=
  canAccessUserMemory c m proc kmalloc addr size hasToWrite = some true →
    ∀ b, addr ≤ b → b < addr + size → Accessible c m proc hasToWrite b

/-! ## The pages the check looks at -/

/-- The address of a page the check looks at. -/
def checkedPage (addr i : Nat) : Nat := (pageOf addr + 4096 * i) % 2 ^ 64

/-- The address is one the check does not reject, there is a buffer for the flags, the pages
looked at have the required flags, and the first one is not read-only for a write. -/
structure Passes (c : Cpu) (m : Memory) (proc : Process) (kmalloc : Nat → Bool) (addr size : Nat)
    (hasToWrite : Bool) : Prop where
  page_ne : pageOf addr ≠ 0
  valid : isValidAddress addr = true
  half : proc.isUsermode = true → addr ≤ 0xffff800000000000
  buffer : pagesToCheck size ≠ 0 → kmalloc (pagesToCheck size * 8) = true
  present : ∀ i < pagesToCheck size,
    hasBit (pageProtection c m proc.cr3 (checkedPage addr i)) 5 = true
  user : proc.isUsermode = true → ∀ i < pagesToCheck size,
    hasBit (pageProtection c m proc.cr3 (checkedPage addr i)) 1 = true
  writable : hasToWrite = true → 0 < pagesToCheck size →
    hasBit (pageProtection c m proc.cr3 (checkedPage addr 0)) 0 = false

section Check

variable {kmalloc : Nat → Bool} {addr size : Nat} {hasToWrite : Bool}

theorem pagesToCheck_lt (size : Nat) : pagesToCheck size < 2 ^ 52 := by
  unfold pagesToCheck
  omega

theorem pagesFrom_checked (addr size : Nat) :
    pagesFrom (pageOf addr) (pagesToCheck size) =
      (List.range (pagesToCheck size)).map (checkedPage addr) := by
  rw [pagesFrom, Nat.mod_eq_of_lt (pagesToCheck_lt size)]
  rfl

/-- What `VirtualGetProtection` reports to the check. -/
theorem virtualGetProtection_checked (hne : pageOf addr ≠ 0) (hvalid : isValidAddress addr = true)
    (hhalf : proc.isUsermode = true → addr ≤ 0xffff800000000000) :
    virtualGetProtection c m proc (pageOf addr) (pagesToCheck size * 4096) =
      .ok ((List.range (pagesToCheck size)).map fun i =>
        pageProtection c m proc.cr3 (checkedPage addr i)) := by
  have haligned : pageOf addr % 4096 = 0 := Nat.mul_mod_left _ _
  have hpages : sizeToPages (pagesToCheck size * 4096) = pagesToCheck size := by
    simp [sizeToPages]
  have hle : pageOf addr ≤ addr := Nat.div_mul_le_self addr 4096
  have haccess : ¬ ((0xffff800000000000 < pageOf addr) ∧ proc.isUsermode = true) := by
    rintro ⟨hlt, huser⟩
    have := hhalf huser
    omega
  rw [virtualGetProtection, pageOf_of_aligned haligned, if_neg hne, hpages,
    procVirtualGetProtection, isValidAddress_pageOf, hvalid, if_neg (by simp),
    if_neg (by simpa using haccess), pageOf_of_aligned haligned, pagesFrom_checked, List.map_map]
  rfl

/-- Having the required flags, bit by bit. -/
theorem requiredFlags_iff (flags : BitVec 64) (user : Bool) :
    flags &&& (protIsPresent ||| onlyIf user protUserModeAccess) =
        protIsPresent ||| onlyIf user protUserModeAccess ↔
      hasBit flags 5 = true ∧ (user = true → hasBit flags 1 = true) := by
  rw [and_eq_right_iff]
  constructor
  · intro h
    refine ⟨h 5 (by decide) (by simp [protIsPresent]), fun huser => h 1 (by decide) ?_⟩
    simp [huser, protUserModeAccess]
  · rintro ⟨h5, h1⟩ i hi hbit
    simp only [hasBit_or, hasBit_onlyIf, protIsPresent, protUserModeAccess, hasBit_bit,
      or_eq_true, and_eq_true, decide_eq_true_eq] at hbit
    rcases hbit with ⟨-, rfl⟩ | ⟨huser, -, rfl⟩
    · exact h5
    · exact h1 huser

/-- The check rejects every address that is null, not canonical, or above the user half for a user
process. -/
theorem admissible_of_canAccessUserMemory
    (h : canAccessUserMemory c m proc kmalloc addr size hasToWrite = some true) :
    pageOf addr ≠ 0 ∧ isValidAddress addr = true ∧
      (proc.isUsermode = true → addr ≤ 0xffff800000000000) := by
  have haligned : pageOf addr % 4096 = 0 := Nat.mul_mod_left _ _
  unfold canAccessUserMemory at h
  by_cases hzero : addr = 0
  · simp [hzero] at h
  by_cases hhalf : (proc.isUsermode && decide (0xffff800000000000 < addr)) = true
  · rw [if_neg hzero, if_pos hhalf] at h
    cases h
  simp only [virtualGetProtection, pageOf_of_aligned haligned] at h
  refine ⟨?_, ?_, ?_⟩
  · intro hpage
    simp [hpage] at h
  · by_contra hvalid
    simp [procVirtualGetProtection, isValidAddress_pageOf] at h
    grind
  · intro huser
    simpa [huser] using hhalf

/-- The check of the first page is made in every round, that is, if there is a round at all. -/
theorem forall_checked_iff (n : Nat) (flags : Nat → BitVec 64) (user : Bool) :
    (((List.range n).map flags).all fun f =>
        !((f &&& (protIsPresent ||| onlyIf user protUserModeAccess) !=
            (protIsPresent ||| onlyIf user protUserModeAccess)) ||
          (hasBit (((List.range n).map flags).headD 0) 0 && hasToWrite))) = true ↔
      (∀ i < n, hasBit (flags i) 5 = true) ∧
      (user = true → ∀ i < n, hasBit (flags i) 1 = true) ∧
      (hasToWrite = true → 0 < n → hasBit (flags 0) 0 = false) := by
  cases n with
  | zero => simp
  | succ n =>
    have hhead : ((List.range (n + 1)).map flags).headD 0 = flags 0 := by
      rw [List.range_succ_eq_map]
      rfl
    rw [hhead]
    simp only [List.all_map, List.all_eq_true, List.mem_range, Function.comp_apply,
      not_eq_true', or_eq_false_iff, bne_eq_false_iff_eq, requiredFlags_iff,
      and_eq_false_iff]
    constructor
    · intro h
      refine ⟨fun i hi => (h i hi).1.1, fun huser i hi => (h i hi).1.2 huser,
        fun hwrite hpos => ?_⟩
      rcases (h 0 hpos).2 with hclear | hread
      · exact hclear
      · rw [hwrite] at hread
        cases hread
    · rintro ⟨hpresent, huser, hwrite⟩ i hi
      refine ⟨⟨hpresent i hi, fun hu => huser hu i hi⟩, ?_⟩
      cases hw : hasToWrite with
      | false => exact .inr rfl
      | true => exact .inl (hwrite hw (Nat.succ_pos n))

/-- The check accepts exactly when the pages it looks at pass. -/
theorem canAccessUserMemory_iff :
    canAccessUserMemory c m proc kmalloc addr size hasToWrite = some true ↔
      Passes c m proc kmalloc addr size hasToWrite := by
  have haccept (hne : pageOf addr ≠ 0) (hvalid : isValidAddress addr = true)
      (hhalf : proc.isUsermode = true → addr ≤ 0xffff800000000000) :
      canAccessUserMemory c m proc kmalloc addr size hasToWrite = some true ↔
        (pagesToCheck size ≠ 0 → kmalloc (pagesToCheck size * 8) = true) ∧
        (∀ i < pagesToCheck size,
          hasBit (pageProtection c m proc.cr3 (checkedPage addr i)) 5 = true) ∧
        (proc.isUsermode = true → ∀ i < pagesToCheck size,
          hasBit (pageProtection c m proc.cr3 (checkedPage addr i)) 1 = true) ∧
        (hasToWrite = true → 0 < pagesToCheck size →
          hasBit (pageProtection c m proc.cr3 (checkedPage addr 0)) 0 = false) := by
    have hzero : addr ≠ 0 := by
      rintro rfl
      exact hne rfl
    have hlow : ¬ (proc.isUsermode && decide (0xffff800000000000 < addr)) = true := by
      simpa using hhalf
    unfold canAccessUserMemory
    rw [if_neg hzero, if_neg hlow]
    simp only [virtualGetProtection_checked hne hvalid hhalf]
    by_cases hbuffer : pagesToCheck size ≠ 0 ∧ kmalloc (pagesToCheck size * 8) = false
    · simp [hbuffer.1, hbuffer.2]
    · rw [if_neg hbuffer, some_inj, forall_checked_iff]
      have hsome : pagesToCheck size ≠ 0 → kmalloc (pagesToCheck size * 8) = true := by
        simpa using hbuffer
      exact ⟨fun h => ⟨hsome, h⟩, fun h => h.2⟩
  constructor
  · intro h
    obtain ⟨hne, hvalid, hhalf⟩ := admissible_of_canAccessUserMemory h
    obtain ⟨hbuffer, hpresent, huser, hwrite⟩ := (haccept hne hvalid hhalf).1 h
    exact ⟨hne, hvalid, hhalf, hbuffer, hpresent, huser, hwrite⟩
  · intro h
    exact (haccept h.page_ne h.valid h.half).2 ⟨h.buffer, h.present, h.user, h.writable⟩

end Check

/-! ## When the check is sound -/

section Leaves

variable {cr3 address : Nat}

theorem leafAt_pageOf (address : Nat) :
    leafAt c m cr3 (pageOf address) = leafAt c m cr3 address := by
  unfold leafAt
  rw [getL4PageMapEntryAt_pageOf, getL3PageMapEntryAt_pageOf, getL2PageMapEntryAt_pageOf,
    getL1PageMapEntryAt_pageOf]

/-- Two bytes of a page are accessible alike. -/
theorem accessible_congr {hasToWrite : Bool} {a b : Nat} (hpage : pageOf a = pageOf b) :
    Accessible c m proc hasToWrite a ↔ Accessible c m proc hasToWrite b := by
  have hlt : a < 2 ^ 64 ↔ b < 2 ^ 64 := by
    unfold pageOf at hpage
    omega
  have hvalid : isValidAddress a = isValidAddress b := by
    rw [← isValidAddress_pageOf, hpage, isValidAddress_pageOf]
  have hleaf : leafAt c m proc.cr3 a = leafAt c m proc.cr3 b := by
    rw [← leafAt_pageOf, hpage, leafAt_pageOf]
  unfold Accessible
  rw [hlt, hvalid, hleaf]

/-- A page the flags report as present is mapped, and unless the mapping is a huge page it has the
reported user flag. -/
theorem leafAt_of_pageProtection (ha : address % 4096 = 0) (hlt : address < 2 ^ 64)
    (hpresent : hasBit (pageProtection c m cr3 address) 5 = true) :
    ∃ l, leafAt c m cr3 address = some l ∧
      (l.huge = false → hasBit (pageProtection c m cr3 address) 1 = true →
        l.userAccessible = true) := by
  have hallocated : pageAllocated c m cr3 address = true := by
    by_contra hnot
    simp [pageProtection, pagesAllocated_one ha hlt, hnot] at hpresent
  have hprot : pageProtection c m cr3 address =
      encodeProtectionFlags c (getL1PageMapEntryAt c m cr3 address) := by
    rw [pageProtection, pagesAllocated_one ha hlt, hallocated, if_pos rfl]
  rw [hprot, hasBit_encodeProtectionFlags_five] at hpresent
  simp only [pageAllocated, and_eq_true] at hallocated
  obtain ⟨⟨⟨h4, h3⟩, h2⟩, -⟩ := hallocated
  rw [hprot]
  by_cases hhuge3 : hasBit (getL3PageMapEntryAt c m cr3 address) 7 = true
  · exact ⟨⟨getL3PageMapEntryAt c m cr3 address, true⟩, by simp [leafAt, h4, h3, hhuge3], by simp⟩
  by_cases hhuge2 : hasBit (getL2PageMapEntryAt c m cr3 address) 7 = true
  · exact ⟨⟨getL2PageMapEntryAt c m cr3 address, true⟩,
      by simp [leafAt, h4, h3, hhuge3, h2, hhuge2], by simp⟩
  refine ⟨⟨getL1PageMapEntryAt c m cr3 address, false⟩,
    by simp [leafAt, h4, h3, hhuge3, h2, hhuge2, hpresent], fun _ huser => ?_⟩
  simpa [Leaf.userAccessible, Leaf.demandPaged] using user_of_encodeProtectionFlags huser

end Leaves

/-- What the check overlooks: the buffer leaves the half of the address space it starts in, or the
page numbers wrap around; a page is read-only; a huge page is not for user programs; or the buffer
ends on a page after the last one looked at, and that page may not be accessed. -/
inductive Overlooked (c : Cpu) (m : Memory) (proc : Process) (addr size : Nat)
    (hasToWrite : Bool) : Prop where
  | leavesHalf (h : (if addr < 2 ^ 47 then 2 ^ 47 else 2 ^ 64) < addr + size)
  | readOnlyPage (i : Nat) (hi : i < pagesToCheck size) (l : Leaf)
      (hl : leafAt c m proc.cr3 (checkedPage addr i) = some l)
      (hwrite : hasToWrite = true) (h : l.readOnly = true)
  | hugePage (i : Nat) (hi : i < pagesToCheck size) (l : Leaf)
      (hl : leafAt c m proc.cr3 (checkedPage addr i) = some l) (hhuge : l.huge = true)
      (huser : proc.isUsermode = true) (h : l.userAccessible = false)
  | pastLastPage (hpos : 0 < size) (h : pageOf addr + 4096 * pagesToCheck size < addr + size)
      (hnot : ¬ Accessible c m proc hasToWrite (addr + size - 1))

section Soundness

variable {kmalloc : Nat → Bool} {addr size : Nat} {hasToWrite : Bool}

/-- A page looked at holds a byte of the buffer, so it has to be accessible. -/
theorem accessible_checkedPage {i : Nat} (hi : i < pagesToCheck size)
    (hall : ∀ b, addr ≤ b → b < addr + size → Accessible c m proc hasToWrite b) :
    Accessible c m proc hasToWrite (checkedPage addr i) := by
  unfold pagesToCheck at hi
  -- the first page holds the first byte, and the other ones start inside the buffer
  obtain ⟨b, hle, hlt, hpage⟩ : ∃ b, addr ≤ b ∧ b < addr + size ∧
      pageOf b = pageOf (pageOf addr + 4096 * i) := by
    unfold pageOf
    cases i with
    | zero => exact ⟨addr, le_rfl, by omega, by omega⟩
    | succ i => exact ⟨addr / 4096 * 4096 + 4096 * (i + 1), by omega, by omega, rfl⟩
  have haccess := (accessible_congr hpage).1 (hall b hle hlt)
  rwa [checkedPage, Nat.mod_eq_of_lt haccess.1]

/-- Each thing the check overlooks makes a byte of the buffer inaccessible. -/
theorem Overlooked.not_accessible (haddr : addr < 2 ^ 64)
    (h : Overlooked c m proc addr size hasToWrite) :
    ¬ ∀ b, addr ≤ b → b < addr + size → Accessible c m proc hasToWrite b := by
  intro hall
  cases h with
  | leavesHalf h =>
    split at h
    · have hvalid := (hall (2 ^ 47) (by omega) h).2.1
      simp [isValidAddress] at hvalid
    · exact absurd (hall (2 ^ 64) (by omega) h).1 (lt_irrefl _)
  | readOnlyPage i hi l hl hwrite h =>
    obtain ⟨-, -, l', hl', -, hwritable⟩ := accessible_checkedPage hi hall
    cases hl.symm.trans hl'
    rw [hwritable hwrite] at h
    cases h
  | hugePage i hi l hl hhuge huser h =>
    obtain ⟨-, -, l', hl', huserAccessible, -⟩ := accessible_checkedPage hi hall
    cases hl.symm.trans hl'
    rw [huserAccessible huser] at h
    cases h
  | pastLastPage hpos h hnot =>
    exact hnot (hall _ (by omega) (by omega))

/-- If nothing is overlooked, a page that passes is accessible. -/
theorem Passes.accessible_checkedPage {i : Nat} (h : Passes c m proc kmalloc addr size hasToWrite)
    (hno : ¬ Overlooked c m proc addr size hasToWrite) (hi : i < pagesToCheck size)
    (hvalid : isValidAddress (checkedPage addr i) = true) :
    Accessible c m proc hasToWrite (checkedPage addr i) := by
  have hlt : checkedPage addr i < 2 ^ 64 := Nat.mod_lt _ (by decide)
  have haligned : checkedPage addr i % 4096 = 0 := by
    unfold checkedPage pageOf
    omega
  obtain ⟨l, hl, huserAccessible⟩ := leafAt_of_pageProtection haligned hlt (h.present i hi)
  refine ⟨hlt, hvalid, l, hl, fun huser => ?_, fun hwrite => ?_⟩
  · cases hhuge : l.huge with
    | false => exact huserAccessible hhuge (h.user huser i hi)
    | true =>
      by_contra hnot
      exact hno (.hugePage i hi l hl hhuge huser (eq_false_iff.2 hnot))
  · by_contra hnot
    exact hno (.readOnlyPage i hi l hl hwrite (not_eq_false _ ▸ hnot))

/-- If nothing is overlooked, a check that passes is right about every byte. -/
theorem Passes.accessible (haddr : addr < 2 ^ 64) (h : Passes c m proc kmalloc addr size hasToWrite)
    (hno : ¬ Overlooked c m proc addr size hasToWrite) {b : Nat} (hle : addr ≤ b)
    (hlt : b < addr + size) : Accessible c m proc hasToWrite b := by
  have hhalf : addr + size ≤ if addr < 2 ^ 47 then 2 ^ 47 else 2 ^ 64 := by
    by_contra hout
    exact hno (.leavesHalf (by omega))
  have hvalid := h.valid
  have hpage := h.page_ne
  simp only [isValidAddress, or_eq_true, beq_iff_eq] at hvalid
  have hlast : addr + size ≤ 2 ^ 64 := by
    split at hhalf <;> omega
  have hvalidb : isValidAddress b = true := by
    simp only [isValidAddress, or_eq_true, beq_iff_eq]
    split at hhalf <;> omega
  have hcount : pagesToCheck size = (size + 0xfff) / 4096 := by
    unfold pageOf at hpage
    unfold pagesToCheck
    omega
  by_cases hchecked : b / 4096 - addr / 4096 < pagesToCheck size
  · have hsame : checkedPage addr (b / 4096 - addr / 4096) = pageOf b := by
      unfold checkedPage pageOf
      omega
    have := h.accessible_checkedPage hno hchecked
      (by rw [hsame, isValidAddress_pageOf, hvalidb])
    rw [hsame] at this
    exact (accessible_congr (pageOf_of_aligned (Nat.mul_mod_left _ _))).1 this
  · -- only the page of the last byte comes after the pages looked at
    have hsame : pageOf (addr + size - 1) = pageOf b := by
      unfold pageOf
      omega
    rw [← accessible_congr hsame]
    by_contra hnot
    refine hno (.pastLastPage (by omega) ?_ hnot)
    unfold pageOf
    omega

/-- The check is right about a buffer unless it passes and overlooks something. -/
theorem sound_iff (haddr : addr < 2 ^ 64) :
    Sound c m proc kmalloc addr size hasToWrite ↔
      ¬ (Passes c m proc kmalloc addr size hasToWrite ∧
        Overlooked c m proc addr size hasToWrite) := by
  unfold Sound
  rw [canAccessUserMemory_iff]
  constructor
  · rintro hsound ⟨hpasses, hover⟩
    exact hover.not_accessible haddr (hsound hpasses)
  · intro hno hpasses b hle hlt
    exact hpasses.accessible haddr (fun hover => hno ⟨hpasses, hover⟩) hle hlt

/-- The check is right about a buffer inside the mapped page. -/
theorem sound_iff_inside_page :
    0x5ff0 < 2 ^ 64 ∧
      (Sound smallCpu onePageMapped ⟨0x1000, true⟩ (fun _ => true) 0x5ff0 0x10 true ↔
        ¬ (Passes smallCpu onePageMapped ⟨0x1000, true⟩ (fun _ => true) 0x5ff0 0x10 true ∧
          Overlooked smallCpu onePageMapped ⟨0x1000, true⟩ 0x5ff0 0x10 true)) :=
  ⟨by decide, sound_iff (by decide)⟩

/-- A buffer that starts at the end of the mapped page and ends on the next one passes. -/
theorem unsound_past_last_page :
    ¬ Sound smallCpu onePageMapped ⟨0x1000, true⟩ (fun _ => true) 0x5ff0 0x20 false := by
  intro hsound
  have hpasses : canAccessUserMemory smallCpu onePageMapped ⟨0x1000, true⟩ (fun _ => true)
      0x5ff0 0x20 false = some true := by decide +kernel
  obtain ⟨-, -, l, hl, -⟩ := hsound hpasses 0x6000 (by decide) (by decide)
  cases hl

end Soundness

end Obos.Syscalls
