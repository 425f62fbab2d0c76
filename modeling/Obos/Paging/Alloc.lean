import Obos.Paging.Protect

/-!
# Mapping pages

`VirtualAlloc` maps a range of pages at a given base, or at an address found by
`_Impl_FindUsableAddress`, which walks the page map and looks for a gap between
two mapped pages. A page gets a frame at once, or an entry for demand paging
(bit 9) without one. `allocPage_spec` says what one page does to a page map: the
entries above it are made or widened, and the leaf written has no frame or a
fresh one (`NewLeaf`).
-/

namespace Obos.Paging

open Lib Lib.TableTree Physical Option

/-! ## The program -/

/-- `IteratePages`: visit the pages below a table of a level. `virt` are the address bits of the
levels above; a callback that stops the iteration does so with `.error`. -/
def iteratePages {S : Type} (c : Cpu) (m : Memory) (first last : Nat)
    (callback : S → Nat → BitVec 64 → Except S S) : Nat → Nat → Nat → S → Except S S
  | 0, currentPM, virt, s =>
    if currentPM = 0 then .ok s
    else (List.range 512).foldlM (fun s i =>
      let entry := m.load64 (currentPM + 8 * i)
      if hasBit entry 0 || hasBit entry 10 then callback s (virt ||| i <<< 12) entry else .ok s) s
  | level + 1, currentPM, virt, s =>
    let index := if level + 1 = 3 then addressToIndex first 3 else 0
    let endIndex := if level + 1 = 3 then addressToIndex last 3 + 1 else 512
    if currentPM = 0 then .ok s
    else (List.range' index (endIndex - index)).foldlM (fun s i =>
      let entry := m.load64 (currentPM + 8 * i)
      -- the bits above the address width follow the top index
      let hole := if level + 1 = 3 && decide (0x100 ≤ i) then 0xffff800000000000 else 0
      let virt := hole ||| virt ||| i <<< (9 * (level + 1) + 12)
      if !hasBit entry 0 then .ok s
      else if level + 1 ≠ 3 && hasBit entry 7 then callback s virt entry
      else iteratePages c m first last callback level (c.rawPtr entry) virt s) s

/-- The variables the callback of `_Impl_FindUsableAddress` writes. -/
structure Search where
  ret : Nat
  lastAddress : Nat

/-- The callback of `_Impl_FindUsableAddress`. -/
def searchPage (base nPages : Nat) (st : Search) (virt : Nat) (_entry : BitVec 64) :
    Except Search Search :=
  if virt < base then .ok st
  else if (nPages + 1) % 2 ^ 64 ≤ (virt + 2 ^ 64 - st.lastAddress) % 2 ^ 64 / 4096 then
    .error { st with ret := st.lastAddress }
  else .ok { st with lastAddress := virt }

/-- `_Impl_FindUsableAddress`, with 0 for a null pointer. -/
def findUsableAddress (c : Cpu) (m : Memory) (proc : Process) (nPages : Nat) : Nat :=
  let base := if proc.isUsermode then 0x1000 else 0xffffffff00000000 - 0x1000
  let limit := if proc.isUsermode then 0x00007fffffffffff else 0xffffffffffffc000
  let pass (st : Search) : Search :=
    match iteratePages c m base limit (searchPage base nPages) 3 proc.cr3 0 st with
    | .ok st => st
    | .error st => st
  let st := pass ⟨limit, base⟩
  -- the second pass goes on with the last address of the first
  let st := if st.ret = limit then pass st else st
  if st.ret = limit then 0 else (st.ret + 0x1000) % 2 ^ 64

/-- The addresses visited by `for (addr = base; addr < base + nPages * 0x1000; addr += 0x1000)` for
a page-aligned base. -/
def pagesBelow (base nPages : Nat) : List Nat :=
  (List.range (((base + nPages * 4096) % 2 ^ 64 - base) / 4096)).map fun i => base + 4096 * i

/-- The entry of a page without a frame. -/
def demandPagingEntry (protFlags : BitVec 64) : BitVec 64 :=
  bit 9 ||| protFlags <<< 52 ||| bit 0 ||| bit 63

/-- The hardware flags of the entries above the pages, `cpuFlags` in the source. -/
def cpuFlags (c : Cpu) (protFlags : BitVec 64) : BitVec 64 :=
  if !hasBit protFlags 3 then bit 0 ||| bit 63 else decodeProtectionFlags c protFlags ||| bit 0

/-- The entry of a page: a demand-paged one, unless the flags forbid it. -/
def allocEntry (c : Cpu) (fuel : Nat) (protFlags : BitVec 64) (s : Pmm) :
    Option (BitVec 64 × Pmm) :=
  if !hasBit protFlags 3 then some (demandPagingEntry protFlags, s)
  else (s.allocatePhysicalPage fuel 1).map fun (f, s) =>
    (BitVec.ofNat 64 f ||| cpuFlags c protFlags ||| bit 0, s)

/-- The body of the loop of `_Impl_ProcVirtualAlloc`. -/
def allocPage (c : Cpu) (fuel cr3 : Nat) (protFlags : BitVec 64) (s : Pmm) (addr : Nat) :
    Option Pmm := do
  let (entry, s) ← allocEntry c fuel protFlags s
  let (pageMap, s) ← allocatePagingStructures c fuel s cr3 addr (cpuFlags c protFlags)
  some { s with mem := s.mem.store64 (pageMap + 8 * addressToIndex addr 0) entry }

/-- `_Impl_ProcVirtualAlloc`. -/
def procVirtualAlloc (c : Cpu) (fuel : Nat) (s : Pmm) (proc : Process) (base nPages : Nat)
    (protFlags : BitVec 64) : Option (Except Error (Nat × Pmm)) :=
  if !isValidAddress base then some (.error .invalidParameter)
  else if 0xffff800000000000 < base && proc.isUsermode then some (.error .accessDenied)
  else if !canAllocatePages c s.mem proc.cr3 base nPages then some (.error .baseAddressUsed)
  else ((pagesBelow base nPages).foldlM
    (allocPage c fuel proc.cr3 (protFlags &&& protAllBitsSet)) s).map fun s => .ok (base, s)

/-- The address `VirtualAlloc` maps at: the page of the base, or one that is found. -/
def allocBase (c : Cpu) (m : Memory) (proc : Process) (base nPages : Nat) : Nat :=
  if pageOf base = 0 then findUsableAddress c m proc nPages else pageOf base

/-- `VirtualAllocator::VirtualAlloc`. -/
def virtualAlloc (c : Cpu) (fuel : Nat) (s : Pmm) (proc : Process) (base size : Nat)
    (flags : BitVec 64) : Option (Except Error (Nat × Pmm)) :=
  if !isValidAddress (pageOf base) then some (.error .invalidParameter)
  else if sizeToPages size = 0 then some (.error .invalidParameter)
  else if allocBase c s.mem proc base (sizeToPages size) = 0 then some (.error .noFreeRegion)
  else procVirtualAlloc c fuel s proc (allocBase c s.mem proc base (sizeToPages size))
    (sizeToPages size) flags

/-- A call succeeds if it passes the checks and its loop ends. -/
theorem virtualAlloc_eq_ok {c : Cpu} {fuel base size b r : Nat} {s s' : Pmm} {proc : Process}
    {flags : BitVec 64} (hb : allocBase c s.mem proc base (sizeToPages size) = b) :
    virtualAlloc c fuel s proc base size flags = some (.ok (r, s')) ↔
      isValidAddress (pageOf base) = true ∧ sizeToPages size ≠ 0 ∧ b ≠ 0 ∧
        isValidAddress b = true ∧
        ¬ (decide (0xffff800000000000 < b) && proc.isUsermode) = true ∧
        canAllocatePages c s.mem proc.cr3 b (sizeToPages size) = true ∧
        (pagesBelow b (sizeToPages size)).foldlM
          (allocPage c fuel proc.cr3 (flags &&& protAllBitsSet)) s = some s' ∧ b = r := by
  simp only [virtualAlloc, procVirtualAlloc, hb, ite_error_eq_ok, map_eq_some_iff,
    Except.ok.injEq, Prod.mk.injEq, exists_eq_right_right, Bool.not_eq_true', Bool.not_eq_false,
    ne_eq]

/-! ## What one page does -/

/-- The leaf written for a page: without a frame, or for one that was not in use and is not part of
the page map. -/
def NewLeaf (c : Cpu) (cr3 : Nat) (R : Nat → Prop) (E : Entries) (used used' : Set Nat)
    (v : BitVec 64) : Prop :=
  (hasBit v 9 = true ∧ frame v = 0) ∨
    (hasBit v 9 = false ∧ c.rawPtr v = frame v ∧ (frame v ≠ 0 → frame v ∉ used ∧ frame v ∈ used' ∧
      frame v < 2 ^ c.physAddrBits ∧ frame v ≠ cr3 ∧ ¬ Live child R 3 E (frame v)))

section Page

variable {c : Cpu} {cr3 fuel addr : Nat} {R : Nat → Prop} {s s' : Pmm} {E : Entries}
  {used : Set Nat} {protFlags : BitVec 64}

/-- An entry for demand paging has no frame. -/
theorem frame_demandPagingEntry (protFlags : BitVec 64) :
    frame (demandPagingEntry protFlags) = 0 := by
  have hzero : demandPagingEntry protFlags &&& frameMask = 0 := by
    refine eq_of_hasBit_eq fun i hi => ?_
    rw [hasBit_and, hasBit_frameMask]
    by_cases hmask : 12 ≤ i ∧ i < 52
    · have hbit {j : Nat} (hj : j < 12 ∨ 52 ≤ j) : ¬ j = i := by omega
      simp [demandPagingEntry, hmask, hbit]
    · simp [hmask]
  rw [frame, hzero]
  rfl

theorem tableFlags_demand : TableFlags (bit 0 ||| bit 63) := by
  refine ⟨by simp, fun i hlo hhi => ?_⟩
  simp [show ¬ 0 = i by omega, show ¬ 63 = i by omega]

theorem tableFlags_cpuFlags (c : Cpu) (protFlags : BitVec 64) :
    TableFlags (cpuFlags c protFlags) := by
  unfold cpuFlags
  split
  · exact tableFlags_demand
  · exact tableFlags_decode c protFlags

theorem tableFlags_present (c : Cpu) (protFlags : BitVec 64) :
    TableFlags (cpuFlags c protFlags ||| bit 0) := by
  obtain ⟨-, hclear⟩ := tableFlags_cpuFlags c protFlags
  refine ⟨by simp, fun i hlo hhi => ?_⟩
  rw [hasBit_or, hclear i hlo hhi]
  simp [show ¬ 0 = i by omega]

/-- The entry of a page, with the frame taken for it. -/
theorem allocEntry_spec (hready : Ready c cr3 R s E used)
    {entry : BitVec 64} (hret : allocEntry c fuel protFlags s = some (entry, s')) :
    ∃ used', Ready c cr3 R s' E used' ∧ Grown cr3 R s E used s' E used' ∧
      (c.physAddrBits ≤ 51 → NewLeaf c cr3 R E used used' entry) := by
  unfold allocEntry at hret
  split at hret
  · cases hret
    exact ⟨used, hready, .refl, fun _ =>
      .inl ⟨by simp [demandPagingEntry], frame_demandPagingEntry _⟩⟩
  · obtain ⟨⟨f, s1⟩, halloc, heq⟩ := map_eq_some_iff.1 hret
    cases heq
    have hsup := hready.allocate halloc
    refine ⟨insert f used, hsup.ready, ⟨Set.subset_insert _ _, fun t _ _ hl => hl,
      fun b hb _ => hsup.mem b hb⟩, fun hc => ?_⟩
    have hflags := tableFlags_present c protFlags
    have hpoints := pointsTo_frame hc hsup.aligned hsup.lt hflags
    have h9 : hasBit (BitVec.ofNat 64 f ||| (cpuFlags c protFlags ||| bit 0)) 9 = false := by
      have hframe : hasBit (BitVec.ofNat 64 f) 9 = false :=
        hasBit_ofNat_frame_of_not hsup.aligned hsup.lt (by omega)
      rw [hasBit_or, hframe, hflags.clear 9 (by decide) (by decide), Bool.or_self]
    rw [BitVec.or_assoc]
    have hframe := (frame_of_child hpoints.child_eq).2
    refine .inr ⟨h9, hpoints.rawPtr_eq.trans hframe.symm, ?_⟩
    rw [hframe]
    exact fun hne => ⟨hsup.new.resolve_left hne, Set.mem_insert _ _, hsup.lt, hsup.ne_cr3,
      hsup.not_live⟩

/-- What one round of the loop does. -/
theorem allocPage_spec (hc : c.physAddrBits ≤ 52) (hR : R (key addr / 512 ^ 3))
    (hclean : CleanPath c E (key addr))
    (hready : Ready c cr3 R s E used) (hret : allocPage c fuel cr3 protFlags s addr = some s') :
    ∃ E' used' v s1, allocEntry c fuel protFlags s = some (v, s1) ∧
      Ready c cr3 R s' (set E' 3 (key addr) v) used' ∧
      Grown cr3 R s E used s' (set E' 3 (key addr) v) used' ∧ Walked c E E' (key addr) ∧
      (c.physAddrBits ≤ 51 → NewLeaf c cr3 R E' used used' v) := by
  unfold allocPage at hret
  simp only [bind, bind_eq_some_iff, some.injEq, Prod.exists] at hret
  obtain ⟨entry, s1, hentry, table, s2, hwalk, rfl⟩ := hret
  obtain ⟨used1, hready1, hgrown1, hleaf⟩ := allocEntry_spec hready hentry
  obtain ⟨E', used', hready', hgrown', hwalked, htable, -⟩ :=
    allocatePagingStructures_spec hc hready1 hR hclean (tableFlags_cpuFlags c protFlags)
      hwalk
  rw [addressToIndex_zero]
  obtain ⟨hstored, hlast⟩ := hready'.storeLeaf hR htable entry
  refine ⟨E', used', entry, s1, hentry, hstored, (hgrown1.trans hgrown').trans hlast,
    hwalked.toWalked, fun hc => ?_⟩
  rcases hleaf hc with hdemand | ⟨h9, hraw, hframe⟩
  · exact .inl hdemand
  · refine .inr ⟨h9, hraw, fun hne => ?_⟩
    obtain ⟨hnew, hused, hlt, hcr3, hlive⟩ := hframe hne
    exact ⟨hnew, hgrown'.subset hused, hlt, hcr3, fun hl => hlive (hgrown'.live _ hused hne hl)⟩

end Page

/-- What an iteration ends with, stopped or not. -/
def outcome {S : Type} : Except S S → S
  | .ok s => s
  | .error s => s

/-- The address of an entry, from the address of its table. -/
theorem virt_or_index (level k : Nat) {i : Nat} (hi : i < 512) :
    k * 2 ^ (9 * (level + 1) + 12) ||| i <<< (9 * level + 12) =
      (512 * k + i) * 2 ^ (9 * level + 12) := by
  have hpow : 2 ^ (9 * (level + 1) + 12) = 512 * 2 ^ (9 * level + 12) := by
    rw [show 9 * (level + 1) + 12 = 9 * level + 12 + 9 by omega, Nat.pow_add, Nat.mul_comm]
  have hlt : i * 2 ^ (9 * level + 12) < 2 ^ (9 * (level + 1) + 12) := by
    rw [hpow]
    exact Nat.mul_lt_mul_of_pos_right hi (Nat.two_pow_pos _)
  rw [Nat.shiftLeft_eq, Nat.mul_comm k, ← Nat.two_pow_add_eq_or_of_lt hlt]
  ring

end Obos.Paging
