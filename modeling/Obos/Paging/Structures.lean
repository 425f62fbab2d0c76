import Obos.Paging.Tables
import Obos.Physical.Frames

/-!
# Making page tables

`allocatePagingStructures` walks down the page map for an address, makes the
tables that are missing, and widens the rights of the entries it passes. Its
body does the same thing at three levels; `allocateTable` is one of them.

`Ready` is the state such a walk starts from and leaves: a represented page map
whose tables are in use, and an allocator that is locked or has a pool of other
frames. `allocatePagingStructures_spec` says what the walk changes: entries on
the path of the address, none of which loses its table.
-/

namespace Obos.Paging

open Lib Lib.TableTree Physical Memory Represents Option

/-! ## The program -/

/-- The rights an existing entry gets for the flags of a page below it. -/
def widenEntry (entry flags : BitVec 64) : BitVec 64 :=
  let entry := if hasBit entry 63 && !hasBit flags 63 then entry &&& ~~~bit 63 else entry
  let entry := if !hasBit entry 2 && hasBit flags 2 then entry ||| bit 2 else entry
  if !hasBit entry 1 && hasBit flags 1 then entry ||| bit 1 else entry

/-- One level of `allocatePagingStructures`. `entryAt` reads the entry of the level, `tableAt` the
address of the table it is in. There is no physical memory behind `2 ^ 52`, and nothing is mapped
where the kernel would look for it. -/
def allocateTable (fuel : Nat) (s : Pmm) (entryAt : Memory → BitVec 64) (tableAt : Memory → Nat)
    (index : Nat) (flags : BitVec 64) : Option Pmm :=
  if entryAt s.mem = 0 then
    (s.allocatePhysicalPage fuel 1).bind fun (entry, s) =>
      if 2 ^ 52 < tableAt s.mem then none
      else some { s with
        mem := (s.mem.store64 (tableAt s.mem + 8 * index) (BitVec.ofNat 64 entry ||| flags)).fill
          entry 4096 0 }
  else
    some { s with
      mem := s.mem.store64 (tableAt s.mem + 8 * index) (widenEntry (entryAt s.mem) flags) }

/-- `allocatePagingStructures`: the address of the table of the last level, and the state. Its
callers write to this table at once. -/
def allocatePagingStructures (c : Cpu) (fuel : Nat) (s : Pmm) (cr3 address : Nat)
    (flags : BitVec 64) : Option (Nat × Pmm) := do
  let s ← allocateTable fuel s (getL4PageMapEntryAt c · cr3 address) (fun _ => cr3)
    (addressToIndex address 3) flags
  let s ← allocateTable fuel s (getL3PageMapEntryAt c · cr3 address)
    (fun m => c.rawPtr (getL4PageMapEntryAt c m cr3 address)) (addressToIndex address 2) flags
  let s ← allocateTable fuel s (getL2PageMapEntryAt c · cr3 address)
    (fun m => c.rawPtr (getL3PageMapEntryAt c m cr3 address)) (addressToIndex address 1) flags
  let table := c.rawPtr (getL2PageMapEntryAt c s.mem cr3 address)
  if 2 ^ 52 < table then none else some (table, s)

/-! ## Entries that are written -/

/-- The flags for an entry above the last level: present, not a huge page, and no address. -/
structure TableFlags (flags : BitVec 64) : Prop where
  present : hasBit flags 0 = true
  clear : ∀ i, 6 ≤ i → i < 63 → hasBit flags i = false

variable {entry : BitVec 64} {f n i : Nat}

/-- The bits of the address of a frame. -/
theorem hasBit_ofNat_frame (haligned : f % 4096 = 0) (hlt : f < 2 ^ n)
    (h : hasBit (BitVec.ofNat 64 f) i = true) : 12 ≤ i ∧ i < n := by
  simp only [hasBit, BitVec.getLsbD_ofNat, Bool.and_eq_true, decide_eq_true_eq] at h
  constructor
  · by_contra hlow
    have hmod : (f % 2 ^ 12).testBit i = false := by
      rw [show (2 : Nat) ^ 12 = 4096 from rfl, haligned, Nat.zero_testBit]
    rw [Nat.testBit_mod_two_pow, h.2] at hmod
    simp at hmod
    omega
  · by_contra hhigh
    have hfalse : f.testBit i = false :=
      Nat.testBit_lt_two_pow (lt_of_lt_of_le hlt (Nat.pow_le_pow_right (by decide) (by omega)))
    rw [h.2] at hfalse
    cases hfalse

theorem hasBit_ofNat_frame_of_not (haligned : f % 4096 = 0) (hlt : f < 2 ^ n)
    (h : ¬ (12 ≤ i ∧ i < n)) : hasBit (BitVec.ofNat 64 f) i = false :=
  Bool.eq_false_iff.2 fun hset => h (hasBit_ofNat_frame haligned hlt hset)

section Entry

variable {c : Cpu} {f : Nat} {flags : BitVec 64}

/-- A mask that keeps the bits of a frame and none of the flags cuts out the frame. -/
theorem ofNat_or_and_mask (hc : c.physAddrBits ≤ 52) (haligned : f % 4096 = 0)
    (hlt : f < 2 ^ c.physAddrBits) {mask : BitVec 64}
    (hin : ∀ i, 12 ≤ i → i < c.physAddrBits → hasBit mask i = true)
    (hout : ∀ i < 64, hasBit mask i = true → hasBit flags i = false) :
    ((BitVec.ofNat 64 f ||| flags) &&& mask).toNat = f := by
  have hlt64 : f < 2 ^ 64 := lt_of_lt_of_le hlt (Nat.pow_le_pow_right (by decide) (by omega))
  have heq : (BitVec.ofNat 64 f ||| flags) &&& mask = BitVec.ofNat 64 f := by
    refine eq_of_hasBit_eq fun i hi => ?_
    rw [hasBit_and, hasBit_or]
    cases hf : hasBit (BitVec.ofNat 64 f) i with
    | true =>
      obtain ⟨hlo, hhi⟩ := hasBit_ofNat_frame haligned hlt hf
      simp [hin i hlo hhi]
    | false =>
      cases hm : hasBit mask i with
      | false => simp
      | true => simp [hout i hi hm]
  rw [heq, BitVec.toNat_ofNat, Nat.mod_eq_of_lt hlt64]

/-- The CPU finds the frame in an entry made of a frame and flags. -/
theorem child_frame (hc : c.physAddrBits ≤ 52) (haligned : f % 4096 = 0)
    (hlt : f < 2 ^ c.physAddrBits) (hflags : TableFlags flags) :
    child (BitVec.ofNat 64 f ||| flags) = some f := by
  have hframe : frame (BitVec.ofNat 64 f ||| flags) = f := by
    refine ofNat_or_and_mask hc haligned hlt (fun i hlo hhi => ?_) fun i _ hset => ?_
    · simp [hasBit_frameMask, hlo, show i < 52 by omega]
    · simp only [hasBit_frameMask, decide_eq_true_eq] at hset
      exact hflags.clear i (by omega) (by omega)
  have h7 := hasBit_ofNat_frame_of_not haligned hlt (i := 7) (by omega)
  rw [child, hframe]
  simp [hflags.present, hflags.clear 7 (by decide) (by decide), h7]

/-- The kernel takes bit 63 for a bit of the address on a CPU with 52 of them. -/
theorem pointsTo_frame_or (hc : c.physAddrBits ≤ 52) (haligned : f % 4096 = 0)
    (hlt : f < 2 ^ c.physAddrBits) (hflags : TableFlags flags) :
    PointsTo c (BitVec.ofNat 64 f ||| flags) f ∨
      (51 < c.physAddrBits ∧ 2 ^ 52 < c.rawPtr (BitVec.ofNat 64 f ||| flags)) := by
  have hchild := child_frame hc haligned hlt hflags
  have hmask {i : Nat} (h : hasBit c.physAddrMask i = true) : 12 ≤ i ∧ i < c.physAddrBits + 12 := by
    simp only [hasBit_physAddrMask, Bool.and_eq_true, decide_eq_true_eq] at h
    exact h.2
  by_cases hnx : c.physAddrBits ≤ 51 ∨ hasBit flags 63 = false
  · refine .inl ⟨hchild, ?_, hlt⟩
    refine ofNat_or_and_mask hc haligned hlt (fun i hlo hhi => ?_) fun i hi hset => ?_
    · simp [hasBit_physAddrMask, hlo, show i < 64 by omega, show i < c.physAddrBits + 12 by omega]
    · obtain ⟨hlo, hhi⟩ := hmask hset
      rcases hnx with hbits | hclear
      · exact hflags.clear i (by omega) (by omega)
      · by_cases h63 : i = 63
        · rw [h63, hclear]
        · exact hflags.clear i (by omega) (by omega)
  · push Not at hnx
    refine .inr ⟨hnx.1, ?_⟩
    have hbit : (c.rawPtr (BitVec.ofNat 64 f ||| flags)).testBit 63 = true := by
      have hset : hasBit ((BitVec.ofNat 64 f ||| flags) &&& c.physAddrMask) 63 = true := by
        rw [hasBit_and, hasBit_or, Bool.eq_true_of_not_eq_false hnx.2, hasBit_physAddrMask]
        simp [show 63 < c.physAddrBits + 12 by omega]
      exact hset
    exact lt_of_lt_of_le (by decide) (Nat.ge_two_pow_of_testBit hbit)

/-- An entry made of a frame and flags points at the frame. -/
theorem pointsTo_frame (hc : c.physAddrBits ≤ 51) (haligned : f % 4096 = 0)
    (hlt : f < 2 ^ c.physAddrBits) (hflags : TableFlags flags) :
    PointsTo c (BitVec.ofNat 64 f ||| flags) f :=
  (pointsTo_frame_or (by omega) haligned hlt hflags).resolve_right fun h => by omega

end Entry

theorem hasBit_widenEntry {flags : BitVec 64} (hi : i < 63) (h1 : i ≠ 1) (h2 : i ≠ 2) :
    hasBit (widenEntry entry flags) i = hasBit entry i := by
  have h63 : ¬ 63 = i := by omega
  have h1' : ¬ 1 = i := fun he => h1 he.symm
  have h2' : ¬ 2 = i := fun he => h2 he.symm
  simp [widenEntry, apply_ite (hasBit · i), h63, h1', h2', show i < 64 by omega]

/-- The address of a table does not reach the bit that forbids execution. -/
theorem PointsTo.hasBit_physAddrMask {c : Cpu} {t : Nat} (hc : c.physAddrBits ≤ 52)
    (h : PointsTo c entry t) : hasBit (entry &&& c.physAddrMask) 63 = false := by
  by_contra hset
  have hbit : (c.rawPtr entry).testBit 63 = true := Bool.eq_true_of_not_eq_false hset
  have hge := Nat.ge_two_pow_of_testBit hbit
  have hlt := h.lt
  have hle : 2 ^ c.physAddrBits ≤ 2 ^ 52 := Nat.pow_le_pow_right (by decide) hc
  rw [h.rawPtr_eq] at hge
  omega

/-- A widened entry points at the same table. -/
theorem PointsTo.widenEntry {c : Cpu} (hc : c.physAddrBits ≤ 52) {t : Nat} (h : PointsTo c entry t)
    (flags : BitVec 64) : PointsTo c (widenEntry entry flags) t := by
  refine ⟨?_, ?_, h.lt⟩
  · rw [child_congr (hasBit_widenEntry (by decide) (by decide) (by decide))
      (hasBit_widenEntry (by decide) (by decide) (by decide))
      fun i _ _ => hasBit_widenEntry (by omega) (by omega) (by omega), h.child_eq]
  · have hmasked : Paging.widenEntry entry flags &&& c.physAddrMask = entry &&& c.physAddrMask := by
      refine eq_of_hasBit_eq fun i hi => ?_
      by_cases h63 : i = 63
      · have hclear := h.hasBit_physAddrMask hc
        rw [hasBit_and] at hclear
        rw [h63, hasBit_and, hasBit_and]
        rcases Bool.and_eq_false_iff.1 hclear with hentry | hmask
        · have hwide : hasBit (Paging.widenEntry entry flags) 63 = false := by
            simp [Paging.widenEntry, apply_ite (hasBit · 63), hentry]
          rw [hwide, hentry]
        · rw [hmask, Bool.and_false, Bool.and_false]
      · rw [hasBit_and, hasBit_and, Paging.hasBit_physAddrMask]
        by_cases hin : 12 ≤ i ∧ i < c.physAddrBits + 12
        · rw [hasBit_widenEntry (by omega) (by omega) (by omega)]
        · simp [hin]
    rw [Cpu.rawPtr, hmasked]
    exact h.rawPtr_eq

/-- An entry has at least the rights of another one: it may be written, is open to user programs and
may be executed where the other one is. -/
structure Widened (flags v : BitVec 64) : Prop where
  write : hasBit flags 1 = true → hasBit v 1 = true
  user : hasBit flags 2 = true → hasBit v 2 = true
  execute : hasBit flags 63 = false → hasBit v 63 = false

/-- What is written for an entry `old` of a level above the pages: it leads to the table that was
there, if there was one, and it has the rights of the flags and of the old entry. -/
structure Extends (c : Cpu) (old flags v : BitVec 64) (t : Nat) : Prop where
  child_eq : child v = some t
  reachable : PointsTo c v t ∨ (51 < c.physAddrBits ∧ 2 ^ 52 < c.rawPtr v)
  keeps : old ≠ 0 → child old = some t
  rights : Widened flags v
  widens : old ≠ 0 → Widened old v

/-- A new entry has the rights of its flags. -/
theorem widened_frame (haligned : f % 4096 = 0) (hlt : f < 2 ^ n) (hn : n ≤ 52)
    (flags : BitVec 64) : Widened flags (BitVec.ofNat 64 f ||| flags) := by
  refine ⟨fun h => by rw [hasBit_or, h, Bool.or_true], fun h => by rw [hasBit_or, h, Bool.or_true],
    fun h => ?_⟩
  rw [hasBit_or, h, hasBit_ofNat_frame_of_not haligned hlt (by omega), Bool.or_false]

/-- A widened entry has the rights of the flags and of the old one. -/
theorem widened_widenEntry (entry flags : BitVec 64) :
    Widened flags (widenEntry entry flags) ∧ Widened entry (widenEntry entry flags) := by
  have h1 : hasBit (widenEntry entry flags) 1 = (hasBit entry 1 || hasBit flags 1) := by
    cases he : hasBit entry 1 <;> cases hf : hasBit flags 1 <;>
      simp [widenEntry, apply_ite (hasBit · 1), he, hf]
  have h2 : hasBit (widenEntry entry flags) 2 = (hasBit entry 2 || hasBit flags 2) := by
    cases he : hasBit entry 2 <;> cases hf : hasBit flags 2 <;>
      simp [widenEntry, apply_ite (hasBit · 2), he, hf]
  have h63 : hasBit (widenEntry entry flags) 63 = (hasBit entry 63 && hasBit flags 63) := by
    cases he : hasBit entry 63 <;> cases hf : hasBit flags 63 <;>
      simp [widenEntry, apply_ite (hasBit · 63), he, hf]
  exact ⟨⟨fun h => by rw [h1, h, Bool.or_true], fun h => by rw [h2, h, Bool.or_true],
    fun h => by rw [h63, h, Bool.and_false]⟩, ⟨fun h => by rw [h1, h, Bool.true_or],
    fun h => by rw [h2, h, Bool.true_or], fun h => by rw [h63, h, Bool.false_and]⟩⟩

/-! ## The state of a walk -/

/-- A represented page map with its tables and its root among the frames in use, and an allocator
that is locked or has a pool of other frames. -/
structure Ready (c : Cpu) (cr3 : Nat) (R : Nat → Prop) (s : Pmm) (E : Entries) (used : Set Nat) :
    Prop where
  tree : Represents child s.mem cr3 R 3 E
  cr3_le : cr3 ≤ 2 ^ c.physAddrBits
  cr3_used : cr3 ∈ used
  live_used : ∀ t, Live child R 3 E t → t ∈ used
  pool : s.locked = true ∨
    (Pool (2 ^ c.physAddrBits) s used ∧ cr3 ≠ 0 ∧ ¬ Live child R 3 E 0)

/-- A byte that is neither in a table of the region, nor in an entry of the region in the root, nor
in physical page 0. -/
structure Outside (cr3 : Nat) (R : Nat → Prop) (E : Entries) (b : Nat) : Prop where
  ne_null : frameAt b ≠ 0
  not_live : ¬ Live child R 3 E (frameAt b)
  root : ∀ i, R i → b < cr3 + 8 * i ∨ cr3 + 8 * i + 8 ≤ b

/-- What the making of tables does to the rest of memory: the frames in use stay in use, none of
them becomes a table, and the bytes outside the page map stay as they are. -/
structure Grown (cr3 : Nat) (R : Nat → Prop) (s : Pmm) (E : Entries) (used : Set Nat) (s' : Pmm)
    (E' : Entries) (used' : Set Nat) : Prop where
  subset : used ⊆ used'
  live : ∀ t ∈ used, t ≠ 0 → Live child R 3 E' t → Live child R 3 E t
  mem : ∀ b, frameAt b ∈ used → Outside cr3 R E b → s'.mem b = s.mem b

section Walk

variable {c : Cpu} {cr3 d k t fuel : Nat} {R : Nat → Prop} {s s' s'' : Pmm} {E E' E'' : Entries}
  {used used' used'' : Set Nat} {v flags : BitVec 64}

theorem Grown.refl : Grown cr3 R s E used s E used :=
  ⟨subset_rfl, fun _ _ _ h => h, fun _ _ _ => rfl⟩

theorem Grown.trans (h : Grown cr3 R s E used s' E' used')
    (h' : Grown cr3 R s' E' used' s'' E'' used'') : Grown cr3 R s E used s'' E'' used'' := by
  refine ⟨h.subset.trans h'.subset, fun t ht hne hlive => ?_, fun b hb hout => ?_⟩
  · exact h.live t ht hne (h'.live t (h.subset ht) hne hlive)
  · have hout' : Outside cr3 R E' b :=
      ⟨hout.ne_null, fun hl => hout.not_live (h.live _ hb hout.ne_null hl), hout.root⟩
    rw [h'.mem b (h.subset hb) hout', h.mem b hb hout]

section

variable (h : Ready c cr3 R s E used)
include h

theorem Ready.tableOf_used (hd : d ≤ 3) (hk : R (k / 512 ^ d))
    (ht : tableOf child cr3 E d k = some t) : t ∈ used := by
  cases d with
  | zero =>
    cases ht
    exact h.cr3_used
  | succ d => exact h.live_used t (live_of_tableOf hd hk ht)

/-- The table of an entry is not physical page 0 unless the allocator is locked. -/
theorem Ready.tableOf_ne_zero (hd : d ≤ 3) (hk : R (k / 512 ^ d))
    (ht : tableOf child cr3 E d k = some t) : s.locked = true ∨ t ≠ 0 := by
  rcases h.pool with hlock | ⟨-, hcr3, hlive⟩
  · exact .inl hlock
  · right
    rintro rfl
    cases d with
    | zero =>
      cases ht
      exact hcr3 rfl
    | succ d => exact hlive (live_of_tableOf hd hk ht)

omit h in
/-- The bytes of an entry of the page map are not outside of it. -/
theorem Outside.store (h : Represents child s.mem cr3 R 3 E) (hd : d ≤ 3) (hk : R (k / 512 ^ d))
    (ht : tableOf child cr3 E d k = some t) {b : Nat} (hb : Outside cr3 R E b) (m : Memory) :
    m.store64 (t + 8 * (k % 512)) v b = m b := by
  refine store64_outside v ?_
  cases d with
  | zero =>
    cases ht
    simp only [Nat.pow_zero, Nat.div_one] at hk
    rw [Nat.mod_eq_of_lt (h.region_lt k hk)]
    exact hb.root k hk
  | succ d =>
    have hout := outside_of_frameAt_ne (h.tableOf_aligned hd hk ht) fun he =>
      hb.not_live (he ▸ live_of_tableOf hd hk ht)
    omega

/-- Writing an entry keeps a page map ready. -/
theorem Ready.store (hd : d ≤ 3) (hk : R (k / 512 ^ d)) (ht : tableOf child cr3 E d k = some t)
    (hr : Replaces child s.mem cr3 R 3 E d k v)
    (hchild : ∀ f, d < 3 → Fresh child s.mem cr3 R 3 E f → child v = some f →
      f ∈ used ∧ (s.locked = true ∨ f ≠ 0)) :
    Ready c cr3 R { s with mem := s.mem.store64 (t + 8 * (k % 512)) v } (set E d k v) used := by
  have haligned := h.tree.tableOf_aligned hd hk ht
  have hused := h.tableOf_used hd hk ht
  refine ⟨h.tree.store hd hk ht hr, h.cr3_le, h.cr3_used, fun t' hlive => ?_, ?_⟩
  · rcases live_set hr hk hlive with hlive | ⟨hdepth, hv, hfresh⟩
    · exact h.live_used t' hlive
    · exact (hchild t' hdepth hfresh hv).1
  · by_cases hlock : s.locked = true
    · exact .inl hlock
    obtain ⟨hpool, hcr3, hlive⟩ := h.pool.resolve_left hlock
    have hne := (h.tableOf_ne_zero hd hk ht).resolve_left hlock
    refine .inr ⟨hpool.congr (fun b hb => store64_outside v ?_) (fun b hb => ?_), hcr3,
      fun hzero => ?_⟩
    · have hout := outside_of_frameAt_ne haligned fun he => hb (he ▸ hused)
      omega
    · exact (store64_outside v (by omega)).trans (hpool.null b hb)
    · rcases live_set hr hk hzero with hold | ⟨hdepth, hv, hfresh⟩
      · exact hlive hold
      · exact ((hchild 0 hdepth hfresh hv).2.resolve_left hlock) rfl

/-- Writing a leaf entry keeps a page map ready and everything outside of it unchanged. -/
theorem Ready.storeLeaf (hk : R (k / 512 ^ 3))
    (ht : child (E 2 (k / 512)) = some t) (v : BitVec 64) :
    Ready c cr3 R { s with mem := s.mem.store64 (t + 8 * (k % 512)) v } (set E 3 k v) used ∧
      Grown cr3 R s E used { s with mem := s.mem.store64 (t + 8 * (k % 512)) v } (set E 3 k v)
        used := by
  have htable := ht
  refine ⟨h.store le_rfl hk htable (.leaf rfl) fun _ hlt => absurd hlt (lt_irrefl 3),
    subset_rfl, fun t' _ _ hlive => ?_, fun b _ hout => hout.store h.tree le_rfl hk htable _⟩
  obtain ⟨d, hd, k', hk', hchild⟩ := hlive
  rw [set_other (fun hn => by omega)] at hchild
  exact ⟨d, hd, k', hk', hchild⟩

/-- A frame the allocator supplies to a page map. -/
structure Supplied (c : Cpu) (cr3 : Nat) (R : Nat → Prop) (s : Pmm) (E : Entries) (used : Set Nat)
    (f : Nat) (s' : Pmm) : Prop where
  ready : Ready c cr3 R s' E (insert f used)
  aligned : f % 4096 = 0
  lt : f < 2 ^ c.physAddrBits
  new : f = 0 ∨ f ∉ used
  locked : f = 0 → s'.locked = true
  unlocked : f ≠ 0 → s'.locked = false
  head : f = 0 → s.memoryHead = 0
  ne_cr3 : f ≠ cr3
  not_live : ¬ Live child R 3 E f
  mem : ∀ b, frameAt b ∈ used → s'.mem b = s.mem b

/-- An allocation that returns supplies a frame; it is page 0 if there was none left. -/
theorem Ready.allocate {f : Nat} (hret : s.allocatePhysicalPage fuel 1 = some (f, s'))
    : Supplied c cr3 R s E used f s' := by
  obtain ⟨hunlocked, -, -⟩ := allocatePhysicalPage_returns hret
  obtain ⟨hpool, hcr3, hlive⟩ := h.pool.resolve_left (by simp [hunlocked])
  rcases hpool.allocate hret with ⟨hhead, rfl, rfl⟩ | ⟨haligned, hnew, hlt, hpool', hmem⟩
  · refine ⟨⟨h.tree, h.cr3_le, Set.mem_insert_of_mem _ h.cr3_used, fun t ht =>
      Set.mem_insert_of_mem _ (h.live_used t ht), .inl rfl⟩, rfl, Nat.two_pow_pos _, .inl rfl,
      fun _ => rfl, fun hn => absurd rfl hn, fun _ => hhead, fun he => hcr3 he.symm, hlive,
      fun _ _ => rfl⟩
  · have hne : f ≠ 0 := by
      rintro rfl
      exact hnew hpool.null_used
    have htree : Represents child s'.mem cr3 R 3 E := by
      have hframe {t : Nat} (ht : t ∈ used) (haligned : t % 4096 = 0) :
          Memory.SameOn s.mem s'.mem t (t + 4096) := by
        intro b hlo hhi
        exact hmem b (frameAt_eq haligned hlo hhi ▸ ht)
      refine h.tree.congr (fun i hi => ?_) fun t ht => hframe (h.live_used t ht)
        (h.tree.aligned t ht)
      have := h.tree.region_lt i hi
      exact load64_congr ((hframe h.cr3_used h.tree.root_aligned).mono (by omega) (by omega))
    exact ⟨⟨htree, h.cr3_le, Set.mem_insert_of_mem _ h.cr3_used, fun t ht =>
      Set.mem_insert_of_mem _ (h.live_used t ht), .inr ⟨hpool', hcr3, hlive⟩⟩, haligned, hlt,
      .inr hnew, fun he => absurd he hne, fun _ => hpool'.unlocked, fun he => absurd he hne,
      fun he => hnew (he ▸ h.cr3_used),
      fun hl => hnew (h.live_used f hl), hmem⟩

/-- A frame in use that is not a table may be cleared, page 0 only while the allocator is locked;
it can then be made a table. -/
theorem Ready.clear {f : Nat} (hf : f ∈ used) (haligned : f % 4096 = 0) (hcr3 : f ≠ cr3)
    (hlive : ¬ Live child R 3 E f) (hlocked : f = 0 → s.locked = true) :
    Ready c cr3 R { s with mem := s.mem.fill f 4096 0 } E used ∧
      Fresh child (s.mem.fill f 4096 0) cr3 R 3 E f := by
  have hroot := h.tree.root_aligned
  have htree : Represents child (s.mem.fill f 4096 0) cr3 R 3 E := by
    refine h.tree.congr (fun i hi => ?_) fun t ht => ?_
    · have := h.tree.region_lt i hi
      exact load64_fill_other 0 (by omega)
    · have hne : t ≠ f := by
        rintro rfl
        exact hlive ht
      have := h.tree.aligned t ht
      exact sameOn_fill 0 (by omega)
  refine ⟨⟨htree, h.cr3_le, h.cr3_used, h.live_used, ?_⟩, haligned, hcr3, hlive, fun i hi =>
    load64_fill_zero (by omega) (by omega)⟩
  by_cases hlock : s.locked = true
  · exact .inl hlock
  obtain ⟨hpool, hne, hzero⟩ := h.pool.resolve_left hlock
  have hf0 : f ≠ 0 := fun he => hlock (hlocked he)
  refine .inr ⟨hpool.congr (fun b hb => fill_outside 0 ?_) (fun b hb => ?_), hne, hzero⟩
  · exact outside_of_frameAt_ne haligned fun he => hb (he ▸ hf)
  · exact (fill_outside 0 (by omega)).trans (hpool.null b hb)

end

variable {entryAt : Memory → BitVec 64} {tableAt : Memory → Nat} {address t0 index : Nat}
    {m : Memory} {t1 : Nat}

/-- What one level of the walk does: it writes the entry of the level, which then points at a
table, at the same one if it did before, and else at the frame it was given. -/
theorem allocateTable_spec (hc : c.physAddrBits ≤ 52) (h : Ready c cr3 R s E used) (hd : d < 3)
    (hk : R (k / 512 ^ d)) (hclean : Clean c d (E d k)) (hflags : TableFlags flags)
    (hread : ∀ m, Represents child m cr3 R 3 E →
      entryAt m = E d k ∧ tableOf child cr3 E d k = some (tableAt m))
    (hret : allocateTable fuel s entryAt tableAt (k % 512) flags = some s') :
    ∃ v t used', Ready c cr3 R s' (set E d k v) used' ∧
      Grown cr3 R s E used s' (set E d k v) used' ∧ Extends c (E d k) flags v t ∧
      (E d k = 0 → ∃ s1, s.allocatePhysicalPage fuel 1 = some (t, s1)) := by
  have hentry := (hread s.mem h.tree).1
  unfold allocateTable at hret
  rw [hentry] at hret
  by_cases hzero : E d k = 0
  · rw [if_pos hzero, bind_eq_some_iff] at hret
    obtain ⟨⟨f, s1⟩, halloc, hstore⟩ := hret
    simp only at hstore
    split at hstore
    · cases hstore
    cases hstore
    have hsup := h.allocate halloc
    obtain ⟨-, htable⟩ := hread s1.mem hsup.ready.tree
    have hchild := child_frame hc hsup.aligned hsup.lt hflags
    have hextends : Extends c (E d k) flags (BitVec.ofNat 64 f ||| flags) f :=
      ⟨hchild, pointsTo_frame_or hc hsup.aligned hsup.lt hflags,
        fun hn => absurd hzero hn, widened_frame hsup.aligned hsup.lt hc flags,
        fun hn => absurd hzero hn⟩
    obtain ⟨hready, hfresh⟩ := hsup.ready.clear (Set.mem_insert f used) hsup.aligned hsup.ne_cr3
      hsup.not_live hsup.locked
    have hbelow : ∀ k', k' / 512 = k → E (d + 1) k' = 0 := by
      rintro k' rfl
      refine h.tree.zero_of_none hd (by rwa [← div_path]) ?_
      rw [hzero, child_zero]
    -- the entry is written before the new table is cleared, but the two do not overlap
    have haligned := h.tree.tableOf_aligned (by omega) hk htable
    have hne : tableAt s1.mem ≠ f := by
      rintro heq
      cases d with
      | zero =>
        cases htable
        exact hsup.ne_cr3 heq.symm
      | succ d => exact hsup.not_live (heq ▸ live_of_tableOf (by omega) hk htable)
    have hfa := hsup.aligned
    have hswap := fill_store64_comm (m := s1.mem) (v := BitVec.ofNat 64 f ||| flags)
      (w := 0) (n := 4096) (a := tableAt s1.mem + 8 * (k % 512)) (b := f) (by omega)
    have hr : Replaces child (s1.mem.fill f 4096 0) cr3 R 3 E d k (BitVec.ofNat 64 f ||| flags) :=
      .fresh f hbelow hchild hfresh
    refine ⟨_, f, insert f used, ?_, ⟨Set.subset_insert f used, fun t ht hne0 hlive => ?_,
      fun b hb hout => ?_⟩, hextends, fun _ => ⟨s1, halloc⟩⟩
    · simp only [hswap]
      refine hready.store (by omega) hk htable hr fun f' _ _ hf' => ?_
      obtain rfl : f = f' := some_inj.1 (hchild.symm.trans hf')
      refine ⟨Set.mem_insert f used, ?_⟩
      by_cases hf0 : f = 0
      · exact .inl (hsup.locked hf0)
      · exact .inr hf0
    · rcases live_set hr hk hlive with hold | ⟨-, hv, -⟩
      · exact hold
      · obtain rfl : f = t := some_inj.1 (hchild.symm.trans hv)
        exact absurd ht (hsup.new.resolve_left hne0)
    · have hbf : frameAt b ≠ f := by
        rintro rfl
        exact hsup.new.elim hout.ne_null fun hn => hn hb
      have hfill := outside_of_frameAt_ne hfa hbf
      simp only [hswap]
      rw [hout.store h.tree (by omega) hk htable, fill_outside 0 hfill, hsup.mem b hb]
  · rw [if_neg hzero] at hret
    cases hret
    obtain ⟨-, htable⟩ := hread s.mem h.tree
    obtain ⟨t, hpoints, -⟩ := hclean.resolve_left hzero
    have hwide := hpoints.widenEntry hc flags
    have hsame : child (widenEntry (E d k) flags) = child (E d k) := by
      rw [hwide.child_eq, hpoints.child_eq]
    have hr : Replaces child s.mem cr3 R 3 E d k (widenEntry (E d k) flags) := .same hsame
    have holdlive : ∀ t', Live child R 3 (set E d k (widenEntry (E d k) flags)) t' →
        Live child R 3 E t' := by
      intro t' hlive
      rcases live_set hr hk hlive with hold | ⟨-, hv, -⟩
      · exact hold
      · exact ⟨d, hd, k, hk, hsame ▸ hv⟩
    refine ⟨_, t, used, ?_, ⟨subset_rfl, fun t' _ _ hlive => holdlive t' hlive,
      fun b _ hout => hout.store h.tree (by omega) hk htable _⟩, ⟨hwide.child_eq, .inl hwide,
      fun _ => hpoints.child_eq, (widened_widenEntry _ _).1, fun _ => (widened_widenEntry _ _).2⟩,
      fun hn => absurd hn hzero⟩
    refine h.store (by omega) hk htable hr fun f _ hfresh hf => ?_
    exact absurd ⟨d, hd, k, hk, hsame ▸ hf⟩ hfresh.not_live

theorem allocateTable_locked (hlock : s.locked = true) (hentry : entryAt s.mem = 0) :
    allocateTable fuel s entryAt tableAt index flags = none := by
  unfold allocateTable Pmm.allocatePhysicalPage
  rw [if_pos hentry, if_pos (.inr hlock), bind_none]

/-- A level that is passed while the allocator is locked leaves it locked, and had its table. -/
theorem allocateTable_keeps_lock (hlock : s.locked = true)
    (hret : allocateTable fuel s entryAt tableAt index flags = some s') :
    entryAt s.mem ≠ 0 ∧ s'.locked = true := by
  by_cases hentry : entryAt s.mem = 0
  · rw [allocateTable_locked hlock hentry] at hret
    cases hret
  · rw [allocateTable, if_neg hentry] at hret
    cases hret
    exact ⟨hentry, hlock⟩

/-- An entry above the leaves that was made, or whose rights were extended: it points at a table,
and at the same one if it did before. -/
def KeepsTable (c : Cpu) (d : Nat) (e e' : BitVec 64) : Prop :=
  ∃ t, PointsTo c e' t ∧ (d < 2 → t ≠ 0) ∧ (e ≠ 0 → child e = some t)

section

variable {e e' : BitVec 64} (h : e' = e ∨ KeepsTable c d e e')
include h

theorem clean_of_keepsTable (hclean : Clean c d e) : Clean c d e' := by
  rcases h with rfl | ⟨t, hpoints, hne, -⟩
  · exact hclean
  · exact .inr ⟨t, hpoints, hne⟩

/-- An entry that is not zero keeps its table. -/
theorem child_eq_of_keepsTable (hne : e ≠ 0) : e' ≠ 0 ∧ child e' = child e := by
  rcases h with rfl | ⟨t, hpoints, -, hkeep⟩
  · exact ⟨hne, rfl⟩
  · exact ⟨hpoints.ne_zero, by rw [hpoints.child_eq, hkeep hne]⟩

end

/-- What the walk for the page `page` does to the contents of the page map: only the entries on its
path may change, and they keep their tables. -/
structure Walked (c : Cpu) (E E' : Entries) (page : Nat) : Prop where
  leaf : ∀ k, E' 3 k = E 3 k
  other : ∀ d < 3, ∀ k, k ≠ page / 512 ^ (3 - d) → E' d k = E d k
  path : ∀ d < 3, KeepsTable c d (E d (page / 512 ^ (3 - d))) (E' d (page / 512 ^ (3 - d)))

theorem Walked.keep {page : Nat} (h : Walked c E E' page) (hd : d < 3) :
    E' d k = E d k ∨ KeepsTable c d (E d k) (E' d k) := by
  by_cases hk : k = page / 512 ^ (3 - d)
  · exact .inr (hk ▸ h.path d hd)
  · exact .inl (h.other d hd k hk)

/-- What the walk with the given flags does to the rights on the path: they are extended to those of
the flags. -/
structure Opened (c : Cpu) (E E' : Entries) (page : Nat) (flags : BitVec 64) : Prop extends
    Walked c E E' page where
  rights : ∀ d < 3, Widened flags (E' d (page / 512 ^ (3 - d)))
  widens : ∀ d < 3, E d (page / 512 ^ (3 - d)) ≠ 0 →
    Widened (E d (page / 512 ^ (3 - d))) (E' d (page / 512 ^ (3 - d)))

theorem Ready.locked_of_null (h : Ready c cr3 R s E used) (hd : d < 3) (hk : R (k / 512 ^ d))
    (hchild : child (E d k) = some 0) : s.locked = true := by
  by_contra hlock
  obtain ⟨-, -, hlive⟩ := h.pool.resolve_left hlock
  exact hlive ⟨d, hd, k, hk, hchild⟩

/-- A table the next level passed can be used. -/
theorem Ready.table_usable {v : BitVec 64} (h : Ready c cr3 R s (set E d k v) used)
    (hc : c.physAddrBits ≤ 52) (hd : d < 3) (hk : R (k / 512 ^ d))
    (hext : Extends c (E d k) flags v t)
    (hget : ∀ m, Represents child m cr3 R 3 (set E d k v) → entryAt m = v)
    (hret : allocateTable fuel s (fun m => nextEntry c m (entryAt m) i)
      (fun m => c.rawPtr (entryAt m)) index flags = some s') : PointsTo c v t ∧ t ≠ 0 := by
  have hpow : 2 ^ c.physAddrBits ≤ 2 ^ 52 := Nat.pow_le_pow_right (by decide) hc
  -- below an entry the kernel does not follow it reads 0
  have hnext (hraw : c.rawPtr v = 0 ∨ 2 ^ 52 < c.rawPtr v) :
      nextEntry c s.mem (entryAt s.mem) i = 0 := by
    rw [hget _ h.tree]
    exact if_pos (hraw.imp_right hpow.trans_lt)
  have hpoints : PointsTo c v t := by
    refine hext.reachable.resolve_right fun ⟨_, hraw⟩ => ?_
    rw [allocateTable, if_pos (hnext (.inr hraw)), bind_eq_some_iff] at hret
    obtain ⟨⟨f, s1⟩, halloc, hstore⟩ := hret
    simp only [hget _ (h.allocate halloc).ready.tree, if_pos hraw] at hstore
    cases hstore
  refine ⟨hpoints, ?_⟩
  rintro rfl
  have hlock := h.locked_of_null hd hk (by rw [set_same, hpoints.child_eq])
  rw [allocateTable_locked hlock (hnext (.inl hpoints.rawPtr_eq))] at hret
  cases hret

/-- The entry and the table of the second level, below a table the kernel can use. -/
theorem getL3PageMapEntryAt_reads (hm : Represents child m cr3 R 3 E)
    (hcr3 : cr3 ≤ 2 ^ c.physAddrBits) (hR : R (key address / 512 ^ 3))
    (h0 : PointsTo c (E 0 (key address / 512 ^ 3)) t0) (hne0 : t0 ≠ 0) :
    getL3PageMapEntryAt c m cr3 address = E 1 (key address / 512 ^ 2) ∧
      tableOf child cr3 E 1 (key address / 512 ^ 2) =
        some (c.rawPtr (getL4PageMapEntryAt c m cr3 address)) := by
  refine ⟨getL3PageMapEntryAt_eq hm hcr3 hR (.inr ⟨t0, h0, fun _ => hne0⟩), ?_⟩
  rw [tableOf, show key address / 512 ^ 2 / 512 = key address / 512 ^ 3 by omega,
    getL4PageMapEntryAt_eq hm hcr3 hR, h0.child_eq, h0.rawPtr_eq]

/-- The entry and the table of the third level, below two tables the kernel can use. -/
theorem getL2PageMapEntryAt_reads (hm : Represents child m cr3 R 3 E)
    (hcr3 : cr3 ≤ 2 ^ c.physAddrBits) (hR : R (key address / 512 ^ 3))
    (h0 : PointsTo c (E 0 (key address / 512 ^ 3)) t0) (hne0 : t0 ≠ 0)
    (h1 : PointsTo c (E 1 (key address / 512 ^ 2)) t1) (hne1 : t1 ≠ 0) :
    getL2PageMapEntryAt c m cr3 address = E 2 (key address / 512) ∧
      tableOf child cr3 E 2 (key address / 512) =
        some (c.rawPtr (getL3PageMapEntryAt c m cr3 address)) := by
  obtain ⟨hget, -⟩ := getL3PageMapEntryAt_reads hm hcr3 hR h0 hne0
  refine ⟨getL2PageMapEntryAt_eq hm hcr3 hR (.inr ⟨t0, h0, fun _ => hne0⟩)
    (.inr ⟨t1, h1, fun _ => hne1⟩), ?_⟩
  rw [tableOf, show key address / 512 / 512 = key address / 512 ^ 2 by omega, hget, h1.child_eq,
    h1.rawPtr_eq]

/-- The contents after the entries of the three levels were written. -/
def setPath (E : Entries) (page : Nat) (v0 v1 v2 : BitVec 64) : Entries :=
  set (set (set E 0 (page / 512 ^ 3) v0) 1 (page / 512 ^ 2) v1) 2 (page / 512) v2

section SetPath

variable {page t0 t1 t2 : Nat} {v0 v1 v2 : BitVec 64}

theorem setPath_zero : setPath E page v0 v1 v2 0 (page / 512 ^ 3) = v0 :=
  (set_other (by omega)).trans ((set_other (by omega)).trans set_same)

theorem setPath_one : setPath E page v0 v1 v2 1 (page / 512 ^ 2) = v1 :=
  (set_other (by omega)).trans set_same

theorem setPath_two : setPath E page v0 v1 v2 2 (page / 512) = v2 := set_same

theorem forall_setPath {P : Nat → BitVec 64 → BitVec 64 → Prop} (h0 : P 0 (E 0 (page / 512 ^ 3)) v0)
    (h1 : P 1 (E 1 (page / 512 ^ 2)) v1) (h2 : P 2 (E 2 (page / 512)) v2) (d : Nat) (hd : d < 3) :
    P d (E d (page / 512 ^ (3 - d))) (setPath E page v0 v1 v2 d (page / 512 ^ (3 - d))) := by
  match d, hd with
  | 0, _ => rwa [show (3 - 0 : Nat) = 3 from rfl, setPath_zero]
  | 1, _ => rwa [show (3 - 1 : Nat) = 2 from rfl, setPath_one]
  | 2, _ => rwa [show (3 - 2 : Nat) = 1 from rfl, Nat.pow_one, setPath_two]

/-- Entries for tables, written on the path of a page. -/
theorem Walked.setPath (h₀ : PointsTo c v0 t0) (hne0 : t0 ≠ 0) (h₁ : PointsTo c v1 t1)
    (hne1 : t1 ≠ 0) (h₂ : PointsTo c v2 t2)
    (hkeep0 : E 0 (page / 512 ^ 3) ≠ 0 → child (E 0 (page / 512 ^ 3)) = some t0)
    (hkeep1 : E 1 (page / 512 ^ 2) ≠ 0 → child (E 1 (page / 512 ^ 2)) = some t1)
    (hkeep2 : E 2 (page / 512) ≠ 0 → child (E 2 (page / 512)) = some t2) :
    Walked c E (setPath E page v0 v1 v2) page := by
  refine ⟨fun k => ?_, ?_, ?_⟩
  · rw [Paging.setPath, set_other (by omega), set_other (by omega), set_other (by omega)]
  · intro d hd k hk
    have h0 : d = 0 → k ≠ page / 512 ^ 3 := by rintro rfl; exact hk
    have h1 : d = 1 → k ≠ page / 512 ^ 2 := by rintro rfl; exact hk
    have h2 : d = 2 → k ≠ page / 512 := by rintro rfl; simpa using hk
    rw [Paging.setPath, set_other fun hn => h2 hn.1 hn.2, set_other fun hn => h1 hn.1 hn.2,
      set_other fun hn => h0 hn.1 hn.2]
  · exact forall_setPath (P := fun d e v => ∃ t, PointsTo c v t ∧ (d < 2 → t ≠ 0) ∧
      (e ≠ 0 → child e = some t)) ⟨t0, h₀, fun _ => hne0, hkeep0⟩ ⟨t1, h₁, fun _ => hne1, hkeep1⟩
      ⟨t2, h₂, fun hlt => absurd hlt (by decide), hkeep2⟩

end SetPath

/-- The entry of the third level after entries for tables were written on the path. -/
theorem getL2PageMapEntryAt_setPath {v0 v1 v2 : BitVec 64}
    (hm : Represents child m cr3 R 3 (setPath E (key address) v0 v1 v2))
    (hcr3 : cr3 ≤ 2 ^ c.physAddrBits) (hR : R (key address / 512 ^ 3)) (h0 : PointsTo c v0 t0)
    (hne0 : t0 ≠ 0) (h1 : PointsTo c v1 t1) (hne1 : t1 ≠ 0) :
    getL2PageMapEntryAt c m cr3 address = v2 := by
  have hread := getL2PageMapEntryAt_reads hm hcr3 hR (by rwa [setPath_zero]) hne0
    (by rwa [setPath_one]) hne1
  rw [hread.1, setPath_two]

/-- The rights on the path after entries were written on it. -/
theorem Opened.setPath {page t2 : Nat} {v0 v1 v2 : BitVec 64}
    (h0 : Extends c (E 0 (page / 512 ^ 3)) flags v0 t0) (hp0 : PointsTo c v0 t0) (hne0 : t0 ≠ 0)
    (h1 : Extends c (E 1 (page / 512 ^ 2)) flags v1 t1) (hp1 : PointsTo c v1 t1) (hne1 : t1 ≠ 0)
    (h2 : Extends c (E 2 (page / 512)) flags v2 t2) (hp2 : PointsTo c v2 t2) :
    Opened c E (setPath E page v0 v1 v2) page flags := by
  refine ⟨.setPath hp0 hne0 hp1 hne1 hp2 h0.keeps h1.keeps h2.keeps, ?_, ?_⟩
  · exact forall_setPath (P := fun _ _ v => Widened flags v) h0.rights h1.rights h2.rights
  · exact forall_setPath (P := fun _ e v => e ≠ 0 → Widened e v) h0.widens h1.widens h2.widens

/-- What `allocatePagingStructures` does if it returns. -/
theorem allocatePagingStructures_spec (hc : c.physAddrBits ≤ 52) (h : Ready c cr3 R s E used)
    (hR : R (key address / 512 ^ 3)) (hclean : CleanPath c E (key address))
    (hflags : TableFlags flags)
    (hret : allocatePagingStructures c fuel s cr3 address flags = some (t, s')) :
    ∃ E' used', Ready c cr3 R s' E' used' ∧ Grown cr3 R s E used s' E' used' ∧
      Opened c E E' (key address) flags ∧ child (E' 2 (key address / 512)) = some t ∧
      (s.locked = true → E 2 (key address / 512) ≠ 0) := by
  set K := key address with hK
  obtain ⟨hR0, hR1, hR2⟩ := region_levels hR
  unfold allocatePagingStructures at hret
  rw [addressToIndex_three, addressToIndex_two, addressToIndex_one] at hret
  simp only [bind, bind_eq_some_iff] at hret
  obtain ⟨s0, hret0, s1, hret1, s2, hret2, hlast⟩ := hret
  -- the first level
  obtain ⟨v0, t0, used0, hready0, hgrown0, hext0, -⟩ := allocateTable_spec hc h
    (by decide) hR0 (hclean 0 (by decide)) hflags
    (fun m hm => ⟨getL4PageMapEntryAt_eq hm h.cr3_le hR, rfl⟩) hret0
  set E0 := set E 0 (K / 512 ^ 3) v0 with hE0
  obtain ⟨hpoints0, hne0⟩ := hready0.table_usable hc (by decide) hR0 hext0
    (fun m hm => by rw [getL4PageMapEntryAt_eq hm h.cr3_le hR, set_same]) hret1
  -- the second level
  have hE00 : PointsTo c (E0 0 (K / 512 ^ 3)) t0 := by rwa [hE0, set_same]
  have hE01 : E0 1 (K / 512 ^ 2) = E 1 (K / 512 ^ 2) := set_other (by omega)
  obtain ⟨v1, t1, used1, hready1, hgrown1, hext1, -⟩ := allocateTable_spec hc hready0
    (by decide) hR1 (by rw [hE01]; exact hclean 1 (by decide)) hflags
    (fun m hm => getL3PageMapEntryAt_reads hm h.cr3_le hR hE00 hne0) hret1
  set E1 := set E0 1 (K / 512 ^ 2) v1 with hE1
  have hE10 : PointsTo c (E1 0 (K / 512 ^ 3)) t0 := by rwa [hE1, set_other (by omega)]
  obtain ⟨hpoints1, hne1⟩ := hready1.table_usable hc (by decide) hR1 hext1
    (fun m hm => by rw [(getL3PageMapEntryAt_reads hm h.cr3_le hR hE10 hne0).1, set_same]) hret2
  have hE11 : PointsTo c (E1 1 (K / 512 ^ 2)) t1 := by rwa [hE1, set_same]
  -- the third level
  have hE12 : E1 2 (K / 512) = E 2 (K / 512) :=
    (set_other (by omega)).trans (set_other (by omega))
  obtain ⟨v2, t2, used2, hready2, hgrown2, hext2, -⟩ := allocateTable_spec hc hready1
    (by decide) hR2 (by rw [hE12]; simpa using hclean 2 (by decide)) hflags
    (fun m hm => getL2PageMapEntryAt_reads hm h.cr3_le hR hE10 hne0 hE11 hne1) hret2
  have hget2 := getL2PageMapEntryAt_setPath hready2.tree h.cr3_le hR hpoints0 hne0 hpoints1 hne1
  rw [hget2] at hlast
  have hpoints2 : PointsTo c v2 t2 := by
    refine hext2.reachable.resolve_right fun ⟨_, hraw⟩ => ?_
    rw [if_pos hraw] at hlast
    cases hlast
  have hle2 : ¬ 2 ^ 52 < c.rawPtr v2 := by
    rw [hpoints2.rawPtr_eq]
    exact (hpoints2.lt.trans_le (Nat.pow_le_pow_right (by decide) hc)).not_gt
  rw [if_neg hle2, some.injEq] at hlast
  obtain ⟨rfl, rfl⟩ := hlast
  refine ⟨setPath E K v0 v1 v2, used2, hready2, (hgrown0.trans hgrown1).trans hgrown2,
    .setPath hext0 hpoints0 hne0 hext1 hpoints1 hne1 hext2 hpoints2, ?_, fun hlock => ?_⟩
  · rw [setPath_two, hpoints2.child_eq, hpoints2.rawPtr_eq]
  · have hlock0 := (allocateTable_keeps_lock hlock hret0).2
    have hlock1 := (allocateTable_keeps_lock hlock0 hret1).2
    have hne := (allocateTable_keeps_lock hlock1 hret2).1
    rwa [(getL2PageMapEntryAt_reads hready1.tree h.cr3_le hR hE10 hne0 hE11 hne1).1, ← hK,
      hE12] at hne

end Walk

/-! ## A small page map -/

/-- A page map at `0x1000` with a table on each level, in which no page is mapped. -/
def threeTables : Memory :=
  ((Memory.store64 (fun _ => 0) 0x1000 0x2007).store64 0x2000 0x3007).store64 0x3000 0x4007

/-- The words of the page map with three tables and one page. -/
def onePageWords (page : Nat) (leaf : BitVec 64) : List (Nat × BitVec 64) :=
  [(0x1000, 0x2007), (0x2000, 0x3007), (0x3000, 0x4007), (0x4000 + 8 * page, leaf)]

/-- Its entries. -/
def onePageSurvey (page : Nat) (leaf : BitVec 64) : List (Nat × Nat × BitVec 64) :=
  [(0, 0, 0x2007), (1, 0, 0x3007), (2, 0, 0x4007), (3, page, leaf)]

/-- A page map with one page is represented, has three tables below the root, and the entries for
them are clean. There are zeros in front of it. -/
theorem onePage_spec {words : List (Nat × BitVec 64)} {R : Nat → Prop} {page : Nat}
    {leaf : BitVec 64} (h : Surveyed child words 0x1000 R 3 (onePageSurvey page leaf))
    (hR : ∀ i, R i → i < 512) :
    Represents child (.ofWords words) 0x1000 R 3 (entries child (.ofWords words) 0x1000) ∧
    (∀ b < 0x1000, Memory.ofWords words b = 0) ∧
    (∀ t, Live child R 3 (entries child (.ofWords words) 0x1000) t →
      t = 0x2000 ∨ t = 0x3000 ∨ t = 0x4000) ∧
    (∀ d < 3, ∀ k, R (k / 512 ^ d) →
      Clean smallCpu d (entries child (.ofWords words) 0x1000 d k) ∧
      (entries child (.ofWords words) 0x1000 d k ≠ 0 → k = 0)) ∧
    ∀ k, R (k / 512 ^ 3) → entries child (.ofWords words) 0x1000 3 k = 0 ∨
      k = page ∧ entries child (.ofWords words) 0x1000 3 k = leaf := by
  have hentry {d k : Nat} (hd : d ≤ 3) (hk : R (k / 512 ^ d)) :=
    or_iff_not_imp_left.2 (h.mem child_zero hR d hd k hk)
  simp only [onePageSurvey, List.mem_cons, List.not_mem_nil, or_false, Prod.mk.injEq] at hentry
  refine ⟨h.represents child_zero hR, fun b => ofWords_eq_zero fun w hw => (h.2.1 w hw).2,
    fun t ht => ?_, fun d hd k hk => ?_, fun k hk => ?_⟩
  · have hmem : t ∈ [0x2000, 0x3000, 0x4000] := h.live child_zero hR ht
    simpa using hmem
  · rcases hentry hd.le hk with he | ⟨rfl, rfl, he⟩ | ⟨rfl, rfl, he⟩ | ⟨rfl, rfl, he⟩ | ⟨rfl, -⟩
    · exact ⟨.inl he, fun hne => absurd he hne⟩
    · exact ⟨he ▸ .inr ⟨0x2000, ⟨by decide, by decide, by decide⟩, by decide⟩, fun _ => rfl⟩
    · exact ⟨he ▸ .inr ⟨0x3000, ⟨by decide, by decide, by decide⟩, by decide⟩, fun _ => rfl⟩
    · exact ⟨he ▸ .inr ⟨0x4000, ⟨by decide, by decide, by decide⟩, by decide⟩, fun _ => rfl⟩
    · omega
  · rcases hentry le_rfl hk with he | ⟨h0, -⟩ | ⟨h1, -⟩ | ⟨h2, -⟩ | ⟨-, he⟩
    · exact .inl he
    · omega
    · omega
    · omega
    · exact .inr he

/-- The page map with one page, and an allocator without free frames. -/
def onePage : Pmm := ⟨onePageMapped, 0, 0, 1, false, true⟩

theorem surveyed_onePageMapped :
    Surveyed child (onePageWords 5 0x9007) 0x1000 (· < 512) 3 (onePageSurvey 5 0x9007) := by
  decide

/-- The page map is ready, whatever frames count as used besides. -/
theorem ready_onePage :
    Ready smallCpu 0x1000 (· < 512) onePage (entries child onePage.mem 0x1000) Set.univ := by
  obtain ⟨htree, hnull, htables, -⟩ := onePage_spec surveyed_onePageMapped fun _ h => h
  refine ⟨htree, by decide, trivial, fun _ _ => trivial,
    .inr ⟨⟨rfl, ?_, trivial, hnull⟩, by decide, fun hlive => ?_⟩⟩
  · exact ⟨[], ⟨⟨by simp [DList.Adjacent, onePage, Pmm.list], by simp, by simp⟩, by simp, by simp,
      by simp⟩, by simp [freePages], by simp [freePages]⟩
  · have := htables 0 hlive
    omega

end Obos.Paging
