import Obos.Lib.TablePrune
import Obos.Paging.Protect

/-!
# Unmapping pages

`VirtualFree` accepts a range if one of its pages is mapped. For every page the
loop visits it gives the frame back to the physical allocator, clears the entry,
and takes out the tables that become empty. The frames given back are collected
in `Unmapping.freed`.

What is left of a page map is what `Lib.TableTree.pruned` says. `Held` is the
state between two writes; the order in which the source gives a table back and
clears the entry above it does not matter, as the two writes do not overlap
(`release_write_comm`).
-/

namespace Obos.Paging

open Lib Lib.TableTree Physical List Memory

/-! ## The program -/

/-- The allocator, and the frames given to `freePhysicalPage` so far. -/
structure Unmapping where
  pmm : Pmm
  freed : List Nat

namespace Unmapping

/-- Write an entry. -/
def write (u : Unmapping) (a : Nat) (v : BitVec 64) : Unmapping :=
  { u with pmm := { u.pmm with mem := u.pmm.mem.store64 a v } }

/-- Call `freePhysicalPage` for one page. -/
def release (u : Unmapping) (addr : Nat) : Option Unmapping :=
  (u.pmm.freePhysicalPage addr 1).map fun s => ⟨s, u.freed ++ [addr]⟩

end Unmapping

open Unmapping (release write)

/-- `utils::memcmp(page, 0, 4096)`. -/
def isZeroPage (m : Memory) (page : Nat) : Bool := (List.range 4096).all fun i => m (page + i) == 0

/-- `freePagingStructures`. -/
def freePagingStructures (c : Cpu) (u : Unmapping) (pageMapPhys cr3 addr : Nat) :
    Option Unmapping :=
  if isZeroPage u.pmm.mem pageMapPhys then
    (u.release pageMapPhys).bind fun u =>
      let pageMap2Phys := c.rawPtr (getL3PageMapEntryAt c u.pmm.mem cr3 addr)
      let u := u.write (pageMap2Phys + 8 * addressToIndex addr 1) 0
      if isZeroPage u.pmm.mem pageMap2Phys then
        (u.release pageMap2Phys).bind fun u =>
          let pageMap3Phys := c.rawPtr (getL4PageMapEntryAt c u.pmm.mem cr3 addr)
          let u := u.write (pageMap3Phys + 8 * addressToIndex addr 2) 0
          if isZeroPage u.pmm.mem pageMap3Phys then
            -- on this level the entry is cleared before the table is given back
            (u.write (cr3 + 8 * addressToIndex addr 3) 0).release pageMap3Phys
          else some u
      else some u
  else some u

/-- Whether an entry has a frame of its own: it is neither demand-paged nor an uncommitted page of a
mapped file. -/
def committed (entry : BitVec 64) : Bool := !hasBit entry 9 && !hasBit entry 10

/-- The body of the loop of `_Impl_ProcVirtualFree`. -/
def freePage (c : Cpu) (cr3 : Nat) (u : Unmapping) (addr : Nat) : Option Unmapping :=
  let pageMapPhys := c.rawPtr (getL2PageMapEntryAt c u.pmm.mem cr3 addr)
  let entry := u.pmm.mem.load64 (pageMapPhys + 8 * addressToIndex addr 0)
  (if committed entry then u.release (c.rawPtr entry) else some u).bind fun u =>
    freePagingStructures c (u.write (pageMapPhys + 8 * addressToIndex addr 0) 0) pageMapPhys cr3
      addr

/-- `_Impl_ProcVirtualFree`. -/
def procVirtualFree (c : Cpu) (s : Pmm) (proc : Process) (base nPages : Nat) :
    Option (Except Error Unmapping) :=
  if !isValidAddress base then some (.error .invalidParameter)
  else if 0xffff800000000000 < base && proc.isUsermode then some (.error .accessDenied)
  else if canAllocatePages c s.mem proc.cr3 base nPages then some (.error .addressUnmapped)
  else ((pagesFrom (pageOf base) nPages).foldlM (freePage c proc.cr3) ⟨s, []⟩).map .ok

/-- `VirtualAllocator::VirtualFree`. -/
def virtualFree (c : Cpu) (s : Pmm) (proc : Process) (base size : Nat) :
    Option (Except Error Unmapping) :=
  if pageOf base = 0 then some (.error .invalidParameter)
  else procVirtualFree c s proc (pageOf base) (sizeToPages size)

/-- A call succeeds if it passes the checks and its loop ends. -/
theorem virtualFree_eq_ok {c : Cpu} {s : Pmm} {proc : Process} {base size : Nat}
    {u : Unmapping} : virtualFree c s proc base size = some (.ok u) ↔
      pageOf base ≠ 0 ∧ isValidAddress (pageOf base) = true ∧
        ¬ (decide (0xffff800000000000 < pageOf base) && proc.isUsermode) = true ∧
        ¬ canAllocatePages c s.mem proc.cr3 (pageOf base) (sizeToPages size) = true ∧
        (pagesFrom (pageOf base) (sizeToPages size)).foldlM (freePage c proc.cr3) ⟨s, []⟩ =
          some u := by
  have hpage : pageOf (pageOf base) = pageOf base := pageOf_of_aligned (Nat.mul_mod_left _ _)
  simp only [virtualFree, procVirtualFree, ite_error_eq_ok, hpage, Option.map_eq_some_iff,
    Except.ok.injEq, exists_eq_right, Bool.not_eq_true', Bool.not_eq_false, ne_eq]

/-! ## Single writes -/

section Writes

variable {u u' : Unmapping} {a f : Nat} {v : BitVec 64} {m : Memory}

/-- A page is zero exactly when its words are. -/
theorem isZeroPage_iff {t : Nat} : isZeroPage m t = true ↔ ∀ i < 512, m.load64 (t + 8 * i) = 0 := by
  simp only [isZeroPage, all_eq_true, mem_range, beq_iff_eq]
  constructor
  · intro h i hi
    refine load64_eq_zero fun x hlo hhi => ?_
    rw [show x = t + (x - t) by omega]
    exact h (x - t) (by omega)
  · intro h i hi
    exact byte_eq_zero_of_load64 (h (i / 8) (by omega)) (by omega) (by omega)

theorem release_eq_some :
    u.release f = some u' ↔ u.pmm.locked = false ∧ u' = ⟨u.pmm.appendNode f 1, u.freed ++ [f]⟩ := by
  unfold release Pmm.freePhysicalPage
  cases u.pmm.locked with
  | true => simp
  | false => simp [eq_comm]

/-- Bytes away from the frame and from the tail of the free list stay as they are. -/
theorem mem_appendNode_outside {s : Pmm} {n b : Nat} (hf : b < f ∨ f + 24 ≤ b)
    (htail : s.memoryTail = 0 ∨ b < s.memoryTail ∨ s.memoryTail + 8 ≤ b) :
    (s.appendNode f n).mem b = s.mem b := by
  rw [FreeList.mem_appendNode, storeNat_outside (by omega),
    storeNat_outside (by omega)]
  split
  · exact storeNat_outside (by omega)
  · rfl

/-- A write to a word away from the frame and from the tail may come before or after giving the
frame back. -/
theorem release_write_comm (hf : a + 8 ≤ f ∨ f + 24 ≤ a)
    (htail : u.pmm.memoryTail = 0 ∨ a + 8 ≤ u.pmm.memoryTail ∨ u.pmm.memoryTail + 8 ≤ a)
    (hret : u.release f = some u') : (u.write a v).release f = some (u'.write a v) := by
  obtain ⟨hlock, rfl⟩ := release_eq_some.1 hret
  refine release_eq_some.2 ⟨hlock, ?_⟩
  have hmem : ((u.write a v).pmm.appendNode f 1).mem = (u.pmm.appendNode f 1).mem.store64 a v := by
    change ((if u.pmm.memoryTail ≠ 0 then (u.pmm.mem.store64 a v).store64 u.pmm.memoryTail
          (BitVec.ofNat 64 f) else u.pmm.mem.store64 a v).store64 (f + 8)
        (BitVec.ofNat 64 u.pmm.memoryTail)).store64 (f + 16) (BitVec.ofNat 64 1) =
      (((if u.pmm.memoryTail ≠ 0 then u.pmm.mem.store64 u.pmm.memoryTail (BitVec.ofNat 64 f)
          else u.pmm.mem).store64 (f + 8) (BitVec.ofNat 64 u.pmm.memoryTail)).store64 (f + 16)
        (BitVec.ofNat 64 1)).store64 a v
    rw [store64_comm (a := f + 16) (b := a) (by omega),
      store64_comm (a := f + 8) (b := a) (by omega)]
    split
    · rw [store64_comm (a := u.pmm.memoryTail) (b := a) (by omega)]
    · rfl
  simp only [write] at hmem ⊢
  simp only [← hmem]
  rfl

end Writes

/-! ## Termination -/

section Returns

variable {u : Unmapping} {c : Cpu} {cr3 addr t : Nat}

theorem isZeroPage_write (h : isZeroPage u.pmm.mem t = true) (a : Nat) :
    isZeroPage (u.write a 0).pmm.mem t = true := by
  simp only [isZeroPage, all_eq_true, mem_range, beq_iff_eq] at h ⊢
  intro i hi
  simp only [write, store64, h i hi]
  split <;> simp

/-- What is kept when an entry is cleared, and when an empty table is given back, holds of what
`freePagingStructures` returns. -/
theorem freePagingStructures_rec (good : Option Unmapping → Prop)
    (hwrite : ∀ u a, (cr3 % 4096 = 0 → a % 8 = 0) → good (some u) → good (some (u.write a 0)))
    (hrelease : ∀ u f, (t % 4096 = 0 → f % 4096 = 0) → isZeroPage u.pmm.mem f = true →
      good (some u) → good (u.release f)) (hinit : good (some u)) :
    good (freePagingStructures c u t cr3 addr) := by
  have hbind {r : Option Unmapping} {f : Unmapping → Option Unmapping} (hr : good r)
      (hf : ∀ u, good (some u) → good (f u)) : good (r.bind f) := by
    cases r with
    | none => exact hr
    | some u => exact hf u hr
  unfold freePagingStructures
  split
  swap
  · exact hinit
  rename_i hzero2
  refine hbind (hrelease u t id hzero2 hinit) fun u2 h2 => ?_
  have haligned1 := rawPtr_aligned c (getL3PageMapEntryAt c u2.pmm.mem cr3 addr)
  have hcleared2 := hwrite u2 (c.rawPtr (getL3PageMapEntryAt c u2.pmm.mem cr3 addr) +
    8 * addressToIndex addr 1) (fun _ => by omega) h2
  simp only
  split
  swap
  · exact hcleared2
  rename_i hzero1
  refine hbind (hrelease _ _ (fun _ => haligned1) hzero1 hcleared2) fun u1 h1 => ?_
  have haligned0 := rawPtr_aligned c (getL4PageMapEntryAt c u1.pmm.mem cr3 addr)
  have hcleared1 := hwrite u1 (c.rawPtr (getL4PageMapEntryAt c u1.pmm.mem cr3 addr) +
    8 * addressToIndex addr 2) (fun _ => by omega) h1
  split
  swap
  · exact hcleared1
  rename_i hzero0
  exact hrelease _ _ (fun _ => haligned0) (isZeroPage_write hzero0 _)
    (hwrite _ _ (fun _ => by omega) hcleared1)

/-- The same for the frame of a page, its entry and the tables above it. -/
theorem freeEntry_rec (good : Option Unmapping → Prop)
    (hwrite : ∀ u a, (cr3 % 4096 = 0 → a % 8 = 0) → good (some u) → good (some (u.write a 0)))
    (hrelease : ∀ u f, (t % 4096 = 0 → f % 4096 = 0) → isZeroPage u.pmm.mem f = true →
      good (some u) → good (u.release f)) (ht : t % 4096 = 0) {b : Bool} {f : Nat}
    (hframe : b = true → good (u.release f)) (hinit : good (some u)) :
    good ((if b then u.release f else some u).bind fun u =>
      freePagingStructures c (u.write (t + 8 * addressToIndex addr 0) 0) t cr3 addr) := by
  have hfirst : good (if b then u.release f else some u) := by
    split
    · rename_i hb
      exact hframe hb
    · exact hinit
  cases hret : (if b then u.release f else some u) with
  | none => rwa [hret] at hfirst
  | some u1 =>
    rw [hret] at hfirst
    rw [Option.bind_some]
    exact freePagingStructures_rec good hwrite hrelease (hwrite _ _ (fun _ => by omega) hfirst)

variable {b : Bool} {f : Nat}

theorem freeEntry_returns (h : u.pmm.locked = false) (ht : t % 4096 = 0) :
    ∃ u', ((if b then u.release f else some u).bind fun u =>
      freePagingStructures c (u.write (t + 8 * addressToIndex addr 0) 0) t cr3 addr) = some u' ∧
        u'.pmm.locked = false := by
  have hrelease (u : Unmapping) (f : Nat) (h : ∃ u', some u = some u' ∧ u'.pmm.locked = false) :
      ∃ u', u.release f = some u' ∧ u'.pmm.locked = false := by
    obtain ⟨u', ⟨⟩, h⟩ := h
    exact ⟨_, release_eq_some.2 ⟨h, rfl⟩, h⟩
  refine freeEntry_rec (fun r => ∃ u', r = some u' ∧ u'.pmm.locked = false) ?_
    (fun u f _ _ => hrelease u f) ht (fun _ => hrelease u f ⟨u, rfl, h⟩) ⟨u, rfl, h⟩
  rintro u a - ⟨u', ⟨⟩, h⟩
  exact ⟨_, rfl, h⟩

theorem freePage_returns (h : u.pmm.locked = false) :
    ∃ u', freePage c cr3 u addr = some u' ∧ u'.pmm.locked = false :=
  freeEntry_returns h (rawPtr_aligned c _)

end Returns

/-! ## The state between writes -/

/-- Where an unmapping starts: a page map with its contents, and the frames in use. `sound` says
whether the frames that will be given back make proper nodes of the free list; only then is
anything said about the list. -/
structure Start where
  cpu : Cpu
  cr3 : Nat
  region : Nat → Prop
  pmm : Pmm
  contents : Entries
  used : Set Nat
  sound : Prop

/-- A table of the page map an unmapping starts from. -/
def Start.Table (x : Start) (t : Nat) : Prop := Live child x.region 3 x.contents t

/-- What is assumed of the start: no table is physical page 0, and the tables are in use. -/
structure Start.Valid (x : Start) : Prop where
  bits : x.cpu.physAddrBits ≤ 51
  tree : Represents child x.pmm.mem x.cr3 x.region 3 x.contents
  cr3_le : x.cr3 ≤ 2 ^ x.cpu.physAddrBits
  cr3_ne : x.cr3 ≠ 0
  table_ne : ¬ x.Table 0
  cr3_used : x.sound → x.cr3 ∈ x.used
  table_used : x.sound → ∀ t, x.Table t → t ∈ x.used ∧ t < 2 ^ x.cpu.physAddrBits

/-- The page map has the contents `F`, what was given back is not part of it, and the free list ends
outside of it. -/
structure Held (x : Start) (u : Unmapping) (F : Entries) : Prop where
  tree : Represents child u.pmm.mem x.cr3 x.region 3 F
  unlocked : u.pmm.locked = false
  tail_aligned : u.pmm.memoryTail % 4096 = 0
  tail_ne : u.pmm.memoryTail ≠ x.cr3
  tail_dead : ¬ Live child x.region 3 F u.pmm.memoryTail
  null : ∀ b < 4096, u.pmm.mem b = 0
  live : ∀ t, Live child x.region 3 F t → x.Table t ∧ t ∉ u.freed
  cr3_kept : x.cr3 ∉ u.freed
  pool : x.sound → Pool (2 ^ x.cpu.physAddrBits) u.pmm (x.used \ {f | f ∈ u.freed})
  mem : x.sound → ∀ b, frameAt b ∈ x.used → frameAt b ∉ u.freed →
    Outside x.cr3 x.region x.contents b → u.pmm.mem b = x.pmm.mem b
  returned : x.sound → ∀ f ∈ u.freed, OnFreeList u.pmm (f / 4096)

section Held

variable {x : Start} {u u' : Unmapping} {F : Entries} {d k t f : Nat} {v : BitVec 64}

/-- The table of an entry is not page 0, not given back, and in use. -/
theorem Held.tableOf (hx : x.Valid) (h : Held x u F) (hd : d ≤ 3) (hk : x.region (k / 512 ^ d))
    (ht : tableOf child x.cr3 F d k = some t) :
    t % 4096 = 0 ∧ t ≠ 0 ∧ t ≠ u.pmm.memoryTail ∧ t ∉ u.freed ∧ (x.sound → t ∈ x.used) := by
  refine ⟨h.tree.tableOf_aligned hd hk ht, ?_⟩
  cases d with
  | zero =>
    cases ht
    exact ⟨hx.cr3_ne, h.tail_ne.symm, h.cr3_kept, hx.cr3_used⟩
  | succ d =>
    have hlive := Represents.live_of_tableOf hd hk ht
    obtain ⟨htable, hfreed⟩ := h.live t hlive
    refine ⟨?_, ?_, hfreed, fun hs => (hx.table_used hs t htable).1⟩
    · rintro rfl
      exact hx.table_ne htable
    · rintro rfl
      exact h.tail_dead hlive

/-- Writing an entry that adds no table. -/
theorem Held.write (hx : x.Valid) (h : Held x u F) (hd : d ≤ 3) (hk : x.region (k / 512 ^ d))
    (ht : TableTree.tableOf child x.cr3 F d k = some t)
    (hr : Replaces child u.pmm.mem x.cr3 x.region 3 F d k 0) :
    Held x (u.write (t + 8 * (k % 512)) 0) (set F d k 0) := by
  obtain ⟨haligned, hne, -, hfreed, hused⟩ := h.tableOf hx hd hk ht
  have hlive : ∀ t', Live child x.region 3 (set F d k 0) t' → Live child x.region 3 F t' := by
    intro t' hlive
    rcases Represents.live_set hr hk hlive with hold | ⟨-, hv, -⟩
    · exact hold
    · cases hv
  have hnull : ∀ b < 4096, (u.write (t + 8 * (k % 512)) 0).pmm.mem b = 0 := fun b hb =>
    (store64_outside 0 (by omega)).trans (h.null b hb)
  have hunused (hs : x.sound) : ∀ b, frameAt b ∉ x.used \ {f | f ∈ u.freed} →
      (u.write (t + 8 * (k % 512)) 0).pmm.mem b = u.pmm.mem b := by
    intro b hb
    have hout := outside_of_frameAt_ne haligned fun he => hb (he ▸ ⟨hused hs, hfreed⟩)
    exact store64_outside 0 (by omega)
  refine ⟨h.tree.store hd hk ht hr, h.unlocked, h.tail_aligned, h.tail_ne,
    fun hl => h.tail_dead (hlive _ hl), hnull, fun t' hl => h.live t' (hlive t' hl), h.cr3_kept,
    fun hs => (h.pool hs).congr (hunused hs) hnull, fun hs b hb hkept hout => ?_,
    fun hs f hf => (h.pool hs).onFreeList_congr (hunused hs) (h.returned hs f hf)⟩
  · have hout' : Outside x.cr3 x.region F b :=
      ⟨hout.ne_null, fun hl => hout.not_live (h.live _ hl).1, hout.root⟩
    exact (hout'.store h.tree hd hk ht _).trans (h.mem hs b hb hkept hout)

/-- Giving back a frame leaves the tables as they are, down to where it is one itself. -/
theorem Held.tree_appendNode {n : Nat} (h : Held x u F) (haligned : f % 4096 = 0)
    (hcr3 : f ≠ x.cr3) (hn : n ≤ 3) (hdead : ¬ Live child x.region n F f) :
    Represents child (u.pmm.appendNode f 1).mem x.cr3 x.region n F := by
  have hta := h.tail_aligned
  have hsame {t : Nat} (ht : t % 4096 = 0) (hf : t ≠ f) (htail : t ≠ u.pmm.memoryTail) :
      Memory.SameOn u.pmm.mem (u.pmm.appendNode f 1).mem t (t + 4096) := fun b hlo hhi =>
    mem_appendNode_outside (by omega) (by omega)
  refine (h.tree.take hn).congr (fun i hi => ?_) fun t ht => ?_
  · have := h.tree.region_lt i hi
    exact load64_congr ((hsame h.tree.root_aligned hcr3.symm h.tail_ne.symm).mono (by omega)
      (by omega))
  · refine hsame (h.tree.aligned t (ht.mono hn)) ?_ ?_
    · rintro rfl
      exact hdead ht
    · rintro rfl
      exact h.tail_dead (ht.mono hn)

/-- Giving back a frame that is not a table. -/
theorem Held.release (hx : x.Valid) (h : Held x u F) (haligned : f % 4096 = 0) (hne : f ≠ 0)
    (hcr3 : f ≠ x.cr3) (hdead : ¬ Live child x.region 3 F f)
    (hsound : x.sound → f ∈ x.used ∧ f ∉ u.freed ∧ f < 2 ^ x.cpu.physAddrBits ∧
      nextOf u.pmm.mem f = 0) :
    ∃ u', u.release f = some u' ∧ Held x u' F ∧ u'.freed = u.freed ++ [f] := by
  refine ⟨⟨u.pmm.appendNode f 1, u.freed ++ [f]⟩, release_eq_some.2 ⟨h.unlocked, rfl⟩, ?_, rfl⟩
  have hta := h.tail_aligned
  have hlimit : 2 ^ x.cpu.physAddrBits ≤ 2 ^ 52 :=
    Nat.pow_le_pow_right (by decide) (by have := hx.bits; omega)
  have hreturn (hs : x.sound) := by
    obtain ⟨hused, hnew, hlt, hnext⟩ := hsound hs
    exact (h.pool hs).release ⟨hused, hnew⟩ haligned hne hlt hlimit hnext
  refine ⟨h.tree_appendNode haligned hcr3 le_rfl hdead, h.unlocked, haligned, hcr3, hdead, ?_, ?_,
    ?_, fun hs => ?_, fun hs b hb hkept hout => ?_, fun hs g hg => ?_⟩
  · intro b hb
    rw [← h.null b hb]
    exact mem_appendNode_outside (by omega) (by omega)
  · intro t ht
    obtain ⟨htable, hfreed⟩ := h.live t ht
    refine ⟨htable, ?_⟩
    simp only [mem_append, mem_singleton, not_or]
    refine ⟨hfreed, ?_⟩
    rintro rfl
    exact hdead ht
  · simp only [mem_append, mem_singleton, not_or]
    exact ⟨h.cr3_kept, hcr3.symm⟩
  · have hset : x.used \ {g | g ∈ u.freed ++ [f]} = (x.used \ {g | g ∈ u.freed}) \ {f} := by
      ext g
      simp [and_assoc]
    rw [hset]
    exact (hreturn hs).1
  · simp only [mem_append, mem_singleton, not_or] at hkept
    rw [← h.mem hs b hb hkept.1 hout]
    exact (hreturn hs).2.1 b ⟨⟨hb, hkept.1⟩, hkept.2⟩
  · refine ((hreturn hs).2.2 _).2 ?_
    rcases mem_append.1 hg with hold | hlast
    · exact .inl (h.returned hs g hold)
    · exact .inr (by rw [mem_singleton.1 hlast])

/-- Taking out a table in which nothing is left: its entry is cleared, and it is given back. -/
theorem Held.remove (hx : x.Valid) (h : Held x u F) (hd : d < 3) (hk : x.region (k / 512 ^ d))
    {table : Nat} (ht : TableTree.tableOf child x.cr3 F d k = some table)
    (hchild : child (F d k) = some t) (hempty : ∀ k', k' / 512 = k → F (d + 1) k' = 0) :
    ∃ u', (u.write (table + 8 * (k % 512)) 0).release t = some u' ∧ Held x u' (set F d k 0) ∧
      u'.freed = u.freed ++ [t] := by
  have hlive : Live child x.region 3 F t := ⟨d, hd, k, hk, hchild⟩
  obtain ⟨htable, hfreed⟩ := h.live t hlive
  have haligned := h.tree.aligned t hlive
  obtain ⟨htaligned, -, -, -, -⟩ := h.tableOf hx hd.le hk ht
  have hne : t ≠ 0 := by
    rintro rfl
    exact hx.table_ne htable
  have hcr3 : t ≠ x.cr3 := by
    rintro rfl
    exact h.tree.ne_root hlive
  have hdead : ¬ Live child x.region 3 (set F d k 0) t := by
    rintro ⟨d', hd', k', hk', ht'⟩
    by_cases hnode : d' = d ∧ k' = k
    · rw [hnode.1, hnode.2, set_same] at ht'
      cases ht'
    · rw [set_other hnode] at ht'
      exact hnode (h.tree.inj d' hd' k' hk' d hd k hk t ht' hchild)
  have hwrite := h.write hx hd.le hk ht (.removed hempty child_zero)
  refine hwrite.release hx haligned hne hcr3 hdead fun hs => ?_
  obtain ⟨hused, hlt⟩ := hx.table_used hs t htable
  refine ⟨hused, hfreed, hlt, ?_⟩
  -- the table was empty, and the entry cleared is in another one
  have hother : table ≠ t := h.tree.tableOf_ne_child hd hk ht hchild
  have hword : u.pmm.mem.load64 t = 0 := by
    have hfirst := h.tree.word (d + 1) hd (k * 512) (by
      rw [← div_path]
      simpa using hk)
    rw [hempty (k * 512) (by simp), TableTree.tableOf, Nat.mul_div_cancel k (by decide), hchild,
      wordAt, Nat.mul_mod_left] at hfirst
    exact hfirst.symm
  have hsame : (u.write (table + 8 * (k % 512)) 0).pmm.mem.load64 t = u.pmm.mem.load64 t :=
    load64_store64_other 0 (by omega)
  change ((u.write (table + 8 * (k % 512)) 0).pmm.mem.load64 t).toNat = 0
  rw [hsame, hword]
  rfl

/-- Only the contents below the region matter. -/
theorem Held.congr {F' : Entries} (h : Held x u F)
    (heq : ∀ d ≤ 3, ∀ k, x.region (k / 512 ^ d) → F' d k = F d k) : Held x u F' := by
  have hlive : ∀ t, Live child x.region 3 F' t → Live child x.region 3 F t := by
    rintro t ⟨d, hd, k, hk, ht⟩
    exact ⟨d, hd, k, hk, by rwa [← heq d (by omega) k hk]⟩
  exact ⟨h.tree.congr_entries heq, h.unlocked, h.tail_aligned, h.tail_ne,
    fun ht => h.tail_dead (hlive _ ht), h.null, fun t ht => h.live t (hlive t ht), h.cr3_kept,
    h.pool,
    h.mem, h.returned⟩

/-- The start of an unmapping. -/
theorem Ready.held {used : Set Nat} (h : Ready x.cpu x.cr3 x.region x.pmm x.contents used)
    (hlock : x.pmm.locked = false) (hused : x.sound → x.used = used) :
    Held x ⟨x.pmm, []⟩ x.contents := by
  obtain ⟨hpool, hne, hdead⟩ := h.pool.resolve_left (by rw [hlock]; exact Bool.false_ne_true)
  obtain ⟨haligned, htail⟩ := hpool.tail
  refine ⟨h.tree, hlock, haligned, ?_, ?_, hpool.null, fun _ ht => ⟨ht, not_mem_nil⟩,
    not_mem_nil, fun hs => by simpa [hused hs] using hpool, fun _ _ _ _ _ => rfl,
    fun _ _ hf => absurd hf not_mem_nil⟩
  · intro heq
    rcases htail with hzero | hunused
    · exact hne (heq.symm.trans hzero)
    · exact hunused (heq ▸ h.cr3_used)
  · intro hl
    rcases htail with hzero | hunused
    · exact hdead (hzero ▸ hl)
    · exact hunused (h.live_used _ hl)

/-- A table is a zero page exactly when all its entries are zero. -/
theorem isZeroPage_table_iff {m : Memory} {cr3 : Nat} {R : Nat → Prop}
    (h : Represents child m cr3 R 3 F) (hd : d < 3) (hk : R (k / 512 ^ d))
    (hchild : child (F d k) = some t) :
    isZeroPage m t = true ↔ ∀ k', k' / 512 = k → F (d + 1) k' = 0 := by
  have hword : ∀ k', k' / 512 = k → F (d + 1) k' = m.load64 (t + 8 * (k' % 512)) := by
    rintro k' rfl
    rw [h.word (d + 1) hd k' (by rwa [← div_path]), TableTree.tableOf, hchild, wordAt]
  rw [Paging.isZeroPage_iff]
  constructor
  · intro hzero k' hk'
    rw [hword k' hk', hzero _ (Nat.mod_lt _ (by decide))]
  · intro hzero i hi
    have hentry := hword (k * 512 + i) (by omega)
    rw [hzero _ (by omega), show (k * 512 + i) % 512 = i by omega] at hentry
    exact hentry.symm

end Held

/-! ## One page -/

/-- A page that is to be unmapped: it is mapped, was not unmapped before, and the entries on its
path are clean. -/
structure Leaving (x : Start) (P : Nat → Prop) (p : Nat) : Prop where
  region : x.region (p / 512 ^ 3)
  stays : ¬ P p
  mapped : x.contents 3 p ≠ 0
  clean : ∀ d < 3, Clean x.cpu d (x.contents d (p / 512 ^ (3 - d)))

section Page

variable {x : Start} {u u' : Unmapping} {P : Nat → Prop} {p d t f : Nat}

section

variable (h : Leaving x P p)
include h

theorem Leaving.region_path (hd : d ≤ 3) : x.region (p / 512 ^ (3 - d) / 512 ^ d) :=
  Paging.region_path h.region hd

theorem Leaving.table (hx : x.Valid) (hd : d < 3) :
    ∃ t, PointsTo x.cpu (x.contents d (p / 512 ^ (3 - d))) t ∧ t ≠ 0 := by
  have hne := (hx.tree.hereditary child_zero).path_ne_zero hd.le h.region h.mapped
  obtain ⟨t, ht, -⟩ := (h.clean d hd).resolve_left hne
  refine ⟨t, ht, ?_⟩
  rintro rfl
  exact hx.table_ne ⟨d, hd, _, h.region_path hd.le, ht.child_eq⟩

variable {j : Nat}

theorem Leaving.staged_above (hd : d < j) (hj : j ≤ 4) :
    staged 3 x.contents P p j d (p / 512 ^ (3 - d)) = x.contents d (p / 512 ^ (3 - d)) := by
  rw [staged_top hd, pruned_of_not_emptied (not_emptied_path h.stays h.mapped (by omega))]

/-- The tables above the level that is dealt with are still the old ones. -/
theorem Leaving.tableOf_staged {table : Nat} (hj : j < 3)
    (htable : tableOf child x.cr3 x.contents j (p / 512 ^ (3 - j)) = some table) :
    tableOf child x.cr3 (staged 3 x.contents P p (j + 1)) j (p / 512 ^ (3 - j)) = some table := by
  cases j with
  | zero => exact htable
  | succ i =>
    rw [tableOf, div_above (by omega)] at htable ⊢
    rwa [h.staged_above (by omega) (by omega)]

theorem Leaving.child_staged (hj : j < 3)
    (ht : PointsTo x.cpu (x.contents j (p / 512 ^ (3 - j))) t) :
    child (staged 3 x.contents P p (j + 1) j (p / 512 ^ (3 - j))) = some t := by
  rw [h.staged_above (by omega) (by omega), ht.child_eq]

section Level

variable (hx : x.Valid) (hj : j < 3) (hheld : Held x u (staged 3 x.contents P p (j + 1)))
include hx hj hheld

/-- The test for an empty table says whether the table has to go. -/
theorem Leaving.isZeroPage_iff (ht : PointsTo x.cpu (x.contents j (p / 512 ^ (3 - j))) t) :
    isZeroPage u.pmm.mem t = true ↔ Emptied 3 x.contents (plus P p) j (p / 512 ^ (3 - j)) := by
  rw [isZeroPage_table_iff hheld.tree hj (h.region_path hj.le) (h.child_staged hj ht),
    emptied_iff (hx.tree.hereditary child_zero) hj (h.region_path hj.le)
      (onPath_plus_self h.mapped)]
  refine forall_congr' fun k' => forall_congr' fun _ => ?_
  rw [staged, if_pos le_rfl]

theorem Leaving.stop (hstay : ¬ Emptied 3 x.contents (plus P p) j (p / 512 ^ (3 - j))) :
    Held x u (pruned 3 x.contents (plus P p)) :=
  hheld.congr fun _ hd _ _ => (staged_of_not_emptied (hx.tree.hereditary child_zero) h.region
    h.stays h.mapped hj hstay hd).symm

variable {table : Nat}
  (htable : tableOf child x.cr3 x.contents j (p / 512 ^ (3 - j)) = some table)
  (ht : PointsTo x.cpu (x.contents j (p / 512 ^ (3 - j))) t)
  (hempty : Emptied 3 x.contents (plus P p) j (p / 512 ^ (3 - j)))
include htable ht hempty

/-- One table is taken out. -/
theorem Leaving.remove :
    ∃ u', (u.write (table + 8 * (p / 512 ^ (3 - j) % 512)) 0).release t = some u' ∧
      Held x u' (staged 3 x.contents P p j) ∧ u'.freed = u.freed ++ [t] := by
  have hzero : ∀ k', k' / 512 = p / 512 ^ (3 - j) →
      staged 3 x.contents P p (j + 1) (j + 1) k' = 0 := by
    intro k' hk'
    rw [staged, if_pos le_rfl]
    exact (emptied_iff (hx.tree.hereditary child_zero) hj (h.region_path hj.le) hempty.1).1 hempty
      k' hk'
  obtain ⟨u', hret, hheld', hfreed⟩ := hheld.remove hx hj (h.region_path hj.le)
    (h.tableOf_staged hj htable) (h.child_staged hj ht) hzero
  exact ⟨u', hret, hheld'.congr fun _ _ _ _ => staged_of_emptied hempty, hfreed⟩

/-- One table is taken out in the order of the source: it is given back before its entry is
cleared. -/
theorem Leaving.release_first :
    ∃ u', u.release t = some u' ∧ u'.pmm = u.pmm.appendNode t 1 ∧
      Held x (u'.write (table + 8 * (p / 512 ^ (3 - j) % 512)) 0) (staged 3 x.contents P p j) ∧
      u'.freed = u.freed ++ [t] := by
  have hrelease : u.release t = some ⟨u.pmm.appendNode t 1, u.freed ++ [t]⟩ :=
    release_eq_some.2 ⟨hheld.unlocked, rfl⟩
  refine ⟨_, hrelease, rfl, ?_, rfl⟩
  have htable' := h.tableOf_staged hj htable
  have hchild' := h.child_staged hj ht
  obtain ⟨htaligned, -, htail, -, -⟩ := hheld.tableOf hx hj.le (h.region_path hj.le) htable'
  have haligned := hheld.tree.aligned t ⟨j, hj, _, h.region_path hj.le, hchild'⟩
  have hne := hheld.tree.tableOf_ne_child hj (h.region_path hj.le) htable' hchild'
  have hta := hheld.tail_aligned
  obtain ⟨u', hret, hheld', -⟩ := h.remove hx hj hheld htable ht hempty
  rw [release_write_comm (by omega) (by omega) hrelease] at hret
  cases hret
  exact hheld'

end Level

/-- The tables on the path that go are those from some level on. -/
theorem Leaving.gone (hx : x.Valid) {T : Nat → Nat}
    (hT : ∀ d < 3, PointsTo x.cpu (x.contents d (p / 512 ^ (3 - d))) (T d)) (hj : j ≤ 3)
    (hgone : j < 3 → Emptied 3 x.contents (plus P p) j (p / 512 ^ (3 - j)))
    (hstop : ∀ i, j = i + 1 → ¬ Emptied 3 x.contents (plus P p) i (p / 512 ^ (3 - i))) :
    ((range' j (3 - j)).map T).reverse.Nodup ∧
      ∀ t, t ∈ ((range' j (3 - j)).map T).reverse ↔
        ∃ d < 3, Emptied 3 x.contents (plus P p) d (p / 512 ^ (3 - d)) ∧
          child (x.contents d (p / 512 ^ (3 - d))) = some t := by
  have hhered := hx.tree.hereditary child_zero
  have hiff : ∀ d < 3, Emptied 3 x.contents (plus P p) d (p / 512 ^ (3 - d)) ↔ j ≤ d := by
    intro d hd
    constructor
    · intro hempty
      by_contra hlt
      obtain ⟨i, rfl⟩ := Nat.exists_eq_succ_of_ne_zero (show j ≠ 0 by omega)
      exact hstop i rfl (hempty.path hhered h.region h.mapped (by omega) (by omega))
    · intro hle
      exact (hgone (by omega)).path hhered h.region h.mapped hle hd.le
  constructor
  · refine nodup_reverse.2 (List.Nodup.map_on ?_ (nodup_range' _))
    intro d hd d' hd' heq
    rw [mem_range'_1] at hd hd'
    exact (hx.tree.inj d (by omega) _ (h.region_path (by omega)) d' (by omega) _
      (h.region_path (by omega)) (T d) (hT d (by omega)).child_eq
      (heq ▸ (hT d' (by omega)).child_eq)).1
  · intro t
    simp only [mem_reverse, mem_map, mem_range'_1]
    constructor
    · rintro ⟨d, hd, rfl⟩
      exact ⟨d, by omega, (hiff d (by omega)).2 (by omega), (hT d (by omega)).child_eq⟩
    · rintro ⟨d, hd, hempty, hchild⟩
      rw [(hT d hd).child_eq] at hchild
      exact ⟨d, ⟨(hiff d hd).1 hempty, by omega⟩, Option.some_inj.1 hchild⟩

end

variable {addr j : Nat} {c : Cpu} {F : Entries} {cr3 : Nat}

theorem tableOf_path (ht : PointsTo x.cpu (x.contents d (p / 512 ^ (3 - d))) t) (hd : d < 3) :
    tableOf child x.cr3 x.contents (d + 1) (p / 512 ^ (3 - (d + 1))) = some t := by
  rw [tableOf, div_above hd]
  exact ht.child_eq

/-- The levels above a table are read as before once it was given back. -/
theorem Leaving.tree_after (h : Leaving x P p) (hj : j < 3)
    (ht : PointsTo x.cpu (x.contents j (p / 512 ^ (3 - j))) t)
    (hheld : Held x u (staged 3 x.contents P p (j + 1))) :
    Represents child (u.pmm.appendNode t 1).mem x.cr3 x.region j
      (staged 3 x.contents P p (j + 1)) := by
  have hchild := h.child_staged hj ht
  have hlive : Live child x.region 3 _ t := ⟨j, hj, _, h.region_path hj.le, hchild⟩
  refine hheld.tree_appendNode (hheld.tree.aligned t hlive) ?_ hj.le ?_
  · rintro rfl
    exact hheld.tree.ne_root hlive
  · rintro ⟨d, hd, k, hk, hchild'⟩
    exact hd.ne (hheld.tree.inj d (by omega) k hk j hj _ (h.region_path hj.le) t hchild' hchild).1

/-- One more page has been taken out, with the tables on its path that were left empty. -/
structure Gone (x : Start) (P : Nat → Prop) (p : Nat) (u u' : Unmapping) : Prop where
  held : Held x u' (pruned 3 x.contents (plus P p))
  freed : ∃ tables, u'.freed = u.freed ++ tables ∧ tables.Nodup ∧ ∀ t, t ∈ tables ↔
    ∃ d < 3, Emptied 3 x.contents (plus P p) d (p / 512 ^ (3 - d)) ∧
      child (x.contents d (p / 512 ^ (3 - d))) = some t

/-- The work ends at a table in which something is left. -/
theorem Leaving.gone_of_stop (hx : x.Valid) (h : Leaving x P p) {T : Nat → Nat}
    (hT : ∀ d < 3, PointsTo x.cpu (x.contents d (p / 512 ^ (3 - d))) (T d)) (hj : j < 3)
    (hheld : Held x u' (staged 3 x.contents P p (j + 1)))
    (hfreed : u'.freed = u.freed ++ ((range' (j + 1) (3 - (j + 1))).map T).reverse)
    (hgone : j + 1 < 3 → Emptied 3 x.contents (plus P p) (j + 1) (p / 512 ^ (3 - (j + 1))))
    (hzero : ¬ isZeroPage u'.pmm.mem (T j) = true) : Gone x P p u u' := by
  have hstay := fun hempty => hzero ((h.isZeroPage_iff hx hj hheld (hT j hj)).2 hempty)
  obtain ⟨hnodup, hmem⟩ := h.gone hx hT (by omega) hgone (by
    rintro i ⟨⟩
    exact hstay)
  exact ⟨h.stop hx hj hheld hstay, _, hfreed, hnodup, hmem⟩

/-- A table that was given back and has not been written since holds the number 1 in its third
word. -/
structure Counted (t : Nat) (u : Unmapping) : Prop where
  tail : u.pmm.memoryTail % 4096 = 0
  count : u.pmm.mem.load64 (t + 16) = 1

theorem Counted.write {a : Nat} (h : Counted t u) (ha : a + 8 ≤ t ∨ t + 4096 ≤ a) :
    Counted t (u.write a 0) :=
  ⟨h.tail, (load64_store64_other 0 (by omega)).trans h.count⟩

theorem Counted.release (h : Counted t u) (ht : t % 4096 = 0) (hf : f % 4096 = 0) (hne : f ≠ t)
    (hret : u.release f = some u') : Counted t u' := by
  obtain ⟨-, rfl⟩ := release_eq_some.1 hret
  have htail := h.tail
  refine ⟨hf, Eq.trans (load64_congr fun b hlo hhi => ?_) h.count⟩
  exact mem_appendNode_outside (by omega) (by omega)

theorem load64_appendNode_count (s : Pmm) (f : Nat) :
    (s.appendNode f 1).mem.load64 (f + 16) = 1 := by
  exact load64_store64_same _ _ _

/-- What `freePagingStructures` does after the entry of a page was cleared. If the table of the last
level goes, it has the number 1 in its third word right after. -/
theorem freePagingStructures_spec (hx : x.Valid) (h : Leaving x P (key addr))
    (ht : PointsTo x.cpu (x.contents 2 (key addr / 512)) t)
    (hheld : Held x u (staged 3 x.contents P (key addr) 3)) :
    ∃ u', freePagingStructures x.cpu u t x.cr3 addr = some u' ∧ Gone x P (key addr) u u' ∧
      (Emptied 3 x.contents (plus P (key addr)) 2 (key addr / 512) → Counted t u') := by
  choose! T hT hT0 using fun d (hd : d < 3) => h.table hx hd
  obtain rfl : t = T 2 := Option.some_inj.1 (ht.child_eq.symm.trans (hT 2 (by decide)).child_eq)
  have hiff2 := h.isZeroPage_iff hx (by decide) hheld (hT 2 (by decide))
  have haligned : ∀ d < 3, T d % 4096 = 0 := fun d hd => (hT d hd).rawPtr_eq ▸ rawPtr_aligned _ _
  have hroot := hx.tree.root_aligned
  -- the tables above are other ones
  have hother : ∀ d < 2, T d ≠ T 2 := fun d hd heq =>
    hd.ne (hx.tree.inj d (by omega) _ (h.region_path (by omega)) 2 (by decide) _
      (h.region_path (by decide)) (T 2) (heq ▸ (hT d (by omega)).child_eq) ht.child_eq).1
  have hne : x.cr3 ≠ T 2 := fun heq =>
    hx.tree.ne_root ⟨2, by decide, _, h.region_path (by decide), heq ▸ ht.child_eq⟩
  have haligned2 := haligned 2 (by decide)
  have haligned1 := haligned 1 (by decide)
  have haligned0 := haligned 0 (by decide)
  have hne1 := hother 1 (by decide)
  have hne0 := hother 0 (by decide)
  unfold freePagingStructures
  -- the table of the last level
  by_cases h2 : isZeroPage u.pmm.mem (T 2) = true
  swap
  · exact ⟨u, if_neg h2, h.gone_of_stop hx hT (by decide) hheld (by simp) (by omega) h2,
      fun hempty => absurd (hiff2.2 hempty) h2⟩
  have hempty2 := hiff2.1 h2
  obtain ⟨u2, hret2, hpmm2, hheld2, hfreed2⟩ := h.release_first hx (by decide) hheld
    (tableOf_path (hT 1 (by decide)) (by decide)) (hT 2 (by decide)) hempty2
  change Held x (u2.write (T 1 + 8 * (key addr / 512 % 512)) 0) _ at hheld2
  have hread1 : x.cpu.rawPtr (getL3PageMapEntryAt x.cpu u2.pmm.mem x.cr3 addr) = T 1 := by
    rw [hpmm2, getL3PageMapEntryAt_eq (h.tree_after (by decide) ht hheld) hx.cr3_le h.region
      ((h.staged_above (j := 3) (d := 0) (by decide) (by decide)) ▸ h.clean 0 (by decide))]
    exact (congrArg x.cpu.rawPtr (h.staged_above (d := 1) (by decide) (by decide))).trans
      (hT 1 (by decide)).rawPtr_eq
  have hcounted2 : Counted (T 2) u2 := by
    obtain ⟨-, rfl⟩ := release_eq_some.1 hret2
    exact ⟨haligned2, load64_appendNode_count _ _⟩
  have hwrite2 : Counted (T 2) (u2.write (T 1 + 8 * (key addr / 512 % 512)) 0) :=
    hcounted2.write (by omega)
  rw [if_pos h2, hret2, Option.bind_some]
  simp only [hread1, addressToIndex_one]
  -- the table of the level above
  by_cases h1 : isZeroPage (u2.write (T 1 + 8 * (key addr / 512 % 512)) 0).pmm.mem (T 1) = true
  swap
  · exact ⟨_, if_neg h1, h.gone_of_stop hx hT (by decide) hheld2 hfreed2 (fun _ => hempty2) h1,
      fun _ => hwrite2⟩
  have hempty1 := (h.isZeroPage_iff hx (by decide) hheld2 (hT 1 (by decide))).1 h1
  obtain ⟨u1, hret1, hpmm1, hheld1, hfreed1⟩ := h.release_first hx (by decide) hheld2
    (tableOf_path (hT 0 (by decide)) (by decide)) (hT 1 (by decide)) hempty1
  have hread0 : x.cpu.rawPtr (getL4PageMapEntryAt x.cpu u1.pmm.mem x.cr3 addr) = T 0 := by
    rw [hpmm1, getL4PageMapEntryAt_eq (h.tree_after (by decide) (hT 1 (by decide)) hheld2)
      hx.cr3_le h.region]
    exact (congrArg x.cpu.rawPtr (h.staged_above (d := 0) (by decide) (by decide))).trans
      (hT 0 (by decide)).rawPtr_eq
  have hfreed1' : u1.freed = u.freed ++ [T 2, T 1] := by
    rw [hfreed1]
    simp [write, hfreed2]
  have hcounted1 := hwrite2.release haligned2 haligned1 hne1 hret1
  have hwrite1 : Counted (T 2) (u1.write (T 0 + 8 * (key addr / 512 ^ 2 % 512)) 0) :=
    hcounted1.write (by omega)
  rw [if_pos h1, hret1, Option.bind_some]
  simp only [hread0, addressToIndex_two, addressToIndex_three]
  -- the table below the page map itself
  by_cases h0 : isZeroPage (u1.write (T 0 + 8 * (key addr / 512 ^ 2 % 512)) 0).pmm.mem (T 0) = true
  swap
  · exact ⟨_, if_neg h0, h.gone_of_stop hx hT (by decide) hheld1 hfreed1' (fun _ => hempty1) h0,
      fun _ => hwrite1⟩
  have hempty0 := (h.isZeroPage_iff hx (by decide) hheld1 (hT 0 (by decide))).1 h0
  obtain ⟨u0, hret0, hheld0, hfreed0⟩ :=
    h.remove hx (by decide) hheld1 rfl (hT 0 (by decide)) hempty0
  obtain ⟨hnodup, hmem⟩ := h.gone hx hT (Nat.zero_le 3) (fun _ => hempty0) (by
    rintro i ⟨⟩)
  refine ⟨u0, (if_pos h0).trans hret0, ⟨hheld0.congr fun _ _ _ _ => staged_zero.symm, _, ?_, hnodup,
    hmem⟩, fun _ => (hwrite1.write ?_).release haligned2 haligned0 hne0 hret0⟩
  · rw [hfreed0]
    simp [write, hfreed1', range']
  · omega

/-- The frames an entry gives back. -/
def Cpu.frames (c : Cpu) (entry : BitVec 64) : List Nat :=
  if committed entry then [c.rawPtr entry] else []

theorem mem_frames {e : BitVec 64} : f ∈ c.frames e ↔ committed e = true ∧
    c.rawPtr e = f := by
  unfold Cpu.frames
  split
  · rename_i h
    simp [h, eq_comm]
  · rename_i h
    simp [h]

/-- A frame that may be given back: it is not part of the page map. -/
structure Returnable (x : Start) (f : Nat) : Prop where
  ne_null : f ≠ 0
  ne_root : f ≠ x.cr3
  not_table : ¬ x.Table f
  sound : x.sound → f ∈ x.used ∧ f < 2 ^ x.cpu.physAddrBits ∧ nextOf x.pmm.mem f = 0

/-- A frame that was not given back still has the same link. -/
theorem Returnable.nextOf_eq (h : Returnable x f) (hheld : Held x u F) (haligned : f % 4096 = 0)
    (hroot : x.cr3 % 4096 = 0) (hregion : ∀ i, x.region i → i < 512) (hs : x.sound)
    (hkept : f ∉ u.freed) : nextOf u.pmm.mem f = 0 := by
  obtain ⟨hused, -, hnext⟩ := h.sound hs
  rw [← hnext]
  refine loadNat_congr fun b hlo hhi => ?_
  have hframe := frameAt_eq haligned hlo (by omega)
  refine hheld.mem hs b (hframe ▸ hused) (hframe ▸ hkept) ⟨hframe ▸ h.ne_null, hframe ▸ h.not_table,
    ?_⟩
  intro i hi
  have hlt := hregion i hi
  have hne := h.ne_root
  omega

/-- What the loop reads of a page that is mapped. -/
theorem Leaving.entry_eq (hx : x.Valid) (h : Leaving x P (key addr))
    (hheld : Held x u (pruned 3 x.contents P))
    (ht : PointsTo x.cpu (x.contents 2 (key addr / 512)) t) :
    x.cpu.rawPtr (getL2PageMapEntryAt x.cpu u.pmm.mem x.cr3 addr) = t ∧
      u.pmm.mem.load64 (t + 8 * addressToIndex addr 0) = x.contents 3 (key addr) := by
  have hentry {d : Nat} (hd : d ≤ 3) : pruned 3 x.contents P d (key addr / 512 ^ (3 - d)) =
      x.contents d (key addr / 512 ^ (3 - d)) :=
    pruned_of_not_emptied (not_emptied_path h.stays h.mapped hd)
  have h0 := hentry (d := 0) (by decide)
  have h1 := hentry (d := 1) (by decide)
  have h2 : pruned 3 x.contents P 2 (key addr / 512) = x.contents 2 (key addr / 512) :=
    hentry (d := 2) (by decide)
  have h3 : pruned 3 x.contents P 3 (key addr) = x.contents 3 (key addr) := by
    simpa using hentry (d := 3) le_rfl
  constructor
  · rw [getL2PageMapEntryAt_eq hheld.tree hx.cr3_le h.region
      (by rw [h0]; exact h.clean 0 (by decide)) (by rw [h1]; exact h.clean 1 (by decide)), h2,
      ht.rawPtr_eq]
  · rw [← h3, hheld.tree.word 3 le_rfl _ h.region, tableOf, h2, ht.child_eq, addressToIndex_zero,
      wordAt]

/-- Clearing the entry of a page that is mapped. -/
theorem Leaving.cleared (hx : x.Valid) (h : Leaving x P (key addr))
    (hheld : Held x u (pruned 3 x.contents P))
    (ht : PointsTo x.cpu (x.contents 2 (key addr / 512)) t) :
    Held x (u.write (t + 8 * addressToIndex addr 0) 0) (staged 3 x.contents P (key addr) 3) := by
  have htop : Held x u (staged 3 x.contents P (key addr) 4) :=
    hheld.congr fun d hd _ _ => staged_top (by omega)
  have htable : tableOf child x.cr3 (staged 3 x.contents P (key addr) 4) 3 (key addr) = some t := by
    have h2 : staged 3 x.contents P (key addr) 4 2 (key addr / 512) = x.contents 2
        (key addr / 512) :=
      h.staged_above (d := 2) (by decide) le_rfl
    rw [tableOf, h2, ht.child_eq]
  rw [addressToIndex_zero]
  exact (htop.write hx le_rfl h.region htable (.leaf rfl)).congr
    fun d hd _ _ => staged_leaf h.mapped hd

section Round

variable (hx : x.Valid) {addr : Nat} (h : Leaving x P (key addr))
  (hheld : Held x u (pruned 3 x.contents P))
  (hframe : committed (x.contents 3 (key addr)) = true →
    Returnable x (x.cpu.rawPtr (x.contents 3 (key addr))))
  (hkept : x.sound → committed (x.contents 3 (key addr)) = true →
    x.cpu.rawPtr (x.contents 3 (key addr)) ∉ u.freed)
include hx h hheld hframe hkept

/-- One round of the loop on a page that is mapped, up to the tables: its frame has been given back
and its entry cleared. -/
theorem freePage_cleared :
    ∃ (t : Nat) (u1 : Unmapping), PointsTo x.cpu (x.contents 2 (key addr / 512)) t ∧
      Held x (u1.write (t + 8 * addressToIndex addr 0) 0) (staged 3 x.contents P (key addr) 3) ∧
      u1.freed = u.freed ++ x.cpu.frames (x.contents 3 (key addr)) ∧
      freePage x.cpu x.cr3 u addr =
        freePagingStructures x.cpu (u1.write (t + 8 * addressToIndex addr 0) 0) t x.cr3 addr := by
  obtain ⟨t, ht, -⟩ := h.table hx (d := 2) (by decide)
  obtain ⟨htable, hentry⟩ := h.entry_eq hx hheld ht
  have hrelease : ∃ u1, (if committed (x.contents 3 (key addr)) then
      u.release (x.cpu.rawPtr (x.contents 3 (key addr))) else some u) = some u1 ∧
      Held x u1 (pruned 3 x.contents P) ∧
      u1.freed = u.freed ++ x.cpu.frames (x.contents 3 (key addr)) := by
    unfold Cpu.frames
    split
    · rename_i hcommitted
      have hret := hframe hcommitted
      have haligned := rawPtr_aligned x.cpu (x.contents 3 (key addr))
      refine hheld.release hx haligned hret.ne_null hret.ne_root
        (fun hl => hret.not_table (hheld.live _ hl).1) fun hs => ?_
      obtain ⟨hused, hlt, -⟩ := hret.sound hs
      exact ⟨hused, hkept hs hcommitted, hlt, hret.nextOf_eq hheld haligned hx.tree.root_aligned
        hx.tree.region_lt hs (hkept hs hcommitted)⟩
    · exact ⟨u, rfl, hheld, by simp⟩
  obtain ⟨u1, hret1, hheld1, hfreed1⟩ := hrelease
  refine ⟨t, u1, ht, h.cleared hx hheld1 ht, hfreed1, ?_⟩
  simp only [freePage, htable, hentry, hret1, Option.bind_some]

theorem freePage_mapped :
    ∃ u1 u', freePage x.cpu x.cr3 u addr = some u' ∧ Gone x P (key addr) u1 u' ∧
      u1.freed = u.freed ++ x.cpu.frames (x.contents 3 (key addr)) := by
  obtain ⟨t, u1, ht, hcleared, hfreed1, hret⟩ := freePage_cleared hx h hheld hframe hkept
  obtain ⟨u', hret', hgone, -⟩ := freePagingStructures_spec hx h ht hcleared
  exact ⟨_, u', hret.trans hret', hgone, hfreed1⟩

end Round

/-! ### Holes -/

theorem subset_of_release (h : u.release f = some u') : u.freed ⊆ u'.freed := by
  obtain ⟨-, rfl⟩ := release_eq_some.1 h
  exact subset_append_left _ _

/-- What writes of entries and the giving back of frames keep, `freePagingStructures` keeps. -/
theorem freePagingStructures_preserves (inv : Unmapping → Prop)
    (hwrite : ∀ u a, inv u → inv (u.write a 0))
    (hrelease : ∀ u f u', inv u → u.release f = some u' → inv u') (hinit : inv u)
    (h : freePagingStructures c u t cr3 addr = some u') : inv u' := by
  refine freePagingStructures_rec (fun r => ∀ u', r = some u' → inv u') ?_
    (fun u f _ _ hu u' hret => hrelease u f u' (hu u rfl) hret) ?_ u' h
  · rintro u a - hu _ ⟨⟩
    exact hwrite u a (hu u rfl)
  · rintro _ ⟨⟩
    exact hinit

theorem subset_of_freePagingStructures (h : freePagingStructures c u t cr3 addr = some u') :
    u.freed ⊆ u'.freed :=
  freePagingStructures_preserves (u.freed ⊆ ·.freed) (fun _ _ hsub => hsub)
    (fun _ _ _ hsub hret => List.Subset.trans hsub (subset_of_release hret)) (List.Subset.refl _) h

/-- What a round of the loop gives back first, if the entry it reads is committed. -/
theorem freePage_freed (h : freePage c cr3 u addr = some u') :
    u.freed ++ c.frames (u.pmm.mem.load64 (c.rawPtr (getL2PageMapEntryAt c u.pmm.mem cr3 addr) +
      8 * addressToIndex addr 0)) ⊆ u'.freed := by
  obtain ⟨u1, hret1, h⟩ := Option.bind_eq_some_iff.1 h
  refine List.Subset.trans ?_ (subset_of_freePagingStructures h)
  unfold Cpu.frames
  split at hret1
  · rename_i hcommitted
    obtain ⟨-, rfl⟩ := release_eq_some.1 hret1
    rw [if_pos hcommitted]
    exact List.Subset.refl _
  · rename_i hcommitted
    cases hret1
    rw [if_neg hcommitted, append_nil]
    exact List.Subset.refl _

theorem clean_pruned {E : Entries} {d k : Nat} (h : Clean c d (E d k)) :
    Clean c d (pruned 3 E P d k) := by
  by_cases hempty : Emptied 3 E P d k
  · exact .inl (pruned_of_emptied hempty)
  · rwa [pruned_of_not_emptied hempty]

/-- One round of the loop on a page that is not mapped gives back physical page 0. -/
theorem freePage_hole (hx : x.Valid) (hregion : x.region (key addr / 512 ^ 3))
    (hclean : CleanPath x.cpu x.contents (key addr)) (hheld : Held x u (pruned 3 x.contents P))
    (hhole : pruned 3 x.contents P 3 (key addr) = 0)
    (hret : freePage x.cpu x.cr3 u addr = some u') : 0 ∈ u'.freed := by
  have hzero : x.cpu.rawPtr 0 = 0 := by simp [Cpu.rawPtr]
  have hread : u.pmm.mem.load64 (x.cpu.rawPtr (getL2PageMapEntryAt x.cpu u.pmm.mem x.cr3 addr) +
      8 * addressToIndex addr 0) = 0 := by
    rw [getL2PageMapEntryAt_eq hheld.tree hx.cr3_le hregion (clean_pruned (hclean 0 (by decide)))
      (clean_pruned (hclean 1 (by decide))), addressToIndex_zero]
    have hclean2 : Clean x.cpu 2 (pruned 3 x.contents P 2 (key addr / 512)) :=
      clean_pruned (hclean 2 (by decide))
    rcases hclean2 with hnone | ⟨t, ht, -⟩
    · -- there is no table: the entry is read from physical page 0
      rw [hnone]
      exact load64_eq_zero fun b _ hb => hheld.null b (by omega)
    · rw [ht.rawPtr_eq, ← hhole, hheld.tree.word 3 le_rfl _ hregion, tableOf, ht.child_eq, wordAt]
  have hfreed := freePage_freed hret
  rw [hread] at hfreed
  refine hfreed (mem_append_right _ ?_)
  rw [Cpu.frames, hzero]
  exact mem_singleton_self 0

end Page

/-! ## The loop -/

/-- A table that is left empty when the pages with `P` are taken out. -/
def Start.TableGone (x : Start) (P : Nat → Prop) (t : Nat) : Prop :=
  ∃ d < 3, ∃ k, Emptied 3 x.contents P d k ∧ child (x.contents d k) = some t

/-- The pages `V` were mapped and have been taken out, and the frames given back are theirs and
those of the tables that were left empty. -/
structure Closed (x : Start) (V : List Nat) (u : Unmapping) : Prop where
  held : Held x u (pruned 3 x.contents (· ∈ V))
  nodup : V.Nodup
  mapped : ∀ p ∈ V, x.contents 3 p ≠ 0
  freed : ∃ tables, u.freed.Perm ((V.flatMap fun p => x.cpu.frames (x.contents 3 p)) ++ tables) ∧
    tables.Nodup ∧ ∀ t, t ∈ tables ↔ x.TableGone (· ∈ V) t

section Loop

variable {x : Start} {u u' : Unmapping} {V : List Nat} {p : Nat}

theorem plus_mem : plus (· ∈ V) p = (· ∈ V ++ [p]) := by
  funext k
  simp [plus]

/-- The tables that go with one more page are those that went before and those on its path. -/
theorem tableGone_append (h : Leaving x (· ∈ V) p) (t : Nat) :
    x.TableGone (· ∈ V ++ [p]) t ↔ x.TableGone (· ∈ V) t ∨
      ∃ d < 3, Emptied 3 x.contents (plus (· ∈ V) p) d (p / 512 ^ (3 - d)) ∧
        child (x.contents d (p / 512 ^ (3 - d))) = some t := by
  rw [← plus_mem]
  constructor
  · rintro ⟨d, hd, k, hempty, ht⟩
    by_cases hk : k = p / 512 ^ (3 - d)
    · subst hk
      exact .inr ⟨d, hd, hempty, ht⟩
    · exact .inl ⟨d, hd, k, (emptied_plus_other hk).1 hempty, ht⟩
  · rintro (⟨d, hd, k, hempty, ht⟩ | ⟨d, hd, hempty, ht⟩)
    · have hk : k ≠ p / 512 ^ (3 - d) := by
        rintro rfl
        exact not_emptied_path h.stays h.mapped hd.le hempty
      exact ⟨d, hd, k, (emptied_plus_other hk).2 hempty, ht⟩
    · exact ⟨d, hd, _, hempty, ht⟩

/-- The tables that went before are not those on the path of one more page. -/
theorem tableGone_disjoint (hx : x.Valid) (hV : ∀ q ∈ V, x.region (q / 512 ^ 3))
    (h : Leaving x (· ∈ V) p) {t d : Nat} (hold : x.TableGone (· ∈ V) t) (hd : d < 3)
    (ht : child (x.contents d (p / 512 ^ (3 - d))) = some t) : False := by
  obtain ⟨d', hd', k, hempty, ht'⟩ := hold
  obtain ⟨q, hq, -, rfl⟩ := hempty.1
  have hregion := region_path (hV q hq) hd'.le
  obtain ⟨rfl, hk⟩ := hx.tree.inj d' hd' _ hregion d hd _ (h.region_path hd.le) t ht' ht
  rw [hk] at hempty
  exact not_emptied_path h.stays h.mapped hd.le hempty

/-- Before the first page. -/
theorem Closed.nil (hheld : Held x u x.contents) (hfreed : u.freed = []) : Closed x [] u := by
  have hnone : ∀ d k, ¬ Emptied 3 x.contents (· ∈ ([] : List Nat)) d k := by
    rintro d k ⟨⟨p, hp, -⟩, -⟩
    cases hp
  refine ⟨hheld.congr fun d _ k _ => pruned_of_not_emptied (hnone d k), nodup_nil, by simp, [],
    by simp [hfreed], nodup_nil, fun t => iff_of_false not_mem_nil ?_⟩
  rintro ⟨d, -, k, hempty, -⟩
  exact hnone d k hempty

/-- What has been given back. -/
theorem Closed.mem_freed (hclosed : Closed x V u) {f : Nat} (hf : f ∈ u.freed) :
    (∃ q ∈ V, committed (x.contents 3 q) = true ∧ x.cpu.rawPtr (x.contents 3 q) = f) ∨
      x.TableGone (· ∈ V) f := by
  obtain ⟨tables, hperm, -, hmem⟩ := hclosed.freed
  rw [hperm.mem_iff, mem_append, hmem] at hf
  refine hf.imp (fun hin => ?_) id
  obtain ⟨q, hq, hin⟩ := mem_flatMap.1 hin
  exact ⟨q, hq, mem_frames.1 hin⟩

/-- One more page. -/
theorem Closed.gone (hx : x.Valid) (hclosed : Closed x V u) (hV : ∀ q ∈ V, x.region (q / 512 ^ 3))
    (h : Leaving x (· ∈ V) p) {u1 : Unmapping} (hgone : Gone x (· ∈ V) p u1 u')
    (hfreed : u1.freed = u.freed ++ x.cpu.frames (x.contents 3 p)) : Closed x (V ++ [p]) u' := by
  obtain ⟨tables, hperm, hnodup, hmem⟩ := hclosed.freed
  obtain ⟨new, hnew, hnewnodup, hnewmem⟩ := hgone.freed
  have hdisjoint : ∀ t ∈ tables, ∀ t' ∈ new, t ≠ t' := by
    rintro t ht t' ht' rfl
    obtain ⟨d, hd, -, hchild⟩ := (hnewmem t).1 ht'
    exact tableGone_disjoint hx hV h ((hmem t).1 ht) hd hchild
  refine ⟨plus_mem ▸ hgone.held, ?_, ?_, tables ++ new, ?_,
    nodup_append.2 ⟨hnodup, hnewnodup, hdisjoint⟩, ?_⟩
  · exact nodup_append.2 ⟨hclosed.nodup, nodup_singleton p, fun q hq q' hq' => by
      rw [mem_singleton] at hq'
      rintro rfl
      exact h.stays (hq' ▸ hq)⟩
  · intro q hq
    rcases mem_append.1 hq with hq | hq
    · exact hclosed.mapped q hq
    · rw [mem_singleton.1 hq]
      exact h.mapped
  · rw [hnew, hfreed, flatMap_append, flatMap_singleton]
    refine ((hperm.append_right _).append_right _).trans ?_
    simp only [append_assoc]
    exact (perm_append_comm_assoc _ _ _).append_left _
  · intro t
    rw [mem_append, hmem, hnewmem, tableGone_append h]

/-- Frames of pages not yet taken out have not been given back. -/
theorem Closed.frame_kept (hclosed : Closed x V u) (hV : ∀ q ∈ V, x.region (q / 512 ^ 3))
    (hret : Returnable x (x.cpu.rawPtr (x.contents 3 p)))
    (hinj : ∀ q ∈ V, committed (x.contents 3 q) = true →
      x.cpu.rawPtr (x.contents 3 q) = x.cpu.rawPtr (x.contents 3 p) → q = p) (hp : p ∉ V) :
    x.cpu.rawPtr (x.contents 3 p) ∉ u.freed := by
  intro hin
  rcases hclosed.mem_freed hin with ⟨q, hq, hcommitted, heq⟩ | ⟨d, hd, k, hempty, ht⟩
  · exact hp (hinj q hq hcommitted heq ▸ hq)
  · obtain ⟨q, hq, -, rfl⟩ := hempty.1
    exact hret.not_table ⟨d, hd, _, region_path (hV q hq) hd.le, ht⟩

/-- What the loop does: either it comes to a page that is not mapped, and physical page 0 is given
back, or exactly the pages visited are taken out. -/
theorem freeLoop_spec (hx : x.Valid) {addrs : List Nat}
    (hregion : ∀ a ∈ addrs, x.region (key a / 512 ^ 3))
    (hclean : ∀ a ∈ addrs, CleanPath x.cpu x.contents (key a))
    (hframes : ∀ a ∈ addrs, x.contents 3 (key a) ≠ 0 → committed (x.contents 3 (key a)) = true →
      Returnable x (x.cpu.rawPtr (x.contents 3 (key a))))
    (hinj : x.sound → ∀ a ∈ addrs, ∀ b ∈ addrs, committed (x.contents 3 (key a)) = true →
      x.contents 3 (key a) ≠ 0 → committed (x.contents 3 (key b)) = true →
      x.contents 3 (key b) ≠ 0 →
      x.cpu.rawPtr (x.contents 3 (key a)) = x.cpu.rawPtr (x.contents 3 (key b)) → key a = key b)
    (hheld : Held x u x.contents) (hfreed : u.freed = [])
    (hret : addrs.foldlM (freePage x.cpu x.cr3) u = some u') :
    (0 ∈ u'.freed ∧ ¬ ((addrs.map key).Nodup ∧ ∀ a ∈ addrs, x.contents 3 (key a) ≠ 0)) ∨
      Closed x (addrs.map key) u' := by
  refine foldlM_invariant hret (fun done u1 => (0 ∈ u1.freed ∧ ¬ ((done.map key).Nodup ∧
    ∀ a ∈ done, x.contents 3 (key a) ≠ 0)) ∨ Closed x (done.map key) u1)
    (.inr (.nil hheld hfreed)) ?_
  rintro done a rest u1 u2 rfl (⟨hnull, hbad⟩ | hclosed) hbody
  · refine .inl ⟨freePage_freed hbody (mem_append_left _ hnull), ?_⟩
    rintro ⟨hnodup, hmapped⟩
    rw [map_append] at hnodup
    exact hbad ⟨hnodup.of_append_left, fun b hb => hmapped b (by simp [hb])⟩
  have ha : a ∈ done ++ a :: rest := by simp
  have hdone : ∀ b ∈ done, b ∈ done ++ a :: rest := fun b hb => by simp [hb]
  by_cases hhole : pruned 3 x.contents (· ∈ done.map key) 3 (key a) = 0
  · refine .inl ⟨freePage_hole hx (hregion a ha) (hclean a ha) hclosed.held hhole hbody, ?_⟩
    rintro ⟨hnodup, hmapped⟩
    rcases pruned_eq_zero_iff.1 hhole with hzero | hempty
    · exact hmapped a (by simp) hzero
    · rw [map_append, nodup_append] at hnodup
      exact hnodup.2.2 (key a) (emptied_leaf_iff.1 hempty).1 (key a) (by simp) rfl
  rw [pruned_eq_zero_iff, emptied_leaf_iff] at hhole
  push Not at hhole
  have hleaving : Leaving x (· ∈ done.map key) (key a) :=
    ⟨hregion a ha, fun hin => hhole.1 (hhole.2 hin), hhole.1, hclean a ha⟩
  have hV : ∀ q ∈ done.map key, x.region (q / 512 ^ 3) :=
    forall_mem_map.2 fun b hb => hregion b (hdone b hb)
  have hkept : x.sound → committed (x.contents 3 (key a)) = true →
      x.cpu.rawPtr (x.contents 3 (key a)) ∉ u1.freed := by
    intro hs hcommitted
    refine hclosed.frame_kept hV (hframes a ha hhole.1 hcommitted) (fun q hq hq' heq => ?_)
      hleaving.stays
    have hmapped := hclosed.mapped q hq
    obtain ⟨b, hb, rfl⟩ := mem_map.1 hq
    exact hinj hs b (hdone b hb) a ha hq' hmapped hcommitted hhole.1 heq
  obtain ⟨u3, u4, hret4, hgone, hfreed3⟩ := freePage_mapped hx hleaving hclosed.held
    (hframes a ha hhole.1) hkept
  rw [hbody] at hret4
  cases hret4
  rw [map_append]
  exact .inr (hclosed.gone hx hV hleaving hgone hfreed3)

end Loop

end Obos.Paging
