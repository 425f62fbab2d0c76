import Obos.Physical.Allocator

/-!
# Single frames

Most of the kernel asks the physical allocator for one page at a time. `Pool`
states what such a caller needs to know: the frames of the free list lie below
the limit of physical memory and outside the frames in use. One page of a pool
is a frame that is not in use (`Pool.allocate`), a frame given back leaves the
frames in use (`Pool.free`), and neither writes to a frame in use.

The list may be empty. The allocator then looks at physical page 0 as if it
were a node. That page is cleared when the kernel starts; it counts as used, and
it has to stay zero.
-/

namespace Obos.Physical

open Lib List

/-- The frame a physical address lies in. -/
def frameAt (b : Nat) : Nat := b / 4096 * 4096

theorem frameAt_eq {b f : Nat} (hf : f % 4096 = 0) (hlo : f ≤ b) (hhi : b < f + 4096) :
    frameAt b = f := by
  unfold frameAt
  omega

theorem outside_of_frameAt_ne {b f : Nat} (hf : f % 4096 = 0) (h : frameAt b ≠ f) :
    b < f ∨ f + 4096 ≤ b := by
  by_contra hin
  exact h (frameAt_eq hf (by omega) (by omega))

/-- The allocator is not locked, its free list consists of frames below the limit that are not in
use, and physical page 0 is zero. -/
structure Pool (limit : Nat) (s : Pmm) (used : Set Nat) : Prop where
  unlocked : s.locked = false
  free : ∃ xs, FreeList s xs ∧ (freePages s xs).Nodup ∧
    ∀ p ∈ freePages s xs, 4096 * p < limit ∧ 4096 * p ∉ used
  null_used : 0 ∈ used
  null : ∀ b < 4096, s.mem b = 0

variable {limit f b : Nat} {s s' : Pmm} {used : Set Nat} {xs : List Nat}

theorem FreeList.mem_freePages (h : FreeList s xs) {x : Nat} (hx : x ∈ xs) :
    x / 4096 ∈ freePages s xs := by
  refine mem_flatMap.2 ⟨x, hx, mem_pages.2 ⟨le_rfl, ?_⟩⟩
  have := h.pos x hx
  omega

/-- The header of a node is in the first of its pages. -/
theorem FreeList.frameAt_header (h : FreeList s xs) {x : Nat} (hx : x ∈ xs) (hlo : x ≤ b)
    (hhi : b < x + 24) : ∃ p ∈ freePages s xs, frameAt b = 4096 * p := by
  have haligned := h.aligned x hx
  refine ⟨x / 4096, h.mem_freePages hx, ?_⟩
  unfold frameAt
  omega

/-- The header of a node is outside every frame in use. -/
theorem FreeList.outside_used (h : FreeList s xs)
    (hfree : ∀ p ∈ freePages s xs, 4096 * p < limit ∧ 4096 * p ∉ used) (hb : frameAt b ∈ used) :
    ∀ x ∈ xs, b < x ∨ x + 24 ≤ b := by
  intro x hx
  by_contra hin
  obtain ⟨p, hp, hframe⟩ := h.frameAt_header hx (b := b) (by omega) (by omega)
  exact (hfree p hp).2 (hframe ▸ hb)

/-- The free list ends in a frame that is not in use, or is empty. -/
theorem Pool.tail (h : Pool limit s used) :
    s.memoryTail % 4096 = 0 ∧ (s.memoryTail = 0 ∨ s.memoryTail ∉ used) := by
  obtain ⟨xs, hlist, -, hfree⟩ := h.free
  refine ⟨hlist.tail_aligned, ?_⟩
  by_cases ht : s.memoryTail = 0
  · exact .inl ht
  · have haligned := hlist.tail_aligned
    have hunused := (hfree _ (hlist.mem_freePages (hlist.list.tail_mem ht))).2
    change 4096 * (s.memoryTail / 4096) ∉ used at hunused
    rw [Nat.mul_div_cancel' (Nat.dvd_of_mod_eq_zero haligned)] at hunused
    exact .inr hunused

/-- Pages that are not on the list may be written. -/
theorem FreeList.congr_frames (h : FreeList s xs) {m : Memory}
    (hmem : ∀ p ∈ freePages s xs, ∀ b, frameAt b = 4096 * p → m b = s.mem b) :
    FreeList { s with mem := m } xs ∧ freePages { s with mem := m } xs = freePages s xs := by
  have hsame : ∀ x ∈ xs, Memory.SameOn s.mem m x (x + 24) := by
    intro x hx b hlo hhi
    obtain ⟨p, hp, hframe⟩ := h.frameAt_header hx hlo hhi
    exact hmem p hp b hframe
  exact ⟨h.congr rfl rfl hsame, freePages_congr fun x hx =>
    Memory.loadNat_congr ((hsame x hx).mono (by omega) (by omega))⟩

/-- Pages that are written while in use do not disturb the pool. -/
theorem Pool.congr (h : Pool limit s used) {m : Memory}
    (hmem : ∀ b, frameAt b ∉ used → m b = s.mem b) (hnull : ∀ b < 4096, m b = 0) :
    Pool limit { s with mem := m } used := by
  obtain ⟨xs, hlist, hnodup, hfree⟩ := h.free
  obtain ⟨hlist', hpages⟩ := hlist.congr_frames fun p hp b hb => hmem b (hb ▸ (hfree p hp).2)
  refine ⟨h.unlocked, ⟨xs, hlist', ?_, ?_⟩, h.null_used, hnull⟩
  · rwa [hpages]
  · rwa [hpages]

/-- A page of the free list. -/
def OnFreeList (s : Pmm) (p : Nat) : Prop := ∃ xs, FreeList s xs ∧ p ∈ freePages s xs

theorem FreeList.onFreeList_iff (h : FreeList s xs) {p : Nat} :
    OnFreeList s p ↔ p ∈ freePages s xs := by
  refine ⟨fun hp => ?_, fun hp => ⟨xs, h, hp⟩⟩
  obtain ⟨ys, hys, hmem⟩ := hp
  rwa [h.list.unique hys.list]

@[inherit_doc Pool.congr]
theorem Pool.onFreeList_congr (h : Pool limit s used) {m : Memory}
    (hmem : ∀ b, frameAt b ∉ used → m b = s.mem b) {p : Nat} (hp : OnFreeList s p) :
    OnFreeList { s with mem := m } p := by
  obtain ⟨xs, hlist, -, hfree⟩ := h.free
  obtain ⟨hlist', hpages⟩ := hlist.congr_frames fun p hp b hb => hmem b (hb ▸ (hfree p hp).2)
  rw [hlist'.onFreeList_iff, hpages]
  exact hlist.onFreeList_iff.1 hp

theorem null_congr (hzero : 0 ∈ used) {m m' : Memory} (hnull : ∀ b < 4096, m b = 0)
    (hmem : ∀ b, frameAt b ∈ used → m' b = m b) : ∀ b < 4096, m' b = 0 := by
  intro b hb
  have hframe : frameAt b = 0 := frameAt_eq rfl (by omega) (by omega)
  rw [hmem b (hframe ▸ hzero), hnull b hb]

/-- A request that finds the list empty returns 0 and keeps the lock. -/
theorem allocatePhysicalPage_empty {fuel : Nat} (hhead : s.memoryHead = 0)
    (hnull : ∀ b < 4096, s.mem b = 0) (hret : s.allocatePhysicalPage fuel 1 = some (f, s')) :
    f = 0 ∧ s' = { s with locked := true, interruptFlag := false } := by
  have hword {a : Nat} (ha : a + 8 ≤ 4096) : s.mem.loadNat a = 0 :=
    congrArg BitVec.toNat (Memory.load64_eq_zero fun x _ hx => hnull x (by omega))
  refine allocatePhysicalPage_small (fun node hscanned => ?_) hret
  have hnode : node = 0 := by
    induction hscanned with
    | head => exact hhead
    | next _ hne ih =>
      rw [ih] at hne
      exact absurd (hword (by decide)) hne
  have hpages : nPagesOf s.mem 0 = 0 := hword (by decide)
  rw [hnode, hpages]
  decide

/-- One page of a pool is a frame that was not in use and now is, or 0 if there is none left. -/
theorem Pool.allocate (h : Pool limit s used) {fuel : Nat}
    (hret : s.allocatePhysicalPage fuel 1 = some (f, s')) :
    (s.memoryHead = 0 ∧ f = 0 ∧ s' = { s with locked := true, interruptFlag := false }) ∨
      (f % 4096 = 0 ∧ f ∉ used ∧ f < limit ∧ Pool limit s' (insert f used) ∧
        ∀ b, frameAt b ∈ used → s'.mem b = s.mem b) := by
  obtain ⟨xs, hlist, hnodup, hfree⟩ := h.free
  obtain ⟨hlock, hnodes, hfuel⟩ := allocatePhysicalPage_returns hret
  cases xs with
  | nil =>
    exact .inl ⟨hlist.list.head_eq, allocatePhysicalPage_empty hlist.list.head_eq h.null hret⟩
  | cons node rest =>
    right
    obtain ⟨s'', xs', hret', -, halloc⟩ := hlist.allocatePhysicalPage hlock hnodes le_rfl
      (hlist.pos node mem_cons_self) hfuel
    obtain ⟨rfl, rfl⟩ : f = node + (nPagesOf s.mem node - 1) * 4096 ∧ s' = s'' := by
      rw [hret] at hret'
      simpa using hret'
    have hnode := hlist.aligned node mem_cons_self
    set f := node + (nPagesOf s.mem node - 1) * 4096 with hf
    have haligned : f % 4096 = 0 := by omega
    have hpage : pages f 1 = [f / 4096] := rfl
    have hmem : f / 4096 ∈ freePages s (node :: rest) :=
      halloc.perm.mem_iff.1 (by simp [hpage])
    have hframe : 4096 * (f / 4096) = f := by omega
    have hout := hfree _ hmem
    rw [hframe] at hout
    have hsame : ∀ b, frameAt b ∈ used → s'.mem b = s.mem b := fun b hb =>
      halloc.headers b (hlist.outside_used hfree hb)
    have hnodup' := halloc.perm.nodup_iff.2 hnodup
    rw [nodup_append] at hnodup'
    refine ⟨haligned, hout.2, hout.1, ⟨halloc.locked.trans hlock, ⟨xs', halloc.freeList,
      hnodup'.1, fun p hp => ?_⟩, Set.mem_insert_of_mem f h.null_used,
      null_congr h.null_used h.null hsame⟩, hsame⟩
    have hold := hfree p (halloc.perm.mem_iff.1 (mem_append_left _ hp))
    refine ⟨hold.1, fun hused => ?_⟩
    rcases Set.mem_insert_iff.1 hused with heq | hused
    · exact hnodup'.2.2 p hp _ mem_cons_self (by omega)
    · exact hold.2 hused

/-- A frame in use that is given back is no longer in use; its first word has to be zero. -/
theorem Pool.release (h : Pool limit s used) (hf : f ∈ used) (haligned : f % 4096 = 0)
    (hne : f ≠ 0) (hlt : f < limit) (hlimit : limit ≤ 2 ^ 52) (hnext : nextOf s.mem f = 0) :
    Pool limit (s.appendNode f 1) (used \ {f}) ∧
      (∀ b, frameAt b ∈ used \ {f} → (s.appendNode f 1).mem b = s.mem b) ∧
      ∀ p, OnFreeList (s.appendNode f 1) p ↔ OnFreeList s p ∨ p = f / 4096 := by
  obtain ⟨xs, hlist, hnodup, hfree⟩ := h.free
  have hframe : 4096 * (f / 4096) = f := by omega
  have hnot : f / 4096 ∉ freePages s xs := fun hp => (hfree _ hp).2 (by rwa [hframe])
  have hmem : f ∉ xs := fun hx => hnot (hlist.mem_freePages hx)
  have hsame : ∀ b, frameAt b ∈ used \ {f} → (s.appendNode f 1).mem b = s.mem b := by
    intro b hb
    refine hlist.headersOnly_appendNode b fun x hx => ?_
    rcases mem_cons.1 hx with rfl | hx
    · have := outside_of_frameAt_ne haligned hb.2
      omega
    · exact hlist.outside_used hfree hb.1 x hx
  have hold : ∀ x ∈ xs, nPagesOf (s.appendNode f 1).mem x = nPagesOf s.mem x := fun x hx =>
    hlist.nPagesOf_appendNode haligned (hlist.aligned x hx) fun he => hmem (he ▸ hx)
  have hpages : freePages (s.appendNode f 1) (xs ++ [f]) = freePages s xs ++ [f / 4096] := by
    have hxs := freePages_congr hold
    unfold freePages at hxs ⊢
    rw [flatMap_append, hxs, flatMap_singleton,
      FreeList.nPagesOf_appendNode_self (by decide)]
    rfl
  have hzero : (0 : Nat) ∈ used \ {f} := ⟨h.null_used, fun he => hne he.symm⟩
  have hlist' := hlist.appendNode haligned hne hmem hnext le_rfl (by omega)
  refine ⟨⟨h.unlocked, ⟨xs ++ [f], hlist', ?_, ?_⟩, hzero, null_congr hzero h.null hsame⟩, hsame,
    fun p => ?_⟩
  · rw [hpages, nodup_append]
    refine ⟨hnodup, nodup_singleton _, fun p hp q hq => ?_⟩
    rintro rfl
    exact hnot (mem_singleton.1 hq ▸ hp)
  · rw [hpages]
    intro p hp
    rcases mem_append.1 hp with hp | hp
    · exact ⟨(hfree p hp).1, fun hu => (hfree p hp).2 hu.1⟩
    · rw [mem_singleton.1 hp, hframe]
      exact ⟨hlt, fun hu => hu.2 rfl⟩
  · rw [hlist'.onFreeList_iff, hpages, mem_append, mem_singleton, hlist.onFreeList_iff]

end Obos.Physical
