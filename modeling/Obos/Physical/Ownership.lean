import Obos.Lib.Run
import Obos.Physical.Allocator

/-!
# Ownership of physical pages

The callers of the page allocator own the ranges it has handed out and may write
to them as they like. A run is a sequence of allocations, of frees that give back
a range that is handed out (the whole of it or a part), and of writes by the
owners. `Safe` is what the callers rely on: no page is handed out twice or while
it is on the free list, and no page is made up.

Two things break it. `allocatePhysicalPage` counts the address it returns from
the head of the list, also when the pages come from a later node, and
`freePhysicalPage` leaves the first word of the freed range in place as the link
to the next node. `allocation_safe` shows that these are the only ways: runs that
avoid both are safe on every sound memory map. They lose no page
(`pages_conserved`).
-/

namespace Obos.Physical

open Lib List

/-- A range of physical pages. -/
structure Range where
  base : Nat
  nPages : Nat
  deriving DecidableEq

namespace Range

/-- The end of the range. -/
def stop (r : Range) : Nat := r.base + 4096 * r.nPages

/-- The ranges have no byte in common. -/
def Disjoint (r r' : Range) : Prop := r.stop ≤ r'.base ∨ r'.stop ≤ r.base

/-- The range lies inside another one. -/
def Within (r g : Range) : Prop := g.base ≤ r.base ∧ r.stop ≤ g.stop

/-- The range is a page-aligned, non-empty part of the address space that does not start at 0. -/
structure Sound (r : Range) : Prop where
  aligned : r.base % 4096 = 0
  base_ne : r.base ≠ 0
  pos : 1 ≤ r.nPages
  bound : r.stop ≤ 2 ^ 64

/-- The page frames of the range. -/
def frames (r : Range) : List Nat := pages r.base r.nPages

/-- For page-aligned non-empty ranges, no common byte means no common frame. -/
theorem disjoint_iff_frames {r r' : Range} (h : r.Sound) (h' : r'.Sound) :
    r.Disjoint r' ↔ r.frames.Disjoint r'.frames := by
  have h1 := h.aligned
  have h2 := h.pos
  have h3 := h'.aligned
  have h4 := h'.pos
  constructor
  · intro hd p hp hp'
    rw [frames, mem_pages] at hp hp'
    unfold Disjoint stop at hd
    omega
  · intro hd
    by_contra hne
    unfold Disjoint stop at hne
    -- the larger of the two first frames would be common
    have hmax := @hd (max (r.base / 4096) (r'.base / 4096))
      (by rw [frames, mem_pages]; omega) (by rw [frames, mem_pages]; omega)
    exact hmax

end Range

open Range (base frames stop)

/-- The allocator together with what its callers have: the ranges handed out, and all ranges that
initialisation or a free ever put on the list. -/
structure World where
  pmm : Pmm
  out : List Range
  given : List Range

/-- What happens to the allocator from outside. -/
inductive Action where
  | alloc (nPages : Nat)
  | free (addr nPages : Nat)
  | write (mem : Memory)

/-- The part of a handed-out range that is left when some of its pages are given back. -/
def remainder (o : Range) (skip nPages : Nat) : List Range :=
  [⟨o.base, skip⟩, ⟨o.base + 4096 * (skip + nPages), o.nPages - skip - nPages⟩].filter
    fun r => 0 < r.nPages

/-- A call that returns, or a write of the owners to their pages. A return value of 0 hands
nothing out; a free gives back pages of one handed-out range. -/
def Step (w : World) : Action → World → Prop
  | .alloc n, w' => 1 ≤ n ∧ ∃ fuel ret pmm, w.pmm.allocatePhysicalPage fuel n = some (ret, pmm) ∧
      w' = ⟨pmm, if ret = 0 then w.out else ⟨ret, n⟩ :: w.out, w.given⟩
  | .free a n, w' => 1 ≤ n ∧ ∃ o ∈ w.out, ∃ skip, a = o.base + 4096 * skip ∧
      skip + n ≤ o.nPages ∧ ∃ pmm, w.pmm.freePhysicalPage a n = some pmm ∧
      w' = ⟨pmm, remainder o skip n ++ w.out.erase o, ⟨a, n⟩ :: w.given⟩
  | .write m, w' => (∀ b, (∀ r ∈ w.out, b < r.base ∨ r.stop ≤ b) → m b = w.pmm.mem b) ∧
      w' = { w with pmm := { w.pmm with mem := m } }

/-- The nodes reachable from the head of the free list. -/
inductive OnList (s : Pmm) : Nat → Prop where
  | head : s.memoryHead ≠ 0 → OnList s s.memoryHead
  | next {node : Nat} : OnList s node → nextOf s.mem node ≠ 0 → OnList s (nextOf s.mem node)

/-- The handed-out ranges are pairwise disjoint, disjoint from the ranges on the free list, and
each lies inside a range that was put on the list. -/
def Safe (w : World) : Prop :=
  w.out.Pairwise Range.Disjoint ∧
  (∀ r ∈ w.out, ∀ node, OnList w.pmm node → r.Disjoint ⟨node, nPagesOf w.pmm.mem node⟩) ∧
  ∀ r ∈ w.out, ∃ g ∈ w.given, r.Within g

/-- The range of the node made of an entry. -/
def MemmapEntry.range (e : MemmapEntry) : Range := ⟨e.nodeBase, e.nodePages⟩

@[simp] theorem MemmapEntry.range_base (e : MemmapEntry) : e.range.base = e.nodeBase := rfl

/-- The ranges initialisation puts on the list for a memory map. -/
def mapRanges (map : List MemmapEntry) : List Range :=
  (map.filter MemmapEntry.usable).map MemmapEntry.range

/-- The state after initialisation on memory with any contents. -/
def start (mem : Memory) (map : List MemmapEntry) : World :=
  ⟨Pmm.initializePhysicalMemoryManager mem map, [], mapRanges map⟩

/-- A request for two pages that the first node is too small for gets an address that no range on
the list contains. -/
theorem allocation_outside_every_range : ¬ ∀ w, Reaches (fun _ _ => True) Step
    (start (fun _ => 0) [⟨0x1000, 0x1000, true⟩, ⟨0x10000, 0x4000, true⟩]) w → Safe w := by
  intro hall
  have hstep : Step (start (fun _ => 0) [⟨0x1000, 0x1000, true⟩, ⟨0x10000, 0x4000, true⟩])
      (.alloc 2) ⟨_, [⟨0x3000, 2⟩], [⟨0x1000, 1⟩, ⟨0x10000, 4⟩]⟩ :=
    ⟨by decide, 2, 0x3000, _, rfl, rfl⟩
  obtain ⟨-, -, hwithin⟩ := hall _ (.single ⟨.alloc 2, trivial, hstep⟩)
  obtain ⟨g, hg, hin⟩ := hwithin ⟨0x3000, 2⟩ mem_cons_self
  simp only [mem_cons, not_mem_nil, or_false] at hg
  rcases hg with rfl | rfl
  · simp [Range.Within, stop] at hin
  · simp [Range.Within, stop] at hin

/-! ## Orderly runs -/

/-- An allocation is served by the first node or by none; a freed range starts with a zero
word. -/
def Orderly (w : World) : Action → Prop
  | .alloc n => (w.pmm.memoryHead ≠ 0 ∧ n ≤ nPagesOf w.pmm.mem w.pmm.memoryHead) ∨
      ∀ node, Scanned w.pmm node → nPagesOf w.pmm.mem node < n
  | .free a _ => nextOf w.pmm.mem a = 0
  | .write _ => True

/-- The ranges made of the memory map are sound and pairwise disjoint. -/
def OrderlyMap (map : List MemmapEntry) : Prop :=
  (∀ r ∈ mapRanges map, r.Sound) ∧ (mapRanges map).Pairwise Range.Disjoint

/-- The ranges on the free list. -/
def freeRanges (s : Pmm) (xs : List Nat) : List Range := xs.map fun x => ⟨x, nPagesOf s.mem x⟩

theorem freePages_eq (s : Pmm) (xs : List Nat) :
    freePages s xs = (freeRanges s xs).flatMap Range.frames := by
  rw [freeRanges, flatMap_map]
  rfl

/-- The page frames on the list and those handed out. -/
def World.pages (w : World) (xs : List Nat) : List Nat :=
  freePages w.pmm xs ++ w.out.flatMap Range.frames

/-- No page frame is on the free list or handed out twice, and everything handed out or on the
list comes from a range that was put there. -/
structure Inv (w : World) (xs : List Nat) : Prop where
  freeList : FreeList w.pmm xs
  nodup : (w.pages xs).Nodup
  sound : ∀ r ∈ w.out, r.Sound
  within : ∀ r ∈ freeRanges w.pmm xs ++ w.out, ∃ g ∈ w.given, r.Within g

variable {xs : List Nat} {w : World} {s : Pmm} {n skip : Nat} {o : Range}

/-- The nodes reachable from the head are the nodes of the list. -/
theorem FreeList.mem_of_onList (h : FreeList s xs) {node : Nat} (hnode : OnList s node) :
    node ∈ xs := by
  induction hnode with
  | head hne => exact h.list.head_mem hne
  | next _ hne ih =>
    obtain ⟨as, bs, rfl⟩ := append_of_mem ih
    have hnext := (neighbours_mem h.list).2.resolve_left hne
    exact mem_append_right _ (mem_cons_of_mem _ hnext)

theorem FreeList.sound (h : FreeList s xs) {x : Nat} (hx : x ∈ xs) :
    Range.Sound ⟨x, nPagesOf s.mem x⟩ :=
  ⟨h.aligned x hx, fun he => h.list.null_notMem (he ▸ hx), h.pos x hx, h.bound x hx⟩

/-- The invariant gives what the callers rely on. -/
theorem Inv.safe (h : Inv w xs) : Safe w := by
  obtain ⟨hfree, hout, hcross⟩ := nodup_append.1 h.nodup
  refine ⟨?_, ?_, fun r hr => h.within r (mem_append_right _ hr)⟩
  · refine List.Pairwise.imp_of_mem ?_ (nodup_flatMap.1 hout).2
    intro r r' hr hr' hd
    exact (Range.disjoint_iff_frames (h.sound r hr) (h.sound r' hr')).2 hd
  · intro r hr node hnode
    have hmem := h.freeList.mem_of_onList hnode
    refine (Range.disjoint_iff_frames (h.sound r hr) (h.freeList.sound hmem)).2 ?_
    intro p hp hp'
    exact hcross p (mem_flatMap.2 ⟨node, hmem, hp'⟩) p (mem_flatMap.2 ⟨r, hr, hp⟩) rfl

/-! ## Steps -/

theorem Range.Within.trans {r r' g : Range} (h : r.Within r') (h' : r'.Within g) : r.Within g :=
  ⟨h'.1.trans h.1, h.2.trans h'.2⟩

/-- An allocation served by the first node keeps the invariant, and takes the node off the list if
nothing is left of it. -/
theorem Inv.alloc {node fuel ret : Nat} {rest : List Nat} {pmm : Pmm} (h : Inv w (node :: rest))
    (hn : 1 ≤ n) (hlarge : n ≤ nPagesOf w.pmm.mem node)
    (hcall : w.pmm.allocatePhysicalPage fuel n = some (ret, pmm)) :
    ∃ xs, Inv ⟨pmm, if ret = 0 then w.out else ⟨ret, n⟩ :: w.out, w.given⟩ xs ∧
      pmm.nMemoryNodes = w.pmm.nMemoryNodes ∧
      (xs = if n = nPagesOf w.pmm.mem node then rest else node :: rest) ∧
      (World.pages ⟨pmm, if ret = 0 then w.out else ⟨ret, n⟩ :: w.out, w.given⟩ xs).Perm
        (w.pages (node :: rest)) := by
  obtain ⟨hlock, hnodes, hfuel⟩ := allocatePhysicalPage_returns hcall
  obtain ⟨s', xs, hreturn, hxs, hspec⟩ :=
    h.freeList.allocatePhysicalPage hlock hnodes hn hlarge hfuel
  rw [hcall] at hreturn
  cases hreturn
  have hnode := h.freeList.sound mem_cons_self
  have hstop := hnode.bound
  have haligned := hnode.aligned
  have hne := hnode.base_ne
  simp only [stop] at hstop haligned hne
  -- the pages returned are the last ones of the node
  have hret : Range.Within ⟨node + (nPagesOf w.pmm.mem node - n) * 4096, n⟩
      ⟨node, nPagesOf w.pmm.mem node⟩ := ⟨Nat.le_add_right _ _, by simp only [stop]; omega⟩
  rw [if_neg (by omega)]
  have hperm := hspec.perm.append_right (w.out.flatMap frames)
  rw [append_assoc] at hperm
  refine ⟨xs, ⟨hspec.freeList, hperm.nodup_iff.2 h.nodup, ?_, ?_⟩, hspec.nMemoryNodes, hxs, hperm⟩
  · intro r hr
    rcases mem_cons.1 hr with rfl | hr
    · refine ⟨by simp only; omega, by simp only; omega, hn, ?_⟩
      simp only [stop]
      omega
    · exact h.sound r hr
  · intro r hr
    rcases mem_append.1 hr with hr | hr
    · obtain ⟨x, hx, rfl⟩ := mem_map.1 hr
      obtain ⟨g, hg, hin⟩ := h.within ⟨x, nPagesOf w.pmm.mem x⟩
        (mem_append_left _ (mem_map_of_mem (hspec.subset hx)))
      have hle := hspec.le x hx
      exact ⟨g, hg, Range.Within.trans ⟨le_refl x, by simp only [stop]; omega⟩ hin⟩
    · rcases mem_cons.1 hr with rfl | hr
      · obtain ⟨g, hg, hin⟩ := h.within ⟨node, nPagesOf w.pmm.mem node⟩
          (mem_append_left _ (mem_map_of_mem mem_cons_self))
        exact ⟨g, hg, hret.trans hin⟩
      · exact h.within r (mem_append_right _ hr)

/-- Dropping empty ranges loses no frame. -/
theorem flatMap_frames_filter (l : List Range) :
    (l.filter fun r => 0 < r.nPages).flatMap Range.frames = l.flatMap Range.frames := by
  induction l with
  | nil => rfl
  | cons r l ih =>
    by_cases hr : 0 < r.nPages
    · simp [hr, ih]
    · have hzero : r.nPages = 0 := by omega
      simp [ih, frames, pages, hzero]

/-- A handed-out range is the range given back together with the remainder. -/
theorem frames_remainder (hskip : skip + n ≤ o.nPages) :
    (pages (o.base + 4096 * skip) n ++ (remainder o skip n).flatMap Range.frames).Perm
      o.frames := by
  have hrest : (remainder o skip n).flatMap frames = pages o.base skip ++
      pages (o.base + 4096 * (skip + n)) (o.nPages - skip - n) := by
    rw [remainder, flatMap_frames_filter]
    simp [frames]
  have hframes : o.frames = pages o.base skip ++ (pages (o.base + 4096 * skip) n ++
      pages (o.base + 4096 * (skip + n)) (o.nPages - skip - n)) := by
    unfold frames pages
    rw [Nat.add_mul_div_left _ _ (by decide), Nat.add_mul_div_left _ _ (by decide),
      ← Nat.add_assoc, range'_append_1, range'_append_1]
    congr 1
    omega
  rw [hrest, hframes, ← append_assoc, ← append_assoc]
  exact perm_append_comm.append_right _

/-- The remainder of a sound range is sound and inside it. -/
theorem sound_remainder (ho : o.Sound) (hskip : skip + n ≤ o.nPages) :
    ∀ r ∈ remainder o skip n, r.Sound ∧ r.Within o := by
  have haligned := ho.aligned
  have hne := ho.base_ne
  have hbound := ho.bound
  simp only [stop] at hbound
  intro r hr
  simp only [remainder, mem_filter, mem_cons, not_mem_nil, or_false,
    decide_eq_true_eq] at hr
  obtain ⟨rfl | rfl, hpos⟩ := hr
  · refine ⟨⟨haligned, hne, hpos, ?_⟩, le_refl _, ?_⟩
    · simp only [stop]
      omega
    · simp only [stop]
      omega
  · refine ⟨⟨by simp only; omega, by simp only; omega, hpos, ?_⟩, Nat.le_add_right _ _, ?_⟩
    · simp only [stop] at hpos ⊢
      omega
    · simp only [stop] at hpos ⊢
      omega

theorem freePhysicalPage_eq {s' : Pmm} {a : Nat} (h : s.freePhysicalPage a n = some s') :
    s' = s.appendNode a n := by
  unfold Pmm.freePhysicalPage at h
  split at h
  · cases h
  · exact (Option.some.inj h).symm

/-- A free of pages whose first word is zero keeps the invariant. -/
theorem Inv.free {pmm : Pmm} {a : Nat} (h : Inv w xs) (hn : 1 ≤ n) (ho : o ∈ w.out)
    (haddr : a = o.base + 4096 * skip) (hskip : skip + n ≤ o.nPages)
    (hzero : nextOf w.pmm.mem a = 0) (hcall : w.pmm.freePhysicalPage a n = some pmm) :
    Inv ⟨pmm, remainder o skip n ++ w.out.erase o, ⟨a, n⟩ :: w.given⟩ (xs ++ [a]) ∧
    (World.pages ⟨pmm, remainder o skip n ++ w.out.erase o, w.given⟩ (xs ++ [a])).Perm
      (w.pages xs) := by
  have hsound := h.sound o ho
  have haligned := hsound.aligned
  have hne := hsound.base_ne
  have hbound := hsound.bound
  simp only [stop] at hbound
  have ha : a % 4096 = 0 := by omega
  obtain rfl := freePhysicalPage_eq hcall
  -- the first frame given back is not on the list
  have hmem : a ∉ xs := by
    intro hx
    have hpos := h.freeList.pos _ hx
    refine (nodup_append.1 h.nodup).2.2 (a / 4096)
      (mem_flatMap.2 ⟨_, hx, mem_pages.2 ?_⟩) _
      (mem_flatMap.2 ⟨o, ho, mem_pages.2 ?_⟩) rfl
    · omega
    · omega
  have hpages : ∀ x ∈ xs, nPagesOf (w.pmm.appendNode a n).mem x =
      nPagesOf w.pmm.mem x := fun x hx =>
    h.freeList.nPagesOf_appendNode ha (h.freeList.aligned x hx) fun he => hmem (he ▸ hx)
  have hself : nPagesOf (w.pmm.appendNode a n).mem a = n :=
    FreeList.nPagesOf_appendNode_self (by omega)
  have hfree : freePages (w.pmm.appendNode a n) (xs ++ [a]) =
      freePages w.pmm xs ++ pages a n := by
    rw [← freePages_congr hpages]
    simp [freePages, hself]
  have hout : (pages a n ++ (remainder o skip n ++ w.out.erase o).flatMap frames).Perm
      (w.out.flatMap frames) := by
    rw [flatMap_append, ← append_assoc, haddr]
    refine ((frames_remainder hskip).append_right _).trans ?_
    exact ((perm_cons_erase ho).flatMap_right frames).symm
  have hperm := hout.append_left (freePages w.pmm xs)
  rw [← append_assoc, ← hfree] at hperm
  refine ⟨⟨h.freeList.appendNode ha (by omega) hmem hzero hn (by omega),
    hperm.nodup_iff.2 h.nodup, ?_, ?_⟩, hperm⟩
  · intro r hr
    rcases mem_append.1 hr with hr | hr
    · exact (sound_remainder hsound hskip r hr).1
    · exact h.sound r (mem_of_mem_erase hr)
  · have hold : ∀ r : Range, (∃ g ∈ w.given, r.Within g) →
        ∃ g ∈ (⟨a, n⟩ : Range) :: w.given, r.Within g :=
      fun r ⟨g, hg, hin⟩ => ⟨g, mem_cons_of_mem _ hg, hin⟩
    intro r hr
    rcases mem_append.1 hr with hr | hr
    · obtain ⟨x, hx, rfl⟩ := mem_map.1 hr
      rcases mem_append.1 hx with hx | hx
      · refine hold _ (h.within _ (mem_append_left _ (mem_map.2 ⟨x, hx, ?_⟩)))
        rw [hpages x hx]
      · rw [mem_singleton.1 hx, hself]
        exact ⟨_, mem_cons_self, le_refl _, le_refl _⟩
    · refine hold r ?_
      rcases mem_append.1 hr with hr | hr
      · obtain ⟨g, hg, hin⟩ := h.within o (mem_append_right _ ho)
        exact ⟨g, hg, (sound_remainder hsound hskip r hr).2.trans hin⟩
      · exact h.within r (mem_append_right _ (mem_of_mem_erase hr))

/-- A write of the owners to their pages keeps the invariant. -/
theorem Inv.write {m : Memory} (h : Inv w xs)
    (hm : ∀ b, (∀ r ∈ w.out, b < r.base ∨ r.stop ≤ b) → m b = w.pmm.mem b) :
    Inv { w with pmm := { w.pmm with mem := m } } xs ∧
      (World.pages { w with pmm := { w.pmm with mem := m } } xs).Perm (w.pages xs) := by
  have hheader : ∀ x ∈ xs, Memory.SameOn w.pmm.mem m x (x + 24) := by
    intro x hx b hlo hhi
    refine hm b fun r hr => ?_
    by_contra hin
    have hx4096 := h.freeList.aligned x hx
    have hpos := h.freeList.pos x hx
    have hr4096 := (h.sound r hr).aligned
    simp only [stop] at hin
    -- the byte would be in a frame that is both free and handed out
    refine (nodup_append.1 h.nodup).2.2 (x / 4096)
      (mem_flatMap.2 ⟨x, hx, mem_pages.2 ?_⟩) _
      (mem_flatMap.2 ⟨r, hr, mem_pages.2 ?_⟩) rfl
    · omega
    · omega
  have hpages : ∀ x ∈ xs, nPagesOf m x = nPagesOf w.pmm.mem x := fun x hx =>
    Memory.loadNat_congr ((hheader x hx).mono (by omega) (by omega))
  have hperm : (World.pages { w with pmm := { w.pmm with mem := m } } xs).Perm (w.pages xs) :=
    .of_eq (congrArg (· ++ _) (freePages_congr hpages))
  refine ⟨⟨h.freeList.congr rfl rfl hheader, hperm.nodup_iff.2 h.nodup, h.sound, ?_⟩, hperm⟩
  · have hranges : freeRanges { w.pmm with mem := m } xs = freeRanges w.pmm xs :=
      map_congr_left fun x hx => by rw [hpages x hx]
    rw [hranges]
    exact h.within

/-- The number of nodes that a call uses up. -/
def exhausted (w : World) : Action → Nat
  | .alloc n =>
    if w.pmm.memoryHead ≠ 0 ∧ n = nPagesOf w.pmm.mem w.pmm.memoryHead then 1 else 0
  | _ => 0

/-- Every orderly step keeps the invariant and all pages; the nodes it uses up are still
counted. -/
theorem Inv.step {w' : World} {a : Action} (h : Inv w xs) (hord : Orderly w a)
    (hstep : Step w a w') : ∃ xs', Inv w' xs' ∧
      w'.pmm.nMemoryNodes + xs.length = w.pmm.nMemoryNodes + xs'.length + exhausted w a ∧
      (w'.pages xs').Perm (w.pages xs) := by
  cases a with
  | alloc n =>
    obtain ⟨hn, fuel, ret, pmm, hcall, rfl⟩ := hstep
    rcases hord with ⟨hhead, hlarge⟩ | hsmall
    · cases xs with
      | nil => exact absurd (h.freeList.list.head_eq_null_iff.2 rfl) hhead
      | cons node rest =>
        have hnode : w.pmm.memoryHead = node := h.freeList.list.head_eq
        obtain ⟨xs', hinv, hcount, hxs, hperm⟩ := h.alloc hn (hnode ▸ hlarge) hcall
        refine ⟨xs', hinv, ?_, hperm⟩
        simp only [hcount, hxs, exhausted, hnode, hnode ▸ hhead, ne_eq, not_false_eq_true,
          true_and, length_cons]
        split
        · omega
        · rw [length_cons]
          omega
    · have hzero : exhausted w (.alloc n) = 0 := if_neg fun he =>
        Nat.lt_irrefl _ (he.2 ▸ hsmall _ Scanned.head)
      obtain ⟨rfl, rfl⟩ := allocatePhysicalPage_small hsmall hcall
      refine ⟨xs, ⟨⟨h.freeList.list, h.freeList.aligned, h.freeList.pos, h.freeList.bound⟩,
        h.nodup, h.sound, h.within⟩, ?_, .refl _⟩
      rw [hzero]
      rfl
  | free a n =>
    obtain ⟨hn, o, ho, skip, haddr, hskip, pmm, hcall, rfl⟩ := hstep
    obtain ⟨hinv, hperm⟩ := h.free hn ho haddr hskip hord hcall
    refine ⟨_, hinv, ?_, hperm⟩
    rw [freePhysicalPage_eq hcall, length_append]
    exact Nat.add_right_comm _ _ _
  | write m =>
    obtain ⟨hm, rfl⟩ := hstep
    obtain ⟨hinv, hperm⟩ := h.write hm
    exact ⟨xs, hinv, rfl, hperm⟩

/-! ## Initialisation -/

/-- The free list has exactly the nodes of the given ranges. -/
structure Built (s : Pmm) (rs : List Range) : Prop where
  freeList : FreeList s (rs.map Range.base)
  nPages : ∀ r ∈ rs, nPagesOf s.mem r.base = r.nPages

/-- Adding an entry appends its node to memory in which the node's first word was cleared. -/
theorem addEntry_eq {e : MemmapEntry} (husable : e.usable = true) (hnode : e.nodeBase % 4096 = 0)
    (htail : s.memoryTail % 4096 = 0) (hne : s.memoryTail ≠ e.nodeBase) :
    s.addEntry e =
      { s with mem := s.mem.storeNat e.nodeBase 0 }.appendNode e.nodeBase e.nodePages := by
  unfold Pmm.addEntry Pmm.appendNode
  rw [if_pos husable]
  dsimp only
  congr 2
  rw [Memory.storeNat_comm (by omega)]
  congr 1
  split
  · rw [Memory.storeNat_comm (by omega)]
  · rfl

/-- Adding an entry whose range is sound and new extends the list by its range. -/
theorem Built.addEntry {rs : List Range} {e : MemmapEntry} (h : Built s rs)
    (husable : e.usable = true) (hsound : e.range.Sound)
    (hnew : e.nodeBase ∉ rs.map Range.base) :
    Built (s.addEntry e) (rs ++ [e.range]) := by
  have hnode : e.nodeBase % 4096 = 0 := hsound.aligned
  have hbound : e.nodeBase + 4096 * e.nodePages ≤ 2 ^ 64 := hsound.bound
  have hne : s.memoryTail ≠ e.nodeBase := by
    intro he
    have hbase : s.memoryTail ≠ 0 := he ▸ hsound.base_ne
    exact hnew (he ▸ h.freeList.list.tail_mem hbase)
  have hcleared : FreeList { s with mem := s.mem.storeNat e.nodeBase 0 } (rs.map base) := by
    refine h.freeList.congr rfl rfl fun x hx => Memory.sameOn_storeNat ?_
    have hx4096 := h.freeList.aligned x hx
    have hxne : x ≠ e.nodeBase := fun he => hnew (he ▸ hx)
    omega
  rw [addEntry_eq husable hnode h.freeList.tail_aligned hne]
  refine ⟨?_, ?_⟩
  · rw [map_append]
    exact hcleared.appendNode hnode hsound.base_ne hnew
      (Memory.loadNat_storeNat_same (by decide)) hsound.pos hbound
  · intro r hr
    rcases mem_append.1 hr with hr | hr
    · have hmem := mem_map_of_mem (f := base) hr
      have haligned := h.freeList.aligned _ hmem
      have hrne : r.base ≠ e.nodeBase := fun he => hnew (he ▸ hmem)
      rw [hcleared.nPagesOf_appendNode hnode haligned hrne, ← h.nPages r hr]
      exact Memory.loadNat_storeNat_other (by omega)
    · rw [mem_singleton.1 hr]
      exact FreeList.nPagesOf_appendNode_self (show e.nodePages < 2 ^ 64 by omega)

theorem Range.Disjoint.base_ne {r r' : Range} (h : r.Disjoint r') (hr : 1 ≤ r.nPages)
    (hr' : 1 ≤ r'.nPages) : r'.base ≠ r.base := by
  simp only [Range.Disjoint, stop] at h
  omega

/-- The list built from the entries of a memory map. -/
theorem Built.foldl {map : List MemmapEntry} {rs : List Range} (h : Built s rs)
    (hsound : ∀ r ∈ rs ++ mapRanges map, r.Sound)
    (hdisjoint : (rs ++ mapRanges map).Pairwise Range.Disjoint) :
    Built (map.foldl Pmm.addEntry s) (rs ++ mapRanges map) := by
  induction map generalizing s rs with
  | nil => simpa [mapRanges] using h
  | cons e map ih =>
    by_cases husable : e.usable = true
    · have hsplit : rs ++ mapRanges (e :: map) = (rs ++ [e.range]) ++ mapRanges map := by
        simp [mapRanges, husable]
      rw [hsplit] at hsound hdisjoint ⊢
      have hentry := hsound e.range (by simp)
      refine ih (h.addEntry husable hentry ?_) hsound hdisjoint
      intro hmem
      obtain ⟨r, hr, hbase⟩ := mem_map.1 hmem
      have hd := (pairwise_append.1 (pairwise_append.1 hdisjoint).1).2.2 r hr
        e.range mem_cons_self
      exact hd.base_ne (hsound r (by simp [hr])).pos hentry.pos hbase.symm
    · have hskip : mapRanges (e :: map) = mapRanges map := by simp [mapRanges, husable]
      rw [hskip] at hsound hdisjoint ⊢
      have hstep : s.addEntry e = s := by rw [Pmm.addEntry, if_neg husable]
      rw [foldl_cons, hstep]
      exact ih h hsound hdisjoint

theorem built_start (mem : Memory) {map : List MemmapEntry} (hmap : OrderlyMap map) :
    Built (Pmm.initializePhysicalMemoryManager mem map) (mapRanges map) := by
  have hempty : Built ⟨mem, 0, 0, 0, false, true⟩ [] :=
    ⟨⟨⟨by simp [DList.Adjacent, Pmm.list], by simp, by simp⟩, by simp, by simp, by simp⟩, by simp⟩
  exact hempty.foldl hmap.1 hmap.2

theorem Built.freeRanges {rs : List Range} (h : Built s rs) :
    freeRanges s (rs.map Range.base) = rs := by
  rw [Physical.freeRanges, map_map]
  conv_rhs => rw [← map_id rs]
  refine map_congr_left fun r hr => ?_
  rw [Function.comp_apply, h.nPages r hr]
  rfl

/-- Initialisation on an orderly memory map establishes the invariant. -/
theorem inv_start (mem : Memory) {map : List MemmapEntry} (hmap : OrderlyMap map) :
    Inv (start mem map) ((mapRanges map).map Range.base) := by
  have hbuilt := built_start mem hmap
  have hranges := hbuilt.freeRanges
  have hframes : freePages (Pmm.initializePhysicalMemoryManager mem map)
      ((mapRanges map).map base) = (mapRanges map).flatMap frames := by
    rw [freePages_eq, hranges]
  refine ⟨hbuilt.freeList, ?_, by simp [start], ?_⟩
  · have hnodup : ((mapRanges map).flatMap frames).Nodup := by
      refine nodup_flatMap.2 ⟨fun r _ => nodup_range' , ?_⟩
      refine List.Pairwise.imp_of_mem ?_ hmap.2
      intro r r' hr hr' hd
      exact (Range.disjoint_iff_frames (hmap.1 r hr) (hmap.1 r' hr')).1 hd
    change (freePages _ _ ++ []).Nodup
    rwa [append_nil, start, hframes]
  · intro r hr
    refine ⟨r, ?_, le_refl _, le_refl _⟩
    change r ∈ mapRanges map
    rw [← hranges]
    simpa [start] using hr

/-- In every orderly run on an orderly memory map, whatever memory held before and whatever the
owners write to their pages, the ranges handed out are disjoint from each other and from the free
list, and each lies inside a range that was put on the list. -/
theorem allocation_safe (mem : Memory) (map : List MemmapEntry) (hmap : OrderlyMap map) (w : World)
    (hrun : Reaches Orderly Step (start mem map) w) : Safe w := by
  obtain ⟨xs, h⟩ := hrun.invariant (fun w => ∃ xs, Inv w xs) ⟨_, inv_start mem hmap⟩
    fun w a w' ⟨xs, h⟩ hord hstep => (h.step hord hstep).imp fun _ h => h.1
  exact h.safe

theorem orderlyMap_four : OrderlyMap [⟨0x1000, 0x4000, true⟩] := by
  refine ⟨fun r hr => ?_, by simp [mapRanges]⟩
  rw [mem_singleton.1 hr]
  exact ⟨by decide, by decide, by decide, by decide⟩

/-- An orderly run: one page is handed out and given back, then two pages are handed out. -/
theorem allocation_safe_reuse : ∃ w, w.out = [⟨0x2000, 2⟩] ∧ Safe w := by
  have hrun : ∃ pmm, Reaches Orderly Step (start (fun _ => 0) [⟨0x1000, 0x4000, true⟩])
      ⟨pmm, [⟨0x2000, 2⟩], [⟨0x4000, 1⟩, ⟨0x1000, 4⟩]⟩ := by
    refine ⟨_, .tail (.tail (.single ⟨.alloc 1, .inl ?_, by decide, 1, 0x4000, _, rfl, rfl⟩)
      ⟨.free 0x4000 1, ?_, by decide, ⟨0x4000, 1⟩, by decide, 0, rfl, by decide, _, rfl, rfl⟩)
      ⟨.alloc 2, .inl ?_, by decide, 1, 0x2000, _, rfl, rfl⟩⟩
    · decide
    · rfl
    · decide
  obtain ⟨pmm, hrun⟩ := hrun
  exact ⟨_, rfl, allocation_safe _ _ orderlyMap_four _ hrun⟩

/-- `g_nMemoryNodes` is the number of nodes of the free list. -/
def Counted (s : Pmm) : Prop := ∃ xs, FreeList s xs ∧ s.nMemoryNodes = xs.length

/-- A step, beside the number of nodes that were used up so far. -/
def CountedStep (w : World × Nat) (a : Action) (w' : World × Nat) : Prop :=
  Step w.1 a w'.1 ∧ w'.2 = w.2 + exhausted w.1 a

theorem nMemoryNodes_foldl (map : List MemmapEntry) (s : Pmm) :
    (map.foldl Pmm.addEntry s).nMemoryNodes = s.nMemoryNodes + (mapRanges map).length := by
  induction map generalizing s with
  | nil => rfl
  | cons e map ih =>
    rw [foldl_cons, ih]
    by_cases husable : e.usable = true
    · simp [Pmm.addEntry, mapRanges, husable]
      omega
    · simp [Pmm.addEntry, mapRanges, husable]

/-- In every orderly run on an orderly memory map, the count is right if and only if no node was
used up, and the panic for an empty list is right if and only if, besides, the list is not empty. -/
theorem counted_iff (mem : Memory) (map : List MemmapEntry) (hmap : OrderlyMap map) (w : World)
    (k : Nat) (hrun : Reaches (fun w => Orderly w.1) CountedStep (start mem map, 0) (w, k)) :
    (Counted w.pmm ↔ k = 0) ∧
    ((w.pmm.nMemoryNodes = 0 ↔ w.pmm.memoryHead = 0) ↔ k = 0 ∨ w.pmm.memoryHead ≠ 0) := by
  obtain ⟨xs, h, hcount⟩ := hrun.invariant
    (fun w => ∃ xs, Inv w.1 xs ∧ w.1.pmm.nMemoryNodes = xs.length + w.2)
    ⟨_, inv_start mem hmap, by rw [length_map]; exact (nMemoryNodes_foldl map _).trans (by simp)⟩
    fun w a w' ⟨xs, h, hcount⟩ hord ⟨hstep, hk⟩ => by
      obtain ⟨xs', h', hstep'⟩ := h.step hord hstep
      exact ⟨xs', h', by omega⟩
  have hhead : w.pmm.memoryHead = 0 ↔ xs.length = 0 :=
    h.freeList.list.head_eq_null_iff.trans length_eq_zero_iff.symm
  refine ⟨⟨fun ⟨ys, hys, heq⟩ => ?_, fun hk => ⟨xs, h.freeList, by simp_all⟩⟩, ?_⟩
  · obtain rfl := h.freeList.list.unique hys.list
    simp only at hcount
    omega
  · simp only at hcount
    omega

theorem counted_iff_one_page : ∃ w : World, w.out = [⟨0x4000, 1⟩] ∧ Counted w.pmm := by
  have hrun : ∃ pmm, Reaches (fun w => Orderly w.1) CountedStep
      (start (fun _ => 0) [⟨0x1000, 0x4000, true⟩], 0)
      (⟨pmm, [⟨0x4000, 1⟩], [⟨0x1000, 4⟩]⟩, 0) :=
    ⟨_, .single ⟨.alloc 1, .inl (by decide), ⟨by decide, 1, 0x4000, _, rfl, rfl⟩, by decide⟩⟩
  obtain ⟨pmm, hrun⟩ := hrun
  exact ⟨_, rfl, (counted_iff _ _ orderlyMap_four _ _ hrun).1.2 rfl⟩

/-- The four pages are handed out: the list is empty, and still counts a node. -/
theorem four_pages_not_counted : ∃ w : World, Reaches Orderly Step
    (start (fun _ => 0) [⟨0x1000, 0x4000, true⟩]) w ∧ w.pmm.memoryHead = 0 ∧
    w.pmm.nMemoryNodes = 1 ∧ ¬ Counted w.pmm := by
  refine ⟨⟨_, [⟨0x1000, 4⟩], [⟨0x1000, 4⟩]⟩,
    .single ⟨.alloc 4, .inl (by decide), by decide, 1, 0x1000, _, rfl, rfl⟩, by decide, rfl, ?_⟩
  rintro ⟨xs, hxs, hcount⟩
  rw [hxs.list.head_eq_null_iff.1 (by decide)] at hcount
  cases hcount

end Obos.Physical
