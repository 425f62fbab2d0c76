import Obos.Physical.Ownership
import Mathlib.Data.List.TakeWhile

/-!
# The memory map of the boot loader

`InitializePhysicalMemoryManager` makes a node of every usable entry of the memory map and appends
it to the free list. An entry at address 0 is given a node at `0x1000`, but it keeps all of its
pages, so that the last page of the node is behind the entry (`initialize_describes_iff`).

Two entries may get the same node, the one at address 0 and one at `0x1000`. The list then ends at
this node, and what stood between the two is lost. `Path` are the nodes a walk over the list finds,
whatever the `prev` fields hold; `Linked` is the list with the ranges of its nodes, and
`Linked.addEntry` says what an entry does to it.
-/

namespace Obos.Physical

open Lib List Memory Range
open Range (base)

/-- The usable entries. -/
def usableEntries (map : List MemmapEntry) : List MemmapEntry := map.filter MemmapEntry.usable

/-- The page frames of an entry. -/
def MemmapEntry.frames (e : MemmapEntry) : List Nat := pages e.base (e.length / 4096)

/-- The page frames of the usable entries. -/
def usableFrames (map : List MemmapEntry) : List Nat :=
  (usableEntries map).flatMap MemmapEntry.frames

/-- What the boot loader guarantees: the usable entries consist of whole pages and do not
overlap. -/
structure BootMap (map : List MemmapEntry) : Prop where
  aligned : ∀ e ∈ usableEntries map, e.base % 4096 = 0 ∧ e.length % 4096 = 0
  pos : ∀ e ∈ usableEntries map, 0 < e.length
  bound : ∀ e ∈ usableEntries map, e.length < 2 ^ 64 ∧ e.base + e.length ≤ 2 ^ 64
  disjoint : (usableEntries map).Pairwise fun e e' =>
    e.base + e.length ≤ e'.base ∨ e'.base + e'.length ≤ e.base

/-- The nodes `xs` from the node `a` on, up to the node `b`. -/
def Path (m : Memory) : Nat → List Nat → Nat → Prop
  | a, [], b => a = b
  | a, x :: xs, b => a = x ∧ x ≠ 0 ∧ Path m (nextOf m x) xs b

/-- The pages of the nodes are the pages of the usable entries other than page 0, and no page is
described twice. -/
def Describes (s : Pmm) (map : List MemmapEntry) : Prop :=
  ∃ xs, Path s.mem s.memoryHead xs 0 ∧ (freePages s xs).Nodup ∧
    ∀ p, p ∈ freePages s xs ↔ p ≠ 0 ∧ p ∈ usableFrames map

/-- There is no usable entry at address 0, or it is next to the usable entry at `0x1000`, which gets
the same node, and the first of the two is a single page. -/
def ZeroHarmless (map : List MemmapEntry) : Prop :=
  (∀ e ∈ usableEntries map, e.base ≠ 0) ∨
  ∃ as x y bs, usableEntries map = as ++ x :: y :: bs ∧ x.length = 4096 ∧
    (x.base = 0 ∧ y.base = 4096 ∨ x.base = 4096 ∧ y.base = 0)

/-- The ranges on the list after one more entry: an old node at the same address is the end of the
list, with the pages of the new entry. -/
def appendRange (rs : List Range) (e : MemmapEntry) : List Range :=
  rs.takeWhile (fun r => decide (r.base ≠ e.nodeBase)) ++ [e.range]

/-- The list from the head on, with the ranges of its nodes. -/
structure Linked (s : Pmm) (rs : List Range) : Prop where
  nodes : Path s.mem s.memoryHead (rs.map base) 0
  tail : s.memoryTail = (rs.map base).getLast?.getD 0
  nodup : (rs.map base).Nodup
  aligned : ∀ r ∈ rs, r.base % 4096 = 0 ∧ r.base ≠ 0
  nPages : ∀ r ∈ rs, nPagesOf s.mem r.base = r.nPages

/-! ## Walks over the list -/

section Path

variable {m m' : Memory} {a b c : Nat} {xs ys : List Nat}

theorem path_append : Path m a (xs ++ ys) c ↔ ∃ b, Path m a xs b ∧ Path m b ys c := by
  induction xs generalizing a with
  | nil => simp [Path]
  | cons x xs ih => simp [Path, ih, and_assoc]

/-- A walk depends on the `next` fields of the nodes it passes. -/
theorem Path.congr (h : Path m a xs b) (hnext : ∀ x ∈ xs, nextOf m' x = nextOf m x) :
    Path m' a xs b := by
  induction xs generalizing a with
  | nil => exact h
  | cons x xs ih =>
    obtain ⟨rfl, hne, hrest⟩ := h
    refine ⟨rfl, hne, ?_⟩
    rw [hnext a mem_cons_self]
    exact ih hrest fun y hy => hnext y (mem_cons_of_mem a hy)

/-- There is one walk to the end of the list. -/
theorem Path.unique (h : Path m a xs 0) (h' : Path m a ys 0) : xs = ys := by
  induction xs generalizing a ys with
  | nil =>
    cases ys with
    | nil => rfl
    | cons y ys =>
      obtain ⟨rfl, hne, -⟩ := h'
      exact absurd h hne
  | cons x xs ih =>
    obtain ⟨rfl, hne, hrest⟩ := h
    cases ys with
    | nil => exact absurd h' hne
    | cons y ys =>
      obtain ⟨rfl, -, hrest'⟩ := h'
      rw [ih hrest hrest']

end Path

/-! ## One entry -/

section Entry

variable {s : Pmm} {rs : List Range} {e : MemmapEntry}

/-- The `next` fields after an entry was added. -/
theorem nextOf_addEntry (husable : e.usable = true) (hnode : e.nodeBase % 4096 = 0)
    (hlt : e.nodeBase < 2 ^ 64) (htail : s.memoryTail % 4096 = 0) {x : Nat} (hx : x % 4096 = 0) :
    nextOf (s.addEntry e).mem x = if x = e.nodeBase then 0
      else if s.memoryTail ≠ 0 ∧ x = s.memoryTail then e.nodeBase else nextOf s.mem x := by
  unfold Pmm.addEntry
  rw [if_pos husable]
  simp only [nextOf]
  rw [loadNat_storeNat_other (by omega)]
  by_cases hxn : x = e.nodeBase
  · rw [if_pos hxn, hxn, loadNat_storeNat_same (by decide)]
  · rw [if_neg hxn, loadNat_storeNat_other (by omega),
      loadNat_storeNat_other (by omega)]
    by_cases ht : s.memoryTail = 0
    · simp [ht]
    · rw [if_pos ht]
      by_cases hxt : x = s.memoryTail
      · rw [if_pos ⟨ht, hxt⟩, hxt, loadNat_storeNat_same hlt]
      · rw [if_neg fun h => hxt h.2, loadNat_storeNat_other (by omega)]

/-- The numbers of pages after an entry was added. -/
theorem nPagesOf_addEntry (husable : e.usable = true) (hnode : e.nodeBase % 4096 = 0)
    (hpages : e.nodePages < 2 ^ 64) (htail : s.memoryTail % 4096 = 0) {x : Nat}
    (hx : x % 4096 = 0) :
    nPagesOf (s.addEntry e).mem x = if x = e.nodeBase then e.nodePages else nPagesOf s.mem x := by
  unfold Pmm.addEntry
  rw [if_pos husable]
  simp only [nPagesOf]
  by_cases hxn : x = e.nodeBase
  · rw [if_pos hxn, hxn, loadNat_storeNat_same hpages]
  · rw [loadNat_storeNat_other (by omega), loadNat_storeNat_other (by omega),
      loadNat_storeNat_other (by omega)]
    split
    · exact loadNat_storeNat_other (by omega)
    · rfl

theorem Linked.tail_aligned (h : Linked s rs) : s.memoryTail % 4096 = 0 := by
  rw [h.tail]
  cases hlast : (rs.map base).getLast? with
  | none => rfl
  | some x =>
    obtain ⟨r, hr, rfl⟩ := mem_map.1 (mem_of_getLast? hlast)
    exact (h.aligned r hr).1

theorem Linked.head_eq_zero_iff (h : Linked s rs) : s.memoryHead = 0 ↔ rs = [] := by
  cases rs with
  | nil => exact iff_of_true h.nodes rfl
  | cons r rs =>
    obtain ⟨hhead, hne, -⟩ := h.nodes
    exact iff_of_false (hhead ▸ hne) (by simp)

/-- A walk that ends in front of the node of an entry goes on with it once the entry is added. -/
theorem Linked.path_addEntry (h : Linked s rs) (husable : e.usable = true)
    (hnode : e.nodeBase % 4096 = 0) (hlt : e.nodeBase < 2 ^ 64) :
    Path (s.addEntry e).mem (s.addEntry e).memoryHead
      ((rs.takeWhile fun r => decide (r.base ≠ e.nodeBase)).map base) e.nodeBase := by
  have htail := h.tail_aligned
  have hhead : (s.addEntry e).memoryHead = if s.memoryHead = 0 then e.nodeBase
      else s.memoryHead := by
    rw [Pmm.addEntry, if_pos husable]
  have hnext {x : Nat} (hx : x % 4096 = 0) := nextOf_addEntry husable hnode hlt htail hx
  by_cases hmem : ∃ r ∈ rs, r.base = e.nodeBase
  · -- the walk up to the old node does not pass the tail
    obtain ⟨r, hr, hbase⟩ := hmem
    obtain ⟨as, bs, rfl⟩ := append_of_mem hr
    have hnodup := h.nodup
    rw [map_append, nodup_append] at hnodup
    have has : ∀ q ∈ as, q.base ≠ e.nodeBase := fun q hq =>
      hbase ▸ hnodup.2.2 _ (mem_map_of_mem hq) _ mem_cons_self
    have htake : (as ++ r :: bs).takeWhile (fun r => decide (r.base ≠ e.nodeBase)) = as := by
      rw [takeWhile_append_of_pos fun q hq => by simpa using has q hq,
        takeWhile_cons_of_neg (by simpa using hbase), append_nil]
    have hnodes := h.nodes
    rw [map_append, path_append] at hnodes
    obtain ⟨b, hpath, hb, -, -⟩ := hnodes
    rw [htake, hhead, if_neg fun h0 => by simpa using h.head_eq_zero_iff.1 h0]
    rw [hb, hbase] at hpath
    refine hpath.congr fun x hx => ?_
    obtain ⟨q, hq, rfl⟩ := mem_map.1 hx
    have hlast : s.memoryTail ∈ r.base :: bs.map base := by
      rw [h.tail, map_append, map_cons, getLast?_append_cons,
        getLast?_eq_some_getLast (by simp)]
      exact getLast_mem _
    rw [hnext (h.aligned q (mem_append_left _ hq)).1, if_neg (has q hq),
      if_neg fun ht => hnodup.2.2 _ hx _ hlast ht.2]
  · -- the new node is behind the tail
    push Not at hmem
    have htake : rs.takeWhile (fun r => decide (r.base ≠ e.nodeBase)) = rs :=
      takeWhile_eq_self_iff.2 fun r hr => by simpa using hmem r hr
    rw [htake, hhead]
    rcases eq_nil_or_concat rs with rfl | ⟨as, r, rfl⟩
    · rw [if_pos (h.head_eq_zero_iff.2 rfl)]
      rfl
    · rw [concat_eq_append] at h hmem ⊢
      have hr : r ∈ as ++ [r] := by simp
      have hlast : s.memoryTail = r.base := by
        rw [h.tail]
        simp
      have hnodes := h.nodes
      have hnodup := h.nodup
      rw [map_append] at hnodes hnodup ⊢
      obtain ⟨b, hpath, rfl, hne, -⟩ := path_append.1 hnodes
      rw [if_neg fun h0 => by simpa using h.head_eq_zero_iff.1 h0, path_append]
      refine ⟨r.base, hpath.congr fun x hx => ?_, rfl, hne, ?_⟩
      · obtain ⟨q, hq, rfl⟩ := mem_map.1 hx
        have hqr := (nodup_append.1 hnodup).2.2 _ hx _ mem_cons_self
        rw [hnext (h.aligned q (by simp [hq])).1, if_neg (hmem q (by simp [hq])),
          if_neg fun ht => hqr (ht.2.trans hlast)]
      · rw [hnext (h.aligned r hr).1, if_neg (hmem r hr), if_pos ⟨hlast ▸ hne, hlast.symm⟩]
        rfl

/-- What an entry does to the list. -/
theorem Linked.addEntry (h : Linked s rs) (husable : e.usable = true)
    (hnode : e.nodeBase % 4096 = 0) (hne : e.nodeBase ≠ 0)
    (hbound : e.nodeBase + 4096 * e.nodePages ≤ 2 ^ 64) (hpos : 0 < e.nodePages) :
    Linked (s.addEntry e) (appendRange rs e) := by
  have htail := h.tail_aligned
  have hpath := h.path_addEntry husable hnode (by omega)
  have hsub : ∀ r ∈ rs.takeWhile (fun r => decide (r.base ≠ e.nodeBase)), r ∈ rs ∧
      r.base ≠ e.nodeBase := fun r hr =>
    ⟨(List.takeWhile_prefix _).subset hr, by simpa using mem_takeWhile_imp hr⟩
  have hpages {x : Nat} (hx : x % 4096 = 0) :=
    nPagesOf_addEntry husable hnode (show e.nodePages < 2 ^ 64 by omega) htail hx
  unfold appendRange
  refine ⟨?_, ?_, ?_, fun r hr => ?_, fun r hr => ?_⟩
  · rw [map_append, path_append]
    refine ⟨e.nodeBase, hpath, rfl, hne, ?_⟩
    exact (nextOf_addEntry husable hnode (by omega) htail hnode).trans (if_pos rfl)
  · rw [Pmm.addEntry, if_pos husable]
    simp [MemmapEntry.range]
  · rw [map_append, nodup_append]
    refine ⟨h.nodup.sublist ((List.takeWhile_prefix _).sublist.map _), by simp, ?_⟩
    intro x hx y hy
    obtain ⟨r, hr, rfl⟩ := mem_map.1 hx
    rw [mem_singleton.1 hy]
    exact (hsub r hr).2
  · rcases mem_append.1 hr with hr | hr
    · exact h.aligned r (hsub r hr).1
    · rw [mem_singleton.1 hr]
      exact ⟨hnode, hne⟩
  · rcases mem_append.1 hr with hr | hr
    · rw [hpages (h.aligned r (hsub r hr).1).1, if_neg (hsub r hr).2]
      exact h.nPages r (hsub r hr).1
    · rw [mem_singleton.1 hr]
      exact (hpages hnode).trans (if_pos rfl)

end Entry

/-! ## The whole map -/

section Map

variable {s : Pmm} {map es : List MemmapEntry} {rs : List Range} {e : MemmapEntry}

/-- The node of an aligned entry. -/
theorem MemmapEntry.nodeBase_cases (h : e.base % 4096 = 0) :
    e.base = 0 ∧ e.nodeBase = 4096 ∨ e.base ≠ 0 ∧ e.nodeBase = e.base := by
  unfold MemmapEntry.nodeBase
  by_cases h0 : e.base = 0
  · exact .inl ⟨h0, by simp [h0]⟩
  · have hlow : ¬ e.base < 0x1000 := by omega
    simp only [hlow, if_false]
    exact .inr ⟨h0, if_neg (not_not.2 h)⟩

theorem MemmapEntry.nodePages_eq (h : e.length % 4096 = 0) : e.nodePages = e.length / 4096 := by
  rw [MemmapEntry.nodePages, h, Nat.sub_zero]

theorem MemmapEntry.frames_range (h : e.base % 4096 = 0) (h' : e.length % 4096 = 0)
    (hne : e.base ≠ 0) : e.range.frames = e.frames := by
  have hnode : e.nodeBase = e.base := by
    have := e.nodeBase_cases h
    omega
  rw [Range.frames, MemmapEntry.range, MemmapEntry.frames, hnode, e.nodePages_eq h']

theorem BootMap.addEntry (h : BootMap map) (he : e ∈ usableEntries map) (hs : Linked s rs) :
    Linked (s.addEntry e) (appendRange rs e) := by
  obtain ⟨hbase, hlength⟩ := h.aligned e he
  have hpos := h.pos e he
  have hbound := h.bound e he
  have hnode := e.nodeBase_cases hbase
  have hpages := e.nodePages_eq hlength
  exact hs.addEntry (mem_filter.1 he).2 (by omega) (by omega) (by omega) (by omega)

/-- What the list of the entries added so far describes. -/
theorem BootMap.foldl (h : BootMap map) (hes : ∀ e ∈ es, e ∈ usableEntries map)
    (hs : Linked s rs) : Linked (es.foldl Pmm.addEntry s) (es.foldl appendRange rs) := by
  induction es generalizing s rs with
  | nil => exact hs
  | cons e es ih =>
    exact ih (fun x hx => hes x (mem_cons_of_mem e hx)) (h.addEntry (hes e mem_cons_self) hs)

/-- The entries added one after the other are those that are usable. -/
theorem foldl_usableEntries (map : List MemmapEntry) (s : Pmm) :
    (usableEntries map).foldl Pmm.addEntry s = map.foldl Pmm.addEntry s := by
  rw [usableEntries, foldl_filter]
  refine congrFun (congrFun (congrArg _ (funext₂ fun s e => ?_)) s) map
  by_cases husable : e.usable = true <;> simp [Pmm.addEntry, husable]

theorem BootMap.linked (h : BootMap map) (mem : Memory) :
    Linked (Pmm.initializePhysicalMemoryManager mem map)
      ((usableEntries map).foldl appendRange []) := by
  rw [Pmm.initializePhysicalMemoryManager, ← foldl_usableEntries]
  exact h.foldl (fun _ he => he) ⟨rfl, rfl, by simp, by simp, by simp⟩

/-- Entries with nodes of their own are appended one after the other. -/
theorem foldl_appendRange (hnodup : (rs.map base ++ es.map MemmapEntry.nodeBase).Nodup) :
    es.foldl appendRange rs = rs ++ es.map MemmapEntry.range := by
  induction es generalizing rs with
  | nil => simp
  | cons e es ih =>
    rw [map_cons, nodup_append, nodup_cons] at hnodup
    have htake : rs.takeWhile (fun r => decide (r.base ≠ e.nodeBase)) = rs := by
      refine takeWhile_eq_self_iff.2 fun r hr => ?_
      simpa using hnodup.2.2 _ (mem_map_of_mem hr) _ mem_cons_self
    rw [foldl_cons, appendRange, htake, ih]
    · simp
    · rw [map_append, append_assoc, nodup_append]
      exact ⟨hnodup.1, nodup_cons.2 hnodup.2.1, hnodup.2.2⟩

/-- What the nodes describe, in terms of the ranges on the list. -/
theorem Linked.describes_iff (h : Linked s rs) (hnodup : (usableFrames map).Nodup) :
    Describes s map ↔ (rs.flatMap Range.frames).Perm ((usableFrames map).erase 0) := by
  have hfree : freePages s (rs.map base) = rs.flatMap Range.frames := by
    rw [freePages, flatMap_map]
    exact flatMap_congr fun r hr => by rw [h.nPages r hr]; rfl
  constructor
  · rintro ⟨xs, hpath, hfrees, hmem⟩
    rw [hpath.unique h.nodes, hfree] at hfrees hmem
    refine (perm_ext_iff_of_nodup hfrees (hnodup.erase 0)).2 fun p => ?_
    rw [hmem, hnodup.mem_erase_iff]
  · intro hperm
    refine ⟨rs.map base, h.nodes, ?_, fun p => ?_⟩
    · rw [hfree, hperm.nodup_iff]
      exact hnodup.erase 0
    · rw [hfree, hperm.mem_iff, hnodup.mem_erase_iff]

section

variable (h : BootMap map)
include h

theorem BootMap.mem_frames (he : e ∈ usableEntries map) {p : Nat} :
    p ∈ e.frames ↔ e.base ≤ 4096 * p ∧ 4096 * p < e.base + e.length := by
  obtain ⟨hbase, hlength⟩ := h.aligned e he
  rw [MemmapEntry.frames, mem_pages]
  omega

theorem BootMap.nodup : (usableFrames map).Nodup := by
  refine nodup_flatMap.2 ⟨fun e _ => nodup_range', ?_⟩
  refine List.Pairwise.imp_of_mem (fun {e e'} he he' hdisjoint => ?_) h.disjoint
  intro p hp hp'
  rw [h.mem_frames he] at hp
  rw [h.mem_frames he'] at hp'
  omega

variable {as bs : List MemmapEntry} {x y : MemmapEntry}

omit h in
/-- Of two entries for one node, the first one and what is between them is lost. -/
theorem foldl_appendRange_shared {cs : List MemmapEntry} (hnode : x.nodeBase = y.nodeBase)
    (hfirst : ((as ++ x :: cs).map MemmapEntry.nodeBase).Nodup)
    (hsecond : ((as ++ y :: bs).map MemmapEntry.nodeBase).Nodup) :
    (as ++ x :: (cs ++ y :: bs)).foldl appendRange [] = (as ++ y :: bs).map MemmapEntry.range := by
  have hbases : (as.map MemmapEntry.range).map base = as.map MemmapEntry.nodeBase := by
    rw [map_map]
    rfl
  have has : ∀ r ∈ as.map MemmapEntry.range, decide (r.base ≠ y.nodeBase) = true := by
    intro r hr
    obtain ⟨e, he, rfl⟩ := mem_map.1 hr
    rw [map_append, nodup_append] at hsecond
    exact decide_eq_true (hsecond.2.2 _ (mem_map_of_mem he) _ mem_cons_self)
  have hlast : ¬ (fun r : Range => decide (r.base ≠ y.nodeBase)) x.range = true := fun hne =>
    of_decide_eq_true hne hnode
  have hfold := @foldl_appendRange (as ++ x :: cs) [] (by simpa using hfirst)
  rw [show as ++ x :: (cs ++ y :: bs) = (as ++ x :: cs) ++ y :: bs by simp, foldl_append,
    hfold, nil_append, foldl_cons, appendRange, map_append, map_cons,
    takeWhile_append_of_pos has,
    takeWhile_cons_of_neg (p := fun r : Range => decide (r.base ≠ y.nodeBase)) hlast,
    append_nil, foldl_appendRange]
  · simp
  · rw [map_append, hbases]
    simpa using hsecond

/-- Two usable entries have different nodes, unless one of them is at address 0 and the other behind
page 0. -/
theorem BootMap.nodup_nodeBase (hsub : es.Sublist (usableEntries map))
    (hzero : ∀ e ∈ es, ∀ e' ∈ es, e.base = 0 → e'.base ≠ 4096) :
    (es.map MemmapEntry.nodeBase).Nodup := by
  refine pairwise_map.2 (List.Pairwise.imp_of_mem (fun {e e'} he he' hdisjoint => ?_)
    (h.disjoint.sublist hsub))
  have hlen := h.pos e (hsub.subset he)
  have hlen' := h.pos e' (hsub.subset he')
  have h1 := hzero e he e' he'
  have h2 := hzero e' he' e he
  have hnode := e.nodeBase_cases (h.aligned e (hsub.subset he)).1
  have hnode' := e'.nodeBase_cases (h.aligned e' (hsub.subset he')).1
  omega

omit h in
theorem length_frames_range (haligned : ∀ e ∈ es, e.base % 4096 = 0 ∧ e.length % 4096 = 0) :
    ((es.map MemmapEntry.range).flatMap Range.frames).length =
      (es.flatMap MemmapEntry.frames).length := by
  rw [flatMap_map, length_flatMap, length_flatMap]
  refine congrArg sum (map_congr_left fun e he => ?_)
  simp [Range.frames, MemmapEntry.range, MemmapEntry.frames, pages,
    e.nodePages_eq (haligned e he).2]

theorem BootMap.zero_mem_iff : 0 ∈ usableFrames map ↔ ∃ e ∈ usableEntries map, e.base = 0 := by
  rw [usableFrames, mem_flatMap]
  refine exists_congr fun e => and_congr_right fun he => ?_
  have hpos := h.pos e he
  rw [h.mem_frames he]
  omega

/-- Two usable entries with the same base are the same. -/
theorem BootMap.not_both (hmap : usableEntries map = as ++ x :: bs) (hy : y ∈ as ++ bs) :
    y.base ≠ x.base := by
  have hdisjoint := h.disjoint
  have hx : x ∈ usableEntries map := by simp [hmap]
  have hy' : y ∈ usableEntries map := by
    rw [hmap]
    rcases mem_append.1 hy with hy | hy
    · exact mem_append_left _ hy
    · exact mem_append_right _ (mem_cons_of_mem x hy)
  have hposx := h.pos x hx
  have hposy := h.pos y hy'
  rw [hmap, pairwise_append, pairwise_cons] at hdisjoint
  rcases mem_append.1 hy with hy | hy
  · have := hdisjoint.2.2 y hy x mem_cons_self
    omega
  · have := hdisjoint.2.1.1 y hy
    omega

/-- The list where an entry at address 0 shares its node. -/
theorem BootMap.foldl_shared {cs : List MemmapEntry}
    (hmap : usableEntries map = as ++ x :: (cs ++ y :: bs))
    (hbase : x.base = 0 ∧ y.base = 4096 ∨ x.base = 4096 ∧ y.base = 0) :
    (usableEntries map).foldl appendRange [] = (as ++ y :: bs).map MemmapEntry.range := by
  have hx : x ∈ usableEntries map := by simp [hmap]
  have hy : y ∈ usableEntries map := by simp [hmap]
  have hnotx {e : MemmapEntry} (he : e ∈ as ++ (cs ++ y :: bs)) := h.not_both hmap he
  have hnoty {e : MemmapEntry} (he : e ∈ (as ++ x :: cs) ++ bs) :=
    h.not_both (show usableEntries map = (as ++ x :: cs) ++ y :: bs by simp [hmap]) he
  rw [hmap]
  refine foldl_appendRange_shared ?_ (h.nodup_nodeBase ?_ ?_) (h.nodup_nodeBase ?_ ?_)
  · have hnodex := x.nodeBase_cases (h.aligned x hx).1
    have hnodey := y.nodeBase_cases (h.aligned y hy).1
    omega
  · rw [hmap, show as ++ x :: (cs ++ y :: bs) = (as ++ x :: cs) ++ y :: bs by simp]
    exact sublist_append_left _ _
  · intro e he e' he' h0 h1
    have hne := hnoty (mem_append_left bs he)
    have hne' := hnoty (mem_append_left bs he')
    omega
  · rw [hmap]
    exact (List.Sublist.refl as).append ((sublist_append_right _ _).cons x)
  · intro e he e' he' h0 h1
    have hin {z : MemmapEntry} (hz : z ∈ as ++ y :: bs) : z ∈ as ++ (cs ++ y :: bs) :=
      ((List.Sublist.refl as).append (sublist_append_right cs _)).subset hz
    have hne := hnotx (hin he)
    have hne' := hnotx (hin he')
    omega

/-- With no entry at address 0 the nodes have the pages of the entries. -/
theorem BootMap.perm_of_ne_zero (hne : ∀ e ∈ usableEntries map, e.base ≠ 0) :
    (((usableEntries map).foldl appendRange []).flatMap Range.frames).Perm
      ((usableFrames map).erase 0) := by
  have hzero : 0 ∉ usableFrames map := fun h0 => by
    obtain ⟨e, he, h0⟩ := h.zero_mem_iff.1 h0
    exact hne e he h0
  rw [foldl_appendRange (by
    simpa using h.nodup_nodeBase (List.Sublist.refl _) fun e he _ _ h0 => absurd h0 (hne e he)),
    nil_append, erase_of_not_mem hzero, flatMap_map]
  have heq : (usableEntries map).flatMap (fun e => e.range.frames) = usableFrames map :=
    flatMap_congr fun e he => e.frames_range (h.aligned e he).1 (h.aligned e he).2 (hne e he)
  rw [heq]

/-- The same where the entry at address 0 is the first page of a shared node. -/
theorem BootMap.perm_of_shared (hmap : usableEntries map = as ++ x :: y :: bs)
    (hlength : x.length = 4096) (hbase : x.base = 0 ∧ y.base = 4096 ∨ x.base = 4096 ∧ y.base = 0) :
    (((usableEntries map).foldl appendRange []).flatMap Range.frames).Perm
      ((usableFrames map).erase 0) := by
  have hframes {es : List MemmapEntry} (hes : ∀ e ∈ es, e ∈ as ++ bs) :
      (es.map MemmapEntry.range).flatMap Range.frames = es.flatMap MemmapEntry.frames := by
    rw [flatMap_map]
    refine flatMap_congr fun e he => ?_
    have hin : e ∈ usableEntries map := by
      rw [hmap]
      exact ((List.Sublist.refl as).append
        ((List.Sublist.refl bs).cons y |>.cons x)).subset (hes e he)
    refine e.frames_range (h.aligned e hin).1 (h.aligned e hin).2 fun h0 => ?_
    have hnex := h.not_both hmap (y := e)
      (((List.Sublist.refl as).append ((List.Sublist.refl bs).cons y)).subset (hes e he))
    have hney := h.not_both (show usableEntries map = (as ++ [x]) ++ y :: bs by simp [hmap])
      (y := e) (((sublist_append_left as [x]).append (List.Sublist.refl bs)).subset (hes e he))
    omega
  have hy : y ∈ usableEntries map := by simp [hmap]
  -- the node has the pages of the two entries except page 0
  have hnode : (0 :: y.range.frames).Perm (x.frames ++ y.frames) := by
    have hyLength : x.base = 4096 → y.length = 4096 := fun hx => by
      have hdisjoint := h.disjoint
      rw [hmap, pairwise_append, pairwise_cons] at hdisjoint
      have hxy := hdisjoint.2.1.1 y mem_cons_self
      have hposy := h.pos y hy
      have haligned := h.aligned y hy
      omega
    rcases hbase with ⟨hx0, hy0⟩ | ⟨hx0, hy0⟩
    · have hxFrames : x.frames = [0] := by
        rw [MemmapEntry.frames, hx0, hlength]
        rfl
      rw [y.frames_range (h.aligned y hy).1 (h.aligned y hy).2 (by omega), hxFrames]
      exact List.Perm.refl _
    · have hrange : y.range.frames = [1] := by
        have hnodey := y.nodeBase_cases (h.aligned y hy).1
        rw [MemmapEntry.range, show y.nodeBase = 4096 by omega,
          y.nodePages_eq (h.aligned y hy).2, hyLength hx0]
        rfl
      rw [hrange, MemmapEntry.frames, MemmapEntry.frames, hx0, hlength, hy0, hyLength hx0]
      exact List.Perm.swap _ _ _
  rw [h.foldl_shared (show usableEntries map = as ++ x :: ([] ++ y :: bs) from hmap) hbase,
    map_append, map_cons, flatMap_append, flatMap_cons,
    hframes fun e he => mem_append_left _ he,
    hframes fun e he => mem_append_right _ he]
  have hall : (0 :: (as.flatMap MemmapEntry.frames ++ (y.range.frames ++
      bs.flatMap MemmapEntry.frames))).Perm (usableFrames map) := by
    rw [usableFrames, hmap, flatMap_append, flatMap_cons, flatMap_cons,
      ← append_assoc x.frames]
    exact perm_middle.symm.trans ((hnode.append_right _).append_left _)
  simpa using hall.erase 0

end

/-- After initialisation the nodes describe exactly the usable pages other than page 0, each once,
if and only if an entry at address 0 is harmless. -/
theorem initialize_describes_iff (h : BootMap map) (mem : Memory) :
    Describes (Pmm.initializePhysicalMemoryManager mem map) map ↔ ZeroHarmless map := by
  rw [(h.linked mem).describes_iff h.nodup]
  constructor
  swap
  · rintro (hne | ⟨as, x, y, bs, hmap, hlength, hbase⟩)
    · exact h.perm_of_ne_zero hne
    · exact h.perm_of_shared hmap hlength hbase
  intro hperm
  by_cases hzero : ∃ e ∈ usableEntries map, e.base = 0
  swap
  · exact .inl fun e he h0 => hzero ⟨e, he, h0⟩
  -- the nodes describe one page less than the entries have
  have hlen := hperm.length_eq
  rw [length_erase_of_mem (h.zero_mem_iff.2 hzero)] at hlen
  have hpos := length_pos_of_mem (h.zero_mem_iff.2 hzero)
  by_cases hsecond : ∃ e ∈ usableEntries map, e.base = 4096
  swap
  · have hnodup := h.nodup_nodeBase (List.Sublist.refl _) fun _ _ e' he' _ h1 =>
      hsecond ⟨e', he', h1⟩
    rw [foldl_appendRange (by simpa using hnodup), nil_append,
      length_frames_range h.aligned] at hlen
    unfold usableFrames at hlen hpos
    omega
  obtain ⟨as, x, cs, y, bs, hmap, hbase⟩ : ∃ as x cs y bs,
      usableEntries map = as ++ x :: (cs ++ y :: bs) ∧
      (x.base = 0 ∧ y.base = 4096 ∨ x.base = 4096 ∧ y.base = 0) := by
    obtain ⟨a, ha, ha0⟩ := hzero
    obtain ⟨b, hb, hb0⟩ := hsecond
    obtain ⟨l1, l2, hsplit⟩ := append_of_mem ha
    rw [hsplit] at hb
    rcases mem_append.1 hb with hb | hb
    · obtain ⟨k1, k2, rfl⟩ := append_of_mem hb
      exact ⟨k1, b, k2, a, l2, by simp [hsplit], .inr ⟨hb0, ha0⟩⟩
    · rcases mem_cons.1 hb with rfl | hb
      · omega
      · obtain ⟨k1, k2, rfl⟩ := append_of_mem hb
        exact ⟨l1, a, k1, b, k2, hsplit, .inl ⟨ha0, hb0⟩⟩
  -- the entries that are lost have one page together
  have hx : x ∈ usableEntries map := by simp [hmap]
  have hcs : ∀ e ∈ cs, e ∈ usableEntries map := fun e he => by simp [hmap, he]
  have hpages {e : MemmapEntry} (he : e ∈ usableEntries map) : 1 ≤ e.frames.length ∧
      4096 * e.frames.length = e.length := by
    have hlength := (h.aligned e he).2
    have hposE := h.pos e he
    simp only [MemmapEntry.frames, pages, length_range']
    omega
  rw [h.foldl_shared hmap hbase, length_frames_range, usableFrames, hmap, flatMap_append,
    flatMap_append, flatMap_cons, flatMap_cons, flatMap_append,
    flatMap_cons] at hlen
  · simp only [length_append] at hlen
    have hxPages := hpages hx
    cases cs with
    | nil => exact .inr ⟨as, x, y, bs, hmap, by omega, hbase⟩
    | cons c cs =>
      have hcPages := hpages (hcs c mem_cons_self)
      rw [flatMap_cons, length_append] at hlen
      omega
  · intro e he
    refine h.aligned e ?_
    rw [hmap]
    exact ((List.Sublist.refl as).append ((sublist_append_right cs _).cons x)).subset he

end Map

/-- Four pages behind page 0. -/
theorem initialize_describes_iff_single :
    BootMap [⟨0x1000, 0x4000, true⟩] ∧
      (Describes (Pmm.initializePhysicalMemoryManager (fun _ => 0) [⟨0x1000, 0x4000, true⟩])
          [⟨0x1000, 0x4000, true⟩] ↔ ZeroHarmless [⟨0x1000, 0x4000, true⟩]) :=
  have h : BootMap [⟨0x1000, 0x4000, true⟩] := ⟨by decide, by decide, by decide, by decide⟩
  ⟨h, initialize_describes_iff h _⟩

/-- Two pages at address 0: the node has the pages 1 and 2. -/
theorem initialize_describes_excess :
    BootMap [⟨0, 0x2000, true⟩] ∧
      ¬ Describes (Pmm.initializePhysicalMemoryManager (fun _ => 0) [⟨0, 0x2000, true⟩])
        [⟨0, 0x2000, true⟩] := by
  have h : BootMap [⟨0, 0x2000, true⟩] := ⟨by decide, by decide, by decide, by decide⟩
  refine ⟨h, fun hdescribes => ?_⟩
  have hlen := (((h.linked _).describes_iff h.nodup).1 hdescribes).length_eq
  revert hlen
  decide

end Obos.Physical
