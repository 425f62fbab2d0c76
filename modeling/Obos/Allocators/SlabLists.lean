import Obos.Allocators.Slab
import Obos.Lib.Run

/-!
# The lists of the slab allocator

`SlabLists s xs` says that the lists of the allocator consist of the nodes `xs`, and that the nodes
of a type are on its two lists. Neither `Remove` nor `PushBack` clears the field `next` of a node,
so that a node keeps its successor when it goes from the middle of one list to the end of the other.
`slab_in_order` says that the lists stay in order in every run that frees the object of a type that
was allocated last.
-/

namespace Obos.Allocators

open Lib Function List

/-! ## Edits -/

/-- The lists consist of the nodes `xs`, without sharing, and have their lengths. -/
structure Chained (s : Slab) (xs : ObjectType × Side → List Nat) : Prop where
  lists : Lists 0 s.links (fun i => (s.lists i).toEnds) xs
  nNodes : ∀ i, (s.lists i).nNodes = (xs i).length
  bound : ∀ i, ∀ x ∈ xs i, x < 2 ^ 64

/-- The lists consist of the nodes `xs`, and the nodes of a type are those of its two lists. -/
structure SlabLists (s : Slab) (xs : ObjectType × Side → List Nat) : Prop extends Chained s xs where
  nodes : ∀ t, (xs (t, .free) ++ xs (t, .allocated)).Perm (s.nodes t)

section Edits

variable {s : Slab} {xs : ObjectType × Side → List Nat} {i : ObjectType × Side} {node : Nat}
  {t : ObjectType}

theorem chained_iff : Chained s xs ↔
    CountedLists s.links (fun i => (s.lists i).toEnds) (fun i => (s.lists i).nNodes) xs :=
  ⟨fun h => ⟨h.lists, h.nNodes, h.bound⟩, fun h => ⟨h.lists, h.size, h.bound⟩⟩

theorem Chained.next_tail (h : Chained s xs) (hne : (s.lists i).tail ≠ 0) :
    s.links.next (s.lists i).tail = 0 :=
  (h.lists.list i).next_tail hne

theorem Chained.remove (h : Chained s xs) {as bs : List Nat} (hsplit : xs i = as ++ node :: bs) :
    Chained (s.remove i node) (update xs i (as ++ bs)) := by
  rw [chained_iff] at h ⊢
  simp only [Slab.remove, apply_update (fun _ => NodeList.toEnds),
    apply_update (fun _ => NodeList.nNodes)]
  exact h.unlink hsplit

/-- A node that is on none of the lists, and behind which there is none, is appended. -/
theorem Chained.pushBack (h : Chained s xs) (hnew : ∀ j, node ∉ xs j) (hnull : node ≠ 0)
    (hbound : node < 2 ^ 64) (hnext : s.links.next node = 0) :
    Chained (s.pushBack i node) (update xs i (xs i ++ [node])) := by
  rw [chained_iff] at h ⊢
  simp only [Slab.pushBack, apply_update (fun _ => NodeList.toEnds),
    apply_update (fun _ => NodeList.nNodes)]
  exact h.pushBack hnew hnull hbound hnext

/-- A new node is appended to the free list of its type. -/
theorem Chained.carve (h : Chained s xs) (hnew : ∀ j, node ∉ xs j) (hnull : node ≠ 0)
    (hbound : node < 2 ^ 64) :
    Chained (s.carve t node) (update xs (t, .free) (xs (t, .free) ++ [node])) := by
  refine Chained.pushBack ⟨h.lists.congr fun j x hx => ?_, h.nNodes, h.bound⟩ hnew hnull hbound ?_
  · have hne : x ≠ node := fun he => hnew j (he ▸ hx)
    simp [hne]
  · simp

/-- The last node of a list goes to the end of another one. -/
theorem Chained.move (h : Chained s xs) {j : ObjectType × Side} (hij : j ≠ i) {as : List Nat}
    (hsplit : xs i = as ++ [node]) :
    Chained ((s.remove i node).pushBack j node)
      (update (update xs i as) j (xs j ++ [node])) := by
  have hmem : node ∈ xs i := by simp [hsplit]
  have hlist := h.lists.list i
  have hnull : node ≠ 0 := fun he => hlist.null_notMem (he ▸ hmem)
  have hnotMem : node ∉ as := by
    intro has
    rw [hsplit] at hlist
    exact (nodup_append.1 hlist.nodup).2.2 node has node mem_cons_self rfl
  have hnew : ∀ k, node ∉ update xs i as k := by
    intro k hk
    by_cases hki : k = i
    · subst hki
      rw [update_self] at hk
      exact hnotMem hk
    · rw [update_of_ne hki] at hk
      exact hki (h.lists.disjoint k i node hk hmem)
  -- the last node of a list has no successor, and removing it does not write its fields
  have hnext : (s.remove i node).links.next node = 0 := by
    rw [hsplit] at hlist
    exact (DList.unlink_self 0 _ node).1.trans hlist.neighbours.2
  have hremoved := h.remove hsplit
  rw [append_nil] at hremoved
  have hpushed := hremoved.pushBack (i := j) hnew hnull (h.bound i node hmem) hnext
  rwa [update_of_ne hij] at hpushed

end Edits

/-! ## The invariant -/

/-- What holds between any two calls: the lists are in order, the objects with their nodes lie
apart, and nothing is allocated before the first call. -/
structure Slab.Inv (sizes : ObjectSizes) (s : Slab) (xs : ObjectType × Side → List Nat) : Prop
    extends SlabLists s xs where
  place : ∀ t, ∀ x ∈ s.nodes t, 0 < x ∧ x + nodeSize + sizes.size t ≤ 2 ^ 64
  apart : ∀ t t' x x', x ∈ s.nodes t → x' ∈ s.nodes t' → (t, x) ≠ (t', x') →
    x + nodeSize + sizes.size t ≤ x' ∨ x' + nodeSize + sizes.size t' ≤ x
  ready : s.initialized = false → ∀ t, xs (t, .allocated) = []

section Invariant

variable {sizes : ObjectSizes} {virtualAlloc : PageSupply sizes} {s s' : Slab}
  {xs : ObjectType × Side → List Nat} {i : ObjectType × Side} {node : Nat} {t : ObjectType}

theorem SlabLists.mem_nodes (h : SlabLists s xs) {x : Nat} (hx : x ∈ xs i) : x ∈ s.nodes i.1 := by
  refine (h.nodes i.1).subset (mem_append.2 ?_)
  obtain ⟨t, side⟩ := i
  cases side with
  | free => exact .inl hx
  | allocated => exact .inr hx

theorem nodes_carve (s : Slab) (t : ObjectType) (node : Nat) :
    (s.carve t node).nodes = update s.nodes t (s.nodes t ++ [node]) := rfl

theorem perm_append_free {free allocated nodes : List Nat} (new : List Nat)
    (h : (free ++ allocated).Perm nodes) : ((free ++ new) ++ allocated).Perm (nodes ++ new) := by
  rw [append_assoc]
  refine (List.Perm.append_left free perm_append_comm).trans ?_
  rw [← append_assoc]
  exact h.append_right new

variable (h : s.Inv sizes xs)
include h

/-- A node that is carved apart from the others keeps the invariant. -/
theorem Slab.Inv.carve (hpos : 0 < node) (hfits : node + nodeSize + sizes.size t ≤ 2 ^ 64)
    (hapart : ∀ t', ∀ x ∈ s.nodes t', x + nodeSize + sizes.size t' ≤ node ∨
      node + nodeSize + sizes.size t ≤ x) :
    (s.carve t node).Inv sizes (update xs (t, .free) (xs (t, .free) ++ [node])) := by
  have hnew : ∀ j, node ∉ xs j := by
    intro j hj
    rcases hapart j.1 node (h.mem_nodes hj) with hlt | hlt <;> simp only [nodeSize] at hlt <;> omega
  have hmem {t' : ObjectType} {x : Nat}
      (hx : x ∈ update s.nodes t (s.nodes t ++ [node]) t') :
      x ∈ s.nodes t' ∨ (t' = t ∧ x = node) := by
    by_cases ht : t' = t
    · subst ht
      rw [update_self] at hx
      exact (mem_append.1 hx).imp_right fun hx => ⟨rfl, mem_singleton.1 hx⟩
    · rw [update_of_ne ht] at hx
      exact .inl hx
  refine ⟨⟨h.toChained.carve hnew hpos.ne' (by simp only [nodeSize] at hfits; omega), fun t' => ?_⟩,
    fun t' x hx => ?_, fun t1 t2 x1 x2 h1 h2 hne => ?_, fun hready t' => ?_⟩
  · show (update xs _ _ (t', .free) ++ update xs _ _ (t', .allocated)).Perm
      (update s.nodes t _ t')
    by_cases ht : t' = t
    · subst ht
      simpa using perm_append_free [node] (h.nodes t')
    · simpa [ht] using h.nodes t'
  · rcases hmem hx with hx | ⟨rfl, rfl⟩
    · exact h.place t' x hx
    · exact ⟨hpos, hfits⟩
  · rcases hmem h1 with hold1 | ⟨rfl, rfl⟩ <;> rcases hmem h2 with hold2 | ⟨rfl, rfl⟩
    · exact h.apart t1 t2 x1 x2 hold1 hold2 hne
    · exact hapart t1 x1 hold1
    · exact (hapart t2 x2 hold2).symm
    · exact absurd rfl hne
  · rw [update_of_ne (by simp)]
    exact h.ready hready t'

/-- The nodes of a block. -/
def blockNodes (base stride count : Nat) : List Nat := (List.range count).map (base + · * stride)

/-- A block of pages is cut into nodes and objects. -/
theorem Slab.Inv.carveAll {base stride count : Nat} (hstride : nodeSize + sizes.size t ≤ stride)
    (hbase : 0 < base) (hfits : base + count * stride ≤ 2 ^ 64)
    (hfresh : ∀ t', ∀ x ∈ s.nodes t', x + nodeSize + sizes.size t' ≤ base ∨
      base + count * stride ≤ x) :
    ∀ k ≤ count,
      let s' := (range k).foldl (fun s i => s.carve t ((base + i * stride) % 2 ^ 64)) s
      s'.Inv sizes (update xs (t, .free) (xs (t, .free) ++ blockNodes base stride k)) ∧
        s'.nodes = update s.nodes t (s.nodes t ++ blockNodes base stride k) ∧
        s'.initialized = s.initialized := by
  intro k
  induction k with
  | zero =>
    intro _
    simpa [blockNodes] using h
  | succ k ih =>
    intro hk
    obtain ⟨hinv, hnodes, hinit⟩ := ih (by omega)
    have hroom := Nat.mul_le_mul_right stride hk
    rw [Nat.add_mul] at hroom
    have hpos : 0 < stride := by simp only [nodeSize] at hstride; omega
    have haddr : (base + k * stride) % 2 ^ 64 = base + k * stride := Nat.mod_eq_of_lt (by omega)
    have hsplit : blockNodes base stride (k + 1) =
        blockNodes base stride k ++ [base + k * stride] := by
      simp [blockNodes, range_succ]
    rw [range_succ, foldl_append, foldl_cons, foldl_nil, haddr, hsplit]
    have hnext := hinv.carve (t := t) (show 0 < base + k * stride by omega) (by omega) ?_
    · refine ⟨?_, ?_, hinit⟩
      · simpa [append_assoc] using hnext
      · rw [nodes_carve, hnodes, update_idem, update_self, append_assoc]
    · -- the nodes so far: those from before the block, and those in front of this one
      intro t' x hx
      rw [hnodes] at hx
      have hx' : x ∈ s.nodes t' ∨ (t' = t ∧ ∃ i < k, x = base + i * stride) := by
        by_cases ht : t' = t
        · subst ht
          simp only [update_self, mem_append, blockNodes, mem_map,
            mem_range] at hx
          rcases hx with hx | ⟨i, hi, rfl⟩
          · exact .inl hx
          · exact .inr ⟨rfl, i, hi, rfl⟩
        · rw [update_of_ne ht] at hx
          exact .inl hx
      rcases hx' with hx | ⟨rfl, i, hi, rfl⟩
      · rcases hfresh t' x hx with hx | hx
        · exact .inl (by omega)
        · exact .inr (by omega)
      · have hle : (i + 1) * stride ≤ k * stride := Nat.mul_le_mul_right stride hi
        rw [Nat.add_mul] at hle
        exact .inl (by omega)

omit h in
theorem le_realSzObject (sizes : ObjectSizes) (t : ObjectType) (alignment : Nat) :
    nodeSize + sizes.size t ≤ realSzObject sizes t alignment := by
  simp only [realSzObject]
  split <;> omega

omit h in
theorem realSzObject_lt (sizes : ObjectSizes) (t : ObjectType) (alignment : Nat) :
    realSzObject sizes t alignment < 2 ^ 34 := by
  have hsize := sizes.size_lt t
  have hmod := Nat.mod_le (sizes.size t + nodeSize) alignment
  simp only [realSzObject, nodeSize] at *
  split <;> omega

/-- `ExpandFreeList` makes the free list longer. -/
theorem Slab.Inv.expand {nObjects alignment : Nat} (hn : nObjects ≤ 2 ^ 29)
    (hexpand : expandFreeList sizes virtualAlloc s t nObjects alignment = some s') :
    ∃ new, new.length = nObjects ∧
      s'.Inv sizes (update xs (t, .free) (xs (t, .free) ++ new)) ∧
      s'.initialized = s.initialized := by
  simp only [expandFreeList, Option.pure_def, Option.bind_eq_bind, Option.bind_eq_some_iff,
    Option.some.injEq] at hexpand
  obtain ⟨⟨base, hbase, hfits, hfresh⟩, -, rfl⟩ := hexpand
  have hstride := realSzObject_lt sizes t alignment
  have hmul := Nat.mul_le_mul hn hstride.le
  have hsize : nObjects * realSzObject sizes t alignment % 2 ^ 64 =
      nObjects * realSzObject sizes t alignment := Nat.mod_eq_of_lt (by omega)
  rw [hsize] at hfits hfresh
  obtain ⟨hinv, -, hinit⟩ := h.carveAll (le_realSzObject sizes t alignment) hbase hfits hfresh
    nObjects le_rfl
  exact ⟨_, by simp [blockNodes], hinv, hinit⟩

/-- `SlabInitialize` makes the free lists longer. -/
theorem Slab.Inv.afterInitialize (hinit : slabInitialize sizes virtualAlloc s = some s') :
    ∃ xs', s'.Inv sizes xs' ∧ (∀ t, xs' (t, .allocated) = xs (t, .allocated)) ∧
      s'.initialized = true := by
  simp only [slabInitialize, Option.pure_def, Option.bind_eq_bind, Option.bind_eq_some_iff,
    Option.some.injEq] at hinit
  obtain ⟨s1, hloop, rfl⟩ := hinit
  have hinv := foldlM_invariant hloop
    (fun _ s => ∃ xs', s.Inv sizes xs' ∧ ∀ t, xs' (t, .allocated) = xs (t, .allocated))
    ⟨xs, h, fun _ => rfl⟩ (by
      rintro _ t _ s1 s2 - ⟨xs1, h1, hsame⟩ hexpand
      obtain ⟨new, -, h2, -⟩ := h1.expand (by decide) hexpand
      refine ⟨_, h2, fun t' => ?_⟩
      rw [update_of_ne (by simp), hsame])
  obtain ⟨xs', h', hsame⟩ := hinv
  exact ⟨xs', ⟨⟨⟨h'.lists, h'.nNodes, h'.bound⟩, h'.nodes⟩, h'.place, h'.apart,
    fun hfalse => nomatch hfalse⟩, hsame, rfl⟩

/-- Before an object is taken, there is a free one. -/
theorem Slab.Inv.provide (hprovide : provideNodes sizes virtualAlloc s t 1 = some s') :
    ∃ xs', s'.Inv sizes xs' ∧ (∀ t, xs' (t, .allocated) = xs (t, .allocated)) ∧
      xs' (t, .free) ≠ [] ∧ s'.initialized = true := by
  simp only [provideNodes, Option.bind_eq_bind, Option.bind_eq_some_iff] at hprovide
  obtain ⟨s1, hfirst, s2, hsecond, hthird⟩ := hprovide
  obtain ⟨xs1, h1, hsame1, hinit1⟩ : ∃ xs1, s1.Inv sizes xs1 ∧
      (∀ t, xs1 (t, .allocated) = xs (t, .allocated)) ∧ s1.initialized = true := by
    by_cases hinit : s.initialized = true
    · rw [if_pos hinit] at hfirst
      obtain rfl := Option.some.inj hfirst
      exact ⟨xs, h, fun _ => rfl, hinit⟩
    · rw [if_neg hinit] at hfirst
      exact h.afterInitialize hfirst
  obtain ⟨xs2, h2, hsame2, hinit2, hfree⟩ : ∃ xs2, s2.Inv sizes xs2 ∧
      (∀ t, xs2 (t, .allocated) = xs (t, .allocated)) ∧ s2.initialized = true ∧
      xs2 (t, .free) ≠ [] := by
    by_cases hempty : (s1.lists (t, .free)).head = 0
    · rw [if_pos hempty] at hsecond
      obtain ⟨new, hlength, h2, hinit2⟩ := h1.expand (by decide) hsecond
      refine ⟨_, h2, fun t' => ?_, hinit2.trans hinit1, fun hnil => ?_⟩
      · rw [update_of_ne (by simp), hsame1]
      · rw [update_self, append_eq_nil_iff] at hnil
        rw [hnil.2] at hlength
        cases hlength
    · rw [if_neg hempty] at hsecond
      obtain rfl := Option.some.inj hsecond
      exact ⟨xs1, h1, hsame1, hinit1,
        fun hnil => hempty ((h1.lists.list (t, .free)).head_eq_null_iff.2 hnil)⟩
  -- the list has its length, so that it is not made longer once more
  have hcount := h2.nNodes (t, .free)
  have hpos := length_pos_of_ne_nil hfree
  rw [if_neg (by omega)] at hthird
  obtain rfl := Option.some.inj hthird
  exact ⟨xs2, h2, hsame2, hfree, hinit2⟩

/-- The last node of one list of a type goes to the end of the other one. -/
theorem Slab.Inv.move {from' to' : Side} (hside : from' ≠ to') {as : List Nat}
    (hsplit : xs (t, from') = as ++ [node]) (hinit : s.initialized = true) :
    ((s.remove (t, from') node).pushBack (t, to') node).Inv sizes
      (update (update xs (t, from') as) (t, to') (xs (t, to') ++ [node])) := by
  have hij : (t, to') ≠ (t, from') := fun he => hside (Prod.mk.inj he).2.symm
  refine ⟨⟨h.toChained.move hij hsplit, fun t' => ?_⟩, h.place, h.apart,
    fun hfalse => absurd (hinit.symm.trans hfalse) (by decide)⟩
  rw [show ((s.remove (t, from') node).pushBack (t, to') node).nodes = s.nodes from rfl]
  by_cases ht : t' = t
  · subst ht
    have hperm := h.nodes t'
    cases from' with
    | free =>
      obtain rfl : to' = .allocated := by cases to' <;> first | rfl | contradiction
      rw [hsplit, append_assoc] at hperm
      simpa using (List.Perm.append_left as perm_append_comm).trans hperm
    | allocated =>
      obtain rfl : to' = .free := by cases to' <;> first | rfl | contradiction
      rw [hsplit] at hperm
      simp only [update_self, update_of_ne hij.symm]
      rw [append_assoc]
      exact (List.Perm.append_left _ perm_append_comm).trans hperm
  · simpa [ht] using h.nodes t'

/-- Taking the last free object. -/
theorem Slab.Inv.allocate {ret : Nat}
    (hallocate : implSlabAllocate sizes virtualAlloc s t 1 = some (ret, s')) :
    ∃ xs' node, ret = node + nodeSize ∧ s'.Inv sizes xs' ∧ s'.initialized = true ∧
      xs' (t, .allocated) = xs (t, .allocated) ++ [node] ∧ node ∉ xs (t, .allocated) ∧
      ∀ t' ≠ t, xs' (t', .allocated) = xs (t', .allocated) := by
  simp only [implSlabAllocate, Option.bind_eq_bind, Option.bind_eq_some_iff] at hallocate
  obtain ⟨s1, hprovide, hallocate⟩ := hallocate
  obtain ⟨xs1, h1, hsame, hfree, hinit⟩ := h.provide hprovide
  -- the node is the last one of the free list
  obtain ⟨as, node, hsplit⟩ := (eq_nil_or_concat _).resolve_left hfree
  rw [concat_eq_append] at hsplit
  have hmem : node ∈ xs1 (t, .free) := by simp [hsplit]
  have htail : (s1.lists (t, .free)).tail = node := by
    rw [show (s1.lists (t, .free)).tail = _ from (h1.lists.list (t, .free)).tail_eq]
    simp [hsplit]
  have hnull : node ≠ 0 := fun he => (h1.lists.list (t, .free)).null_notMem (he ▸ hmem)
  rw [htail, if_neg (fun hand => hnull hand.1)] at hallocate
  obtain ⟨rfl, rfl⟩ := hallocate
  have hmoved := h1.move (show Side.free ≠ .allocated by decide) hsplit hinit
  refine ⟨_, node, rfl, hmoved, hinit, ?_, fun hnode => ?_, fun t' ht => ?_⟩
  · rw [update_self, hsame]
  · rw [← hsame] at hnode
    exact absurd (h1.lists.disjoint _ _ node hmem hnode) (by simp)
  · rw [update_of_ne (by simp [ht]), update_of_ne (by simp), hsame]

/-- With free nodes provided, an object can be taken. -/
theorem Slab.Inv.exists_allocate (hsupply : (provideNodes sizes virtualAlloc s t 1).isSome) :
    ∃ r, implSlabAllocate sizes virtualAlloc s t 1 = some r := by
  obtain ⟨s1, hprovide⟩ := Option.isSome_iff_exists.1 hsupply
  obtain ⟨xs1, h1, -, hfree, -⟩ := h.provide hprovide
  have htail : (s1.lists (t, .free)).tail ≠ 0 :=
    fun hzero => hfree ((h1.lists.list (t, .free)).tail_eq_null_iff.1 hzero)
  refine Option.isSome_iff_exists.1 ?_
  simp only [implSlabAllocate, hprovide, Option.bind_eq_bind, Option.bind_some]
  rw [if_neg fun hand => htail hand.1]
  rfl

omit h in
/-- `HasNode` comes to the end of the list. -/
theorem hasNodeFrom_eq {obj fuel first : Nat} {before rest : List Nat}
    (h : (s.links.through (s.lists i).toEnds).IsList 0 (before ++ rest))
    (hfirst : first = (rest ++ [0]).head (by simp)) (hfuel : rest.length < fuel) :
    hasNodeFrom s obj fuel first = some true := by
  induction rest generalizing before fuel first with
  | nil =>
    obtain ⟨fuel, rfl⟩ := Nat.exists_eq_succ_of_ne_zero (show fuel ≠ 0 by omega)
    rw [hasNodeFrom, if_pos (by simpa using hfirst)]
  | cons x rest ih =>
    obtain ⟨fuel, rfl⟩ := Nat.exists_eq_succ_of_ne_zero (show fuel ≠ 0 by omega)
    obtain rfl : first = x := by simpa using hfirst
    have hnull : first ≠ 0 := fun he => h.null_notMem (by simp [he])
    rw [hasNodeFrom, if_neg hnull]
    by_cases hfound : first = obj
    · rw [if_pos hfound]
    · rw [if_neg hfound]
      have hnext : (before ++ [first]) ++ rest = before ++ first :: rest := by simp
      exact ih (hnext ▸ h) h.neighbours.2 (Nat.lt_of_succ_lt_succ hfuel)

theorem Slab.Inv.hasNode (obj : Nat) : hasNode s t obj = some true := by
  have hlist := h.lists.list (t, .allocated)
  have hempty : ([] : List Nat) ++ xs (t, .allocated) = xs (t, .allocated) := rfl
  exact hasNodeFrom_eq (hempty ▸ hlist) hlist.head_eq (hlist.length_lt (h.bound _))

/-- The check of `ImplSlabFree` refuses nothing. -/
theorem implSlabFree_eq (hinit : s.initialized = true) (obj : Nat) : implSlabFree sizes s t obj 1 =
    some (s.giveBack sizes t ((obj + 2 ^ 64 - nodeSize) % 2 ^ 64)) := by
  have hlt : (obj + 2 ^ 64 - nodeSize) % 2 ^ 64 < 2 ^ 64 := Nat.mod_lt _ (by decide)
  simp only [implSlabFree, hinit, if_true]
  generalize (obj + 2 ^ 64 - nodeSize) % 2 ^ 64 = x at hlt ⊢
  simp only [h.hasNode, range_one, allM, Option.bind_eq_bind, Option.bind_some, Option.pure_def]
  rw [if_pos trivial, foldl_cons, foldl_nil, Nat.zero_mul, Nat.add_zero, Nat.mod_eq_of_lt hlt]

/-- Freeing the object that was allocated last. -/
theorem Slab.Inv.free (hinit : s.initialized = true) {as : List Nat}
    (hsplit : xs (t, .allocated) = as ++ [node]) :
    (s.giveBack sizes t node).Inv sizes (update (update xs (t, .allocated) as)
      (t, .free) (xs (t, .free) ++ [node])) := by
  have hmoved := h.move (show Side.allocated ≠ .free by decide) hsplit hinit
  exact ⟨⟨⟨hmoved.lists, hmoved.nNodes, hmoved.bound⟩, hmoved.nodes⟩, hmoved.place, hmoved.apart,
    hmoved.ready⟩

end Invariant

/-! ## Runs -/

/-- The allocator, and for each type the objects that are allocated and not freed, in the order in
which they were allocated. -/
structure SlabSystem where
  slab : Slab
  live : ObjectType → List Nat

/-- The calls for one object. -/
inductive SlabCall where
  | allocate (t : ObjectType)
  | free (t : ObjectType) (obj : Nat)

/-- The state after a call that returns. -/
def SlabSystem.call (sizes : ObjectSizes) (virtualAlloc : PageSupply sizes) (s : SlabSystem) :
    SlabCall → Option SlabSystem
  | .allocate t => (implSlabAllocate sizes virtualAlloc s.slab t 1).map fun r =>
    ⟨r.2, Function.update s.live t (s.live t ++ [r.1])⟩
  | .free t obj => (implSlabFree sizes s.slab t obj 1).map fun slab =>
    ⟨slab, Function.update s.live t ((s.live t).erase obj)⟩

/-- The lists are in order and have the nodes carved so far, each once, and the allocated ones are
those of the live objects. -/
def SlabSystem.InOrder (s : SlabSystem) : Prop :=
  ∃ xs, SlabLists s.slab xs ∧ ∀ t, s.live t = (xs (t, .allocated)).map (· + nodeSize)

/-- An object is freed if it was allocated last of those of its type that are live. -/
def SlabSystem.FreesLast (s : SlabSystem) : SlabCall → Prop
  | .allocate _ => True
  | .free t obj => (s.live t).getLast? = some obj

/-- The allocator in front of the first call. -/
def SlabSystem.initial : SlabSystem := ⟨.initial, fun _ => []⟩

/-- What holds between any two calls. -/
def SlabSystem.Inv (sizes : ObjectSizes) (s : SlabSystem) : Prop :=
  ∃ xs, s.slab.Inv sizes xs ∧ ∀ t, s.live t = (xs (t, .allocated)).map (· + nodeSize)

section Runs

variable {sizes : ObjectSizes} {virtualAlloc : PageSupply sizes} {s s' : SlabSystem} {a : SlabCall}
  {xs : ObjectType × Side → List Nat}

theorem SlabSystem.inv_initial (sizes : ObjectSizes) : SlabSystem.initial.Inv sizes := by
  refine ⟨fun _ => [], ⟨⟨⟨⟨fun i => ⟨?_, nodup_nil, not_mem_nil⟩, ?_⟩, fun _ => rfl, ?_⟩,
    fun _ => List.Perm.nil⟩, ?_, ?_, fun _ _ => rfl⟩, fun _ => rfl⟩
  · simp [DList.Adjacent, DList.succ, DList.pred, initial, Slab.initial, LinkFields.through]
  all_goals simp [initial, Slab.initial]

/-- An allocation keeps the invariant, and its object was not live. -/
theorem SlabSystem.Inv.allocate (h : s.Inv sizes) {t : ObjectType} {r : Nat × Slab}
    (hallocate : implSlabAllocate sizes virtualAlloc s.slab t 1 = some r) :
    SlabSystem.Inv sizes ⟨r.2, update s.live t (s.live t ++ [r.1])⟩ ∧ r.1 ∉ s.live t := by
  obtain ⟨xs, hslab, hlive⟩ := h
  obtain ⟨xs', node, hret, hslab', -, hsame, hnew, hother⟩ := hslab.allocate hallocate
  refine ⟨⟨xs', hslab', fun t' => ?_⟩, ?_⟩
  · by_cases ht : t' = t
    · subst ht
      simp [hsame, hlive, hret]
    · simp only [update_of_ne ht]
      rw [hother t' ht, hlive]
  · rw [hret, hlive, mem_map]
    rintro ⟨x, hx, heq⟩
    exact hnew (Nat.add_right_cancel heq ▸ hx)

/-- The node of a live object. -/
theorem SlabSystem.Inv.live (h : s.Inv sizes) {t : ObjectType} {obj : Nat} (hobj : obj ∈ s.live t) :
    ∃ xs node, s.slab.Inv sizes xs ∧ node ∈ xs (t, .allocated) ∧ obj = node + nodeSize ∧
      s.slab.initialized = true ∧ ∀ t, s.live t = (xs (t, .allocated)).map (· + nodeSize) := by
  obtain ⟨xs, hslab, hlive⟩ := h
  rw [hlive] at hobj
  obtain ⟨node, hnode, rfl⟩ := mem_map.1 hobj
  refine ⟨xs, node, hslab, hnode, rfl, ?_, hlive⟩
  by_contra hinit
  rw [hslab.ready (by simpa using hinit) t] at hnode
  cases hnode

/-- The last object can be freed, which keeps the invariant. -/
theorem SlabSystem.Inv.free (h : s.Inv sizes) {t : ObjectType} {obj : Nat}
    (hlast : (s.live t).getLast? = some obj) :
    ∃ slab, implSlabFree sizes s.slab t obj 1 = some slab ∧
      SlabSystem.Inv sizes ⟨slab, update s.live t ((s.live t).erase obj)⟩ := by
  obtain ⟨xs, node, hslab, hnode, rfl, hinit, hlive⟩ := h.live (mem_of_getLast? hlast)
  obtain ⟨as, hsplit⟩ : ∃ as, xs (t, .allocated) = as ++ [node] := by
    rw [hlive, getLast?_map] at hlast
    obtain ⟨node', hnode', heq⟩ := Option.map_eq_some_iff.1 hlast
    exact getLast?_eq_some_iff.1 (Nat.add_right_cancel heq ▸ hnode')
  have hobj : (node + nodeSize + 2 ^ 64 - nodeSize) % 2 ^ 64 = node := by
    have hbound := hslab.bound _ node hnode
    omega
  have hfree := implSlabFree_eq hslab hinit (t := t) (node + nodeSize)
  rw [hobj] at hfree
  refine ⟨_, hfree, _, hslab.free hinit hsplit, fun t' => ?_⟩
  by_cases ht : t' = t
  · subst ht
    have hnodup := (hslab.lists.list (t', .allocated)).nodup
    rw [hsplit, nodup_append] at hnodup
    have hnotMem : node + nodeSize ∉ as.map (· + nodeSize) := by
      intro hmem
      obtain ⟨x, hx, heq⟩ := mem_map.1 hmem
      exact hnodup.2.2 x hx node mem_cons_self (Nat.add_right_cancel heq)
    simp only [update_self, hlive, hsplit, map_append, map_singleton]
    rw [erase_append_right _ hnotMem]
    simp
  · simp [hlive, ht]

theorem SlabSystem.Inv.call (h : s.Inv sizes) (hlast : s.FreesLast a)
    (hcall : s.call sizes virtualAlloc a = some s') : s'.Inv sizes := by
  cases a with
  | allocate t =>
    obtain ⟨r, hallocate, rfl⟩ := Option.map_eq_some_iff.1 hcall
    exact (h.allocate hallocate).1
  | free t obj =>
    obtain ⟨slab, hfree, hinv⟩ := h.free hlast
    rw [SlabSystem.call, hfree] at hcall
    exact Option.some.inj hcall ▸ hinv

theorem SlabSystem.inv_of_reaches (hrun : Reaches SlabSystem.FreesLast
    (fun s a s' => s.call sizes virtualAlloc a = some s') .initial s) : s.Inv sizes :=
  hrun.invariant (SlabSystem.Inv sizes) (SlabSystem.inv_initial sizes)
    fun _ _ _ h hlast hcall => h.call hlast hcall

end Runs

/-- In every run that frees the object that was allocated last, the lists are in order, no
allocation returns an object that is live, and the last object can be freed. -/
theorem slab_in_order (sizes : ObjectSizes) (virtualAlloc : PageSupply sizes) {s : SlabSystem}
    (hrun : Reaches SlabSystem.FreesLast (fun s a s' => s.call sizes virtualAlloc a = some s')
      .initial s) :
    s.InOrder ∧
    (∀ t ret slab, implSlabAllocate sizes virtualAlloc s.slab t 1 = some (ret, slab) →
      ret ∉ s.live t) ∧
    ∀ t obj, (s.live t).getLast? = some obj → (implSlabFree sizes s.slab t obj 1).isSome := by
  have hinv := SlabSystem.inv_of_reaches hrun
  refine ⟨?_, fun t ret slab hallocate => (hinv.allocate hallocate).2, fun t obj hlast => ?_⟩
  · obtain ⟨xs, hslab, hlive⟩ := hinv
    exact ⟨xs, hslab.toSlabLists, hlive⟩
  · obtain ⟨slab, hfree, -⟩ := hinv.free hlast
    exact Option.isSome_of_eq_some hfree

/-! ## A supply of pages -/

/-- Objects of 48 bytes. -/
def smallSizes : ObjectSizes := ⟨fun _ => 48, fun _ => by decide⟩

/-- The end of the memory that is in use. -/
def Slab.memoryEnd (s : Slab) : Nat :=
  ((ObjectType.all.flatMap s.nodes).map (· + nodeSize + 48)).foldr max 0x1000

theorem Slab.memoryEnd_le_iff {s : Slab} {b : Nat} :
    s.memoryEnd ≤ b ↔ 0x1000 ≤ b ∧ ∀ t, ∀ x ∈ s.nodes t, x + nodeSize + 48 ≤ b := by
  have hall : (∀ t, ∀ x ∈ s.nodes t, x + nodeSize + 48 ≤ b) ↔
      ∀ x ∈ ObjectType.all.flatMap s.nodes, x + nodeSize + 48 ≤ b := by
    simp only [mem_flatMap]
    refine ⟨fun h x ⟨t, _, hx⟩ => h t x hx, fun h t x hx => h x ⟨t, by cases t <;> decide, hx⟩⟩
  rw [hall, memoryEnd]
  induction ObjectType.all.flatMap s.nodes with
  | nil => simp
  | cons y nodes ih =>
    rw [map_cons, foldr_cons, max_le_iff, forall_mem_cons]
    exact (and_congr_right fun _ => ih).trans and_left_comm

/-- A supply of pages that goes upwards. -/
def smallSupply : PageSupply smallSizes := fun s size =>
  have hend := s.memoryEnd_le_iff.1 le_rfl
  if hfits : s.memoryEnd + size ≤ 2 ^ 64 then
    some ⟨s.memoryEnd, by omega, hfits, fun t x hx => Or.inl (hend.2 t x hx)⟩
  else none

/-- Two mutexes are allocated. If the first one is freed, it is the last node of the free list, and
the other one is still behind it. There are nodes for a third one. -/
theorem exists_two_allocated : ∃ s : SlabSystem,
    Reaches SlabSystem.FreesLast (fun s c s' => s.call smallSizes smallSupply c = some s')
      .initial s ∧ s.live .mutex = [13264, 13168] ∧
    (s.call smallSizes smallSupply (.free .mutex 13264)).map (fun s' =>
      ((s'.slab.lists (.mutex, .free)).tail, s'.slab.links.next 13216)) = some (13216, 13120) ∧
    (provideNodes smallSizes smallSupply s.slab .mutex 1).isSome = true := by
  have hcalls : ((SlabSystem.initial.call smallSizes smallSupply (.allocate .mutex)).bind fun s =>
      s.call smallSizes smallSupply (.allocate .mutex)).map (fun s => (s.live .mutex,
        (s.call smallSizes smallSupply (.free .mutex 13264)).map (fun s' =>
          ((s'.slab.lists (.mutex, .free)).tail, s'.slab.links.next 13216)),
        (provideNodes smallSizes smallSupply s.slab .mutex 1).isSome)) =
      some ([13264, 13168], some (13216, 13120), true) := by decide +kernel
  obtain ⟨s, htwo, heq⟩ := Option.map_eq_some_iff.1 hcalls
  obtain ⟨s1, hfirst, hsecond⟩ := Option.bind_eq_some_iff.1 htwo
  have hrun : Reaches SlabSystem.FreesLast (fun s c s' => s.call smallSizes smallSupply c = some s')
      .initial s1 := .single ⟨.allocate .mutex, trivial, hfirst⟩
  obtain ⟨hlive, hrest⟩ := Prod.mk.inj heq
  exact ⟨s, hrun.tail ⟨.allocate .mutex, trivial, hsecond⟩, hlive, Prod.mk.inj hrest⟩

theorem slab_in_order_two_mutexes : ∃ (s : SlabSystem) (a b : Nat),
    s.live .mutex = [a, b] ∧ s.InOrder ∧ (implSlabFree smallSizes s.slab .mutex b 1).isSome := by
  obtain ⟨s, hrun, hlive, -⟩ := exists_two_allocated
  obtain ⟨horder, -, hfree⟩ := slab_in_order smallSizes smallSupply hrun
  exact ⟨s, _, _, hlive, horder, hfree .mutex _ (by rw [hlive]; rfl)⟩

/-- The first of two mutexes is freed. -/
theorem slab_first_freed_not_in_order : ∃ (s s' : SlabSystem) (a b : Nat),
    Reaches SlabSystem.FreesLast (fun s c s' => s.call smallSizes smallSupply c = some s')
      .initial s ∧ s.live .mutex = [a, b] ∧
    s.call smallSizes smallSupply (.free .mutex a) = some s' ∧ ¬ s'.InOrder := by
  obtain ⟨s, hrun, hlive, hfree, -⟩ := exists_two_allocated
  obtain ⟨s', hcall, heq⟩ := Option.map_eq_some_iff.1 hfree
  obtain ⟨htail, hnext⟩ := Prod.mk.inj heq
  refine ⟨s, s', _, _, hrun, hlive, hcall, ?_⟩
  rintro ⟨xs, hlists, -⟩
  have hend := hlists.next_tail (i := (.mutex, .free)) (by simp [htail])
  rw [htail, hnext] at hend
  cases hend

end Obos.Allocators
