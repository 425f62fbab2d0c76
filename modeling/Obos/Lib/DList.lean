import Mathlib.Tactic
import Mathlib.Data.List.Chain

/-!
# Intrusive doubly linked lists

The nodes of an intrusive list carry a `next` and a `prev` field, and the list
itself is a pair of `head` and `tail` pointers. `pushBack` and `unlink` are the
two edits every such list is built from, written as the assignments a C program
makes. `IsList null l xs` says that `l` is the list of the nodes `xs`: reading
the null pointer as a sentinel whose successor is the head and whose
predecessor is the tail, neighbours in `null, xs, null` point at each other.
Both edits are then an update of the sentinel's view at two places, and
`IsList.pushBack` and `IsList.unlink` say what they do to `xs`.
-/

namespace Lib

open List Option

/-- The link fields of a family of nodes together with the ends of one list through them. -/
@[ext] structure DList (P : Type*) where
  next : P → P
  prev : P → P
  head : P
  tail : P

namespace DList

variable {P : Type*} [DecidableEq P]

/-- Append the node `n`: hang it behind the tail, make it the head of an empty list, and make it
the tail. Its own `next` field is not written. -/
def pushBack (null : P) (l : DList P) (n : P) : DList P where
  next := if l.tail = null then l.next else Function.update l.next l.tail n
  prev := Function.update l.prev n l.tail
  head := if l.head = null then n else l.head
  tail := n

/-- Take the node `n` out of the list, without writing the fields of `n` itself. -/
def unlink (null : P) (l : DList P) (n : P) : DList P where
  next := if l.prev n = null then l.next else Function.update l.next (l.prev n) (l.next n)
  prev := if l.next n = null then l.prev else Function.update l.prev (l.next n) (l.prev n)
  head := if l.head = n then l.next n else l.head
  tail := if l.tail = n then l.prev n else l.tail

/-- The successor of a node, with the null pointer as the sentinel before the head. -/
def succ (null : P) (l : DList P) (p : P) : P := if p = null then l.head else l.next p

/-- The predecessor of a node, with the null pointer as the sentinel behind the tail. -/
def pred (null : P) (l : DList P) (p : P) : P := if p = null then l.tail else l.prev p

/-- The two nodes point at each other. -/
def Adjacent (null : P) (l : DList P) (x y : P) : Prop :=
  l.succ null x = y ∧ l.pred null y = x

/-- The list consists of exactly the nodes `xs`, in this order. -/
structure IsList (null : P) (l : DList P) (xs : List P) : Prop where
  chain : (null :: (xs ++ [null])).IsChain (l.Adjacent null)
  nodup : xs.Nodup
  null_notMem : null ∉ xs

variable {null n : P} {l l' : DList P} {xs ys : List P}

@[simp] theorem succ_null : l.succ null null = l.head := by simp [succ]

@[simp] theorem pred_null : l.pred null null = l.tail := by simp [pred]

theorem succ_of_ne {p : P} (h : p ≠ null) : l.succ null p = l.next p := by simp [succ, h]

theorem pred_of_ne {p : P} (h : p ≠ null) : l.pred null p = l.prev p := by simp [pred, h]

variable {c : List P}

/-- A chain of neighbours survives an edit that keeps the successor of every node but the last
and the predecessor of every node but the first. -/
theorem isChain_congr {null : P} {l l' : DList P} (h : c.IsChain (l.Adjacent null))
    (hsucc : ∀ a ∈ c.dropLast, l'.succ null a = l.succ null a)
    (hpred : ∀ b ∈ c.tail, l'.pred null b = l.pred null b) : c.IsChain (l'.Adjacent null) := by
  induction h with
  | nil => exact .nil
  | singleton a => exact .singleton a
  | @cons_cons a b rest hab hrest ih =>
    have htail : ∀ y ∈ (b :: rest).tail, l'.pred null y = l.pred null y := fun y hy =>
      hpred y (mem_cons_of_mem b (by simpa using hy))
    have hinit : ∀ x ∈ (b :: rest).dropLast, l'.succ null x = l.succ null x := fun x hx =>
      hsucc x (by rw [dropLast_cons_cons]; exact mem_cons_of_mem a hx)
    refine .cons_cons ⟨?_, ?_⟩ (ih hinit htail)
    · rw [hsucc a (by simp [dropLast_cons_cons]), hab.1]
    · rw [hpred b (by simp), hab.2]

omit [DecidableEq P] in
theorem getLast_notMem_dropLast (hc : c.Nodup) (hne : c ≠ []) : c.getLast hne ∉ c.dropLast := by
  intro hmem
  rw [← dropLast_append_getLast hne, nodup_append] at hc
  exact hc.2.2 _ hmem _ (by simp) rfl

omit [DecidableEq P] in
theorem head_notMem_tail (hc : c.Nodup) (hne : c ≠ []) : c.head hne ∉ c.tail := by
  cases c with
  | nil => exact absurd rfl hne
  | cons a c => exact (nodup_cons.1 hc).1

namespace IsList

variable (h : IsList null l xs)
include h

/-- The head is the first node, or null. -/
theorem head_eq : l.head = (xs ++ [null]).head (by simp) := by
  have hc := h.chain
  cases xs with
  | nil =>
    simp only [nil_append, isChain_cons_cons] at hc
    simpa using hc.1.1
  | cons x xs =>
    simp only [cons_append, isChain_cons_cons] at hc
    simpa using hc.1.1

/-- The links determine the nodes. -/
theorem unique (h' : IsList null l ys) : xs = ys := by
  -- from any node on, the two chains go the same way until both end
  have hrest : ∀ (xs ys : List P) (a : P), (a :: (xs ++ [null])).IsChain (l.Adjacent null) →
      (a :: (ys ++ [null])).IsChain (l.Adjacent null) → null ∉ xs → null ∉ ys → xs = ys := by
    intro xs
    induction xs with
    | nil =>
      intro ys a hxs hys _ hnull
      cases ys with
      | nil => rfl
      | cons y ys =>
        have hnext := (isChain_cons_cons.1 hxs).1.1
        rw [cons_append, isChain_cons_cons] at hys
        exact absurd (hys.1.1.symm.trans hnext) fun he => hnull (by simp [he])
    | cons x xs ih =>
      intro ys a hxs hys hnull hnull'
      rw [cons_append, isChain_cons_cons] at hxs
      cases ys with
      | nil =>
        have hnext := (isChain_cons_cons.1 hys).1.1
        exact absurd (hxs.1.1.symm.trans hnext) fun he => hnull (by simp [he])
      | cons y ys =>
        rw [cons_append, isChain_cons_cons] at hys
        obtain rfl : x = y := hxs.1.1.symm.trans hys.1.1
        rw [ih ys x hxs.2 hys.2 (fun hm => hnull (mem_cons_of_mem x hm))
          fun hm => hnull' (mem_cons_of_mem x hm)]
  exact hrest xs ys null h.chain h'.chain h.null_notMem h'.null_notMem

theorem head_eq_null_iff : l.head = null ↔ xs = [] := by
  rw [h.head_eq]
  cases xs with
  | nil => simp
  | cons x xs =>
    have hx : x ≠ null := fun he => h.null_notMem (by simp [he])
    simp [hx]

omit h in
theorem adjacent_of_split {as bs : List P} (h : IsList null l (as ++ n :: bs)) :
    (null :: (as ++ [n])).IsChain (l.Adjacent null) ∧
      (n :: (bs ++ [null])).IsChain (l.Adjacent null) := by
  have hc := h.chain
  rw [append_assoc, cons_append] at hc
  rwa [isChain_cons_split] at hc

/-- The tail is the last node, or null. -/
theorem tail_eq : l.tail = (null :: xs).getLast (by simp) := by
  have hc := h.chain
  induction xs using reverseRecOn with
  | nil =>
    simp only [nil_append, isChain_cons_cons] at hc
    simpa using hc.1.2
  | append_singleton xs x _ =>
    have hs := (@adjacent_of_split P _ null x l xs [] h).2
    simp only [nil_append, isChain_cons_cons] at hs
    simpa using hs.1.2

/-- A null tail means an empty list. -/
theorem tail_eq_null_iff : l.tail = null ↔ xs = [] := by
  rw [h.tail_eq]
  induction xs using reverseRecOn with
  | nil => simp
  | append_singleton xs x _ =>
    have hx : x ≠ null := fun he => h.null_notMem (by simp [he])
    simp [hx]

theorem tail_mem (hne : l.tail ≠ null) : l.tail ∈ xs := by
  have ht := getLast_mem (l := null :: xs) (by simp)
  rw [← h.tail_eq] at ht
  exact (mem_cons.1 ht).resolve_left hne

theorem head_mem (hne : l.head ≠ null) : l.head ∈ xs := by
  have hh := List.head_mem (l := xs ++ [null]) (by simp)
  rw [← h.head_eq] at hh
  simpa [hne] using hh

/-- Two list values that agree on the nodes and on the ends are the same list. -/
theorem congr (hhead : l'.head = l.head) (htail : l'.tail = l.tail)
    (hnext : ∀ x ∈ xs, l'.next x = l.next x) (hprev : ∀ x ∈ xs, l'.prev x = l.prev x) :
    IsList null l' xs := by
  refine ⟨isChain_congr h.chain ?_ ?_, h.nodup, h.null_notMem⟩
  · intro x hx
    by_cases he : x = null
    · simp [he, hhead]
    · rw [succ_of_ne he, succ_of_ne he]
      exact hnext x (by simpa [he] using mem_of_mem_dropLast hx)
  · intro x hx
    by_cases he : x = null
    · simp [he, htail]
    · rw [pred_of_ne he, pred_of_ne he]
      exact hprev x (by simpa [he] using hx)

theorem nodup_cons : (null :: xs).Nodup :=
  List.nodup_cons.2 ⟨h.null_notMem, h.nodup⟩

omit h in
/-- A list of addresses is shorter than the address space, since null is not one of them. -/
theorem length_lt {l : DList Nat} {xs : List Nat} (h : IsList 0 l xs)
    (hbound : ∀ x ∈ xs, x < 2 ^ 64) : xs.length < 2 ^ 64 := by
  have hsub : 0 :: xs ⊆ range (2 ^ 64) := by
    intro x hx
    rw [mem_range]
    rcases mem_cons.1 hx with rfl | hx
    · decide
    · exact hbound x hx
  have hle := (subperm_of_subset h.nodup_cons hsub).length_le
  rwa [length_range, length_cons] at hle

theorem nodup_snoc : (xs ++ [null]).Nodup :=
  nodup_append.2 ⟨h.nodup, by simp, fun a ha b hb he =>
    h.null_notMem (by rw [← mem_singleton.1 hb, ← he]; exact ha)⟩

end IsList

/-! ## Appending -/

/-- In the sentinel's view, appending redirects the successor of the tail. -/
theorem succ_pushBack (h : IsList null l xs) (p : P) :
    (l.pushBack null n).succ null p = if p = l.tail then n else l.succ null p := by
  by_cases hp : p = null
  · subst hp
    by_cases ht : l.tail = p
    · have hh := h.head_eq_null_iff.2 (h.tail_eq_null_iff.1 ht)
      simp [succ, pushBack, hh, ht]
    · have hh : l.head ≠ p := fun he => ht (h.tail_eq_null_iff.2 (h.head_eq_null_iff.1 he))
      simp [succ, pushBack, hh, Ne.symm ht]
  · rw [succ_of_ne hp, succ_of_ne hp]
    by_cases ht : l.tail = null
    · simp [pushBack, ht, hp]
    · by_cases hpt : p = l.tail
      · simp [pushBack, ht, hpt]
      · simp [pushBack, ht, hpt]

/-- In the sentinel's view, appending sets the predecessors of the new node and of null. -/
theorem pred_pushBack (hn : n ≠ null) (p : P) :
    (l.pushBack null n).pred null p =
      if p = null then n else if p = n then l.tail else l.pred null p := by
  by_cases hp : p = null
  · simp [pred, pushBack, hp]
  · by_cases hpn : p = n
    · simp [pred, pushBack, hpn, hn]
    · simp [pred, pushBack, hp, hpn]

/-- Appending a node that is not in the list, and whose `next` field is null, adds it at the
end. -/
theorem IsList.pushBack (h : IsList null l xs) (hn : n ≠ null) (hmem : n ∉ xs)
    (hnext : l.next n = null) : IsList null (l.pushBack null n) (xs ++ [n]) := by
  have htail := h.tail_eq
  have hlast : n ≠ l.tail := by
    intro he
    exact hmem (he ▸ h.tail_mem (he ▸ hn))
  have hend : (l.pushBack null n).Adjacent null n null := by
    constructor
    · rw [succ_pushBack h, if_neg hlast, succ_of_ne hn, hnext]
    · rw [pred_pushBack hn, if_pos rfl]
  have hjoin : (l.pushBack null n).Adjacent null l.tail n := by
    constructor
    · rw [succ_pushBack h, if_pos rfl]
    · rw [pred_pushBack hn, if_neg hn, if_pos rfl]
  have hfront : (null :: xs).IsChain ((l.pushBack null n).Adjacent null) := by
    have hc : (null :: xs).IsChain (l.Adjacent null) := by
      have hwhole := h.chain
      exact hwhole.left_of_append
    refine isChain_congr hc ?_ ?_
    · intro a ha
      have hne : a ≠ l.tail := by
        rintro rfl
        rw [htail] at ha
        exact getLast_notMem_dropLast h.nodup_cons (by simp) ha
      rw [succ_pushBack h, if_neg hne]
    · intro b hb
      have hbx : b ∈ xs := by simpa using hb
      have hb0 : b ≠ null := fun he => h.null_notMem (he ▸ hbx)
      have hbn : b ≠ n := fun he => hmem (he ▸ hbx)
      rw [pred_pushBack hn, if_neg hb0, if_neg hbn]
  refine ⟨?_, ?_, ?_⟩
  · rw [show null :: (xs ++ [n] ++ [null]) = (null :: xs) ++ [n, null] by simp]
    refine hfront.append (by simpa using hend) ?_
    intro x hx y hy
    simp only [head?_cons, mem_def, some.injEq] at hy
    rw [mem_def, getLast?_eq_some_getLast (by simp), some.injEq] at hx
    rw [← hx, ← htail, ← hy]
    exact hjoin
  · rw [nodup_append]
    refine ⟨h.nodup, by simp, fun a ha b hb he => hmem ?_⟩
    rw [← mem_singleton.1 hb, ← he]
    exact ha
  · simp [h.null_notMem, Ne.symm hn]

/-- Appending writes the links of the list's own nodes and of the new one only. -/
theorem IsList.pushBack_frame (h : IsList null l xs) {x : P} (hx : x ∉ xs) (hxn : x ≠ n) :
    (l.pushBack null n).next x = l.next x ∧ (l.pushBack null n).prev x = l.prev x := by
  constructor
  · by_cases ht : l.tail = null
    · simp [DList.pushBack, ht]
    · have hxt : x ≠ l.tail := fun he => hx (he ▸ h.tail_mem ht)
      simp [DList.pushBack, ht, hxt]
  · simp [DList.pushBack, hxn]

/-! ## Unlinking -/

variable {as bs : List P}

/-- The neighbours of a node of the list, null standing for the ends. -/
theorem IsList.neighbours (h : IsList null l (as ++ n :: bs)) :
    l.prev n = (null :: as).getLast (by simp) ∧ l.next n = (bs ++ [null]).head (by simp) := by
  have hn : n ≠ null := fun he => h.null_notMem (by simp [he])
  obtain ⟨hleft, hright⟩ := h.adjacent_of_split
  constructor
  · rw [← cons_append, isChain_append] at hleft
    have hlast := hleft.2.2 _ (getLast_mem_getLast? (by simp)) n (by simp)
    rw [← pred_of_ne hn]
    exact hlast.2
  · have hfirst := hright.rel_head? (head_mem_head? (by simp))
    rw [← succ_of_ne hn]
    exact hfirst.1

/-- Behind the tail there is no node. -/
theorem IsList.next_tail (h : IsList null l xs) (hne : l.tail ≠ null) : l.next l.tail = null := by
  rcases eq_nil_or_concat xs with rfl | ⟨as, x, rfl⟩
  · exact absurd (h.tail_eq_null_iff.2 rfl) hne
  · rw [concat_eq_append] at h
    have htail : l.tail = x := by
      rw [h.tail_eq]
      simp
    rw [htail]
    exact h.neighbours.2

/-- Unlinking writes the links of the list's own nodes only. -/
theorem IsList.unlink_frame (h : IsList null l (as ++ n :: bs)) {x : P} (hx : x ∉ as ++ n :: bs) :
    (l.unlink null n).next x = l.next x ∧ (l.unlink null n).prev x = l.prev x := by
  obtain ⟨hprev, hnext⟩ := h.neighbours
  constructor
  · by_cases hp : l.prev n = null
    · simp [DList.unlink, hp]
    · have hmem : l.prev n ∈ null :: as := hprev ▸ getLast_mem _
      have hne : x ≠ l.prev n := fun he =>
        hx (mem_append_left _ (he ▸ (List.mem_cons.1 hmem).resolve_left hp))
      simp [DList.unlink, hp, hne]
  · by_cases hq : l.next n = null
    · simp [DList.unlink, hq]
    · have hmem := hnext ▸ List.head_mem _
      have hbs : l.next n ∈ bs := by simpa [hq] using hmem
      have hne : x ≠ l.next n := fun he =>
        hx (mem_append_right _ (mem_cons_of_mem n (he ▸ hbs)))
      simp [DList.unlink, hq, hne]

/-- Unlinking does not write the links of the node itself. -/
theorem unlink_self (null : P) (l : DList P) (n : P) :
    (l.unlink null n).next n = l.next n ∧ (l.unlink null n).prev n = l.prev n := by
  constructor
  · by_cases hp : l.prev n = null
    · simp [unlink, hp]
    · by_cases he : n = l.prev n
      · simp [unlink, ← he]
      · simp [unlink, hp, he]
  · by_cases hq : l.next n = null
    · simp [unlink, hq]
    · by_cases he : n = l.next n
      · simp [unlink, ← he]
      · simp [unlink, hq, he]

/-- The node behind the sentinel is the head, and the one in front of it is the tail. -/
theorem IsList.ends_iff (h : IsList null l (as ++ n :: bs)) :
    (l.head = n ↔ l.prev n = null) ∧ (l.tail = n ↔ l.next n = null) := by
  obtain ⟨hprev, hnext⟩ := h.neighbours
  have hin := h.nodup_cons
  constructor
  · rw [h.head_eq, hprev]
    cases as with
    | nil => simp
    | cons a as =>
      have ha : a ≠ n := by rintro rfl; simp at hin
      have hl : (null :: a :: as).getLast (by simp) ≠ null := by
        intro he
        exact h.null_notMem (mem_append_left _ (he ▸ getLast_mem _))
      exact ⟨fun he => absurd he ha, fun he => absurd he hl⟩
  · rw [h.tail_eq, hnext]
    have hshape : (null :: (as ++ n :: bs)).getLast (by simp) = (n :: bs).getLast (by simp) := by
      rw [getLast_cons (by simp), getLast_append_of_ne_nil _ (by simp)]
    rw [hshape]
    cases bs with
    | nil => simp
    | cons b bs =>
      have hb : b ≠ null := fun he => h.null_notMem (by simp [he])
      have hl : (n :: b :: bs).getLast (by simp) ≠ n := by
        intro he
        rw [getLast_cons (by simp)] at he
        have hmem : n ∈ b :: bs := by
          have hm := getLast_mem (l := b :: bs) (by simp)
          rwa [he] at hm
        exact (List.nodup_cons.1 (List.nodup_append.1 h.nodup).2.1).1 hmem
      exact ⟨fun he => absurd he hl, fun he => absurd he hb⟩

/-- In the sentinel's view, unlinking redirects the successor of the left neighbour. -/
theorem succ_unlink (h : IsList null l (as ++ n :: bs)) (x : P) :
    (l.unlink null n).succ null x = if x = l.prev n then l.next n else l.succ null x := by
  by_cases hx : x = null
  · subst hx
    by_cases hh : l.head = n
    · simp [succ, unlink, hh, h.ends_iff.1.1 hh]
    · have hne : ¬ x = l.prev n := fun he => hh (h.ends_iff.1.2 he.symm)
      simp [succ, unlink, hh, hne]
  · rw [succ_of_ne hx, succ_of_ne hx]
    by_cases hp : l.prev n = null
    · simp [unlink, hp, hx]
    · by_cases hxp : x = l.prev n
      · simp [unlink, hp, hxp]
      · simp [unlink, hp, hxp]

/-- In the sentinel's view, unlinking redirects the predecessor of the right neighbour. -/
theorem pred_unlink (h : IsList null l (as ++ n :: bs)) (x : P) :
    (l.unlink null n).pred null x = if x = l.next n then l.prev n else l.pred null x := by
  by_cases hx : x = null
  · subst hx
    by_cases ht : l.tail = n
    · simp [pred, unlink, ht, h.ends_iff.2.1 ht]
    · have hne : ¬ x = l.next n := fun he => ht (h.ends_iff.2.2 he.symm)
      simp [pred, unlink, ht, hne]
  · rw [pred_of_ne hx, pred_of_ne hx]
    by_cases hq : l.next n = null
    · simp [unlink, hq, hx]
    · by_cases hxq : x = l.next n
      · simp [unlink, hq, hxq]
      · simp [unlink, hq, hxq]

/-- Unlinking a node removes it from the list. -/
theorem IsList.unlink (h : IsList null l (as ++ n :: bs)) :
    IsList null (l.unlink null n) (as ++ bs) := by
  obtain ⟨hprev, hnext⟩ := h.neighbours
  obtain ⟨hleft, hright⟩ := h.adjacent_of_split
  obtain ⟨hnas, hnbs, hdisj⟩ := List.nodup_append.1 h.nodup
  have hleftNodup : (null :: as).Nodup := by
    have hall := h.nodup_cons
    exact (List.nodup_append.1 hall).1
  have hrightNodup : (bs ++ [null]).Nodup := by
    have hall := h.nodup_snoc
    rw [append_assoc] at hall
    exact (List.nodup_cons.1 (List.nodup_append.1 hall).2.1).2
  -- the nodes on the left and on the right of `n` are different, null on either side apart
  have hcross : ∀ a ∈ as, a ∉ bs ++ [null] := by
    intro a ha hb
    rcases List.mem_append.1 hb with hb | hb
    · exact hdisj a ha a (mem_cons_of_mem n hb) rfl
    · exact h.null_notMem (mem_append_left _ (List.mem_singleton.1 hb ▸ ha))
  have hcross' : ∀ b ∈ bs, b ∉ null :: as := by
    intro b hb ha
    rcases List.mem_cons.1 ha with ha | ha
    · exact h.null_notMem (by simp [← ha, hb])
    · exact hdisj b ha b (mem_cons_of_mem n hb) rfl
  refine ⟨?_, ?_, ?_⟩
  · have hl : (null :: as).IsChain ((l.unlink null n).Adjacent null) := by
      refine isChain_congr hleft.left_of_append ?_ ?_
      · intro a ha
        have hne : a ≠ l.prev n := by
          rintro rfl
          rw [hprev] at ha
          exact getLast_notMem_dropLast hleftNodup (by simp) ha
        rw [succ_unlink h, if_neg hne]
      · intro b hb
        have hne : b ≠ l.next n := by
          rintro rfl
          rw [hnext] at hb
          exact hcross _ (by simpa using hb) (List.head_mem _)
        rw [pred_unlink h, if_neg hne]
    have hr : (bs ++ [null]).IsChain ((l.unlink null n).Adjacent null) := by
      refine isChain_congr hright.tail ?_ ?_
      · intro a ha
        have hne : a ≠ l.prev n := by
          rintro rfl
          rw [hprev] at ha
          exact hcross' _ (by simpa using ha) (getLast_mem _)
        rw [succ_unlink h, if_neg hne]
      · intro b hb
        have hne : b ≠ l.next n := by
          rintro rfl
          rw [hnext] at hb
          exact head_notMem_tail hrightNodup (by simp) (by simpa using hb)
        rw [pred_unlink h, if_neg hne]
    rw [show null :: (as ++ bs ++ [null]) = (null :: as) ++ (bs ++ [null]) by simp]
    refine hl.append hr ?_
    intro x hx y hy
    rw [mem_def, getLast?_eq_some_getLast (by simp), some.injEq] at hx
    rw [mem_def, head?_eq_some_head (by simp), some.injEq] at hy
    rw [← hx, ← hy, ← hprev, ← hnext]
    exact ⟨by rw [succ_unlink h, if_pos rfl], by rw [pred_unlink h, if_pos rfl]⟩
  · exact List.nodup_append.2 ⟨hnas, (List.nodup_cons.1 hnbs).2,
      fun a ha b hb => hdisj a ha b (mem_cons_of_mem n hb)⟩
  · intro hmem
    exact h.null_notMem (by
      rcases List.mem_append.1 hmem with hm | hm
      · exact mem_append_left _ hm
      · exact mem_append_right _ (mem_cons_of_mem n hm))

/-! ## Edits given by the fields -/

end DList

end Lib
