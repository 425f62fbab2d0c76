import Obos.Lib.DList

/-!
# Several intrusive lists through the same nodes

The lists of a family share the link fields of their nodes, and each of them has its own ends. A
node is on one list at most, so that an edit of one list leaves the others alone: `Lists.unlink`
and `Lists.pushBack` say what the two edits of `DList` do to the whole family. In `CountedLists`
every list has a word for its length, which the edits keep too.
-/

namespace Lib

open Function List

/-- The link fields of nodes. -/
structure LinkFields (P : Type*) where
  next : P → P
  prev : P → P

/-- The ends of a list. -/
structure Ends (P : Type*) where
  head : P
  tail : P

variable {P ι : Type*}

/-- The list with the given ends. -/
def LinkFields.through (links : LinkFields P) (ends : Ends P) : DList P :=
  ⟨links.next, links.prev, ends.head, ends.tail⟩

/-- The link fields a list goes through. -/
def DList.links (l : DList P) : LinkFields P := ⟨l.next, l.prev⟩

/-- The ends of a list. -/
def DList.ends (l : DList P) : Ends P := ⟨l.head, l.tail⟩

@[simp] theorem DList.through_ends (l : DList P) : l.links.through l.ends = l := rfl

variable [DecidableEq P] [DecidableEq ι]

/-- The lists of a family consist of the nodes `xs`, without sharing. -/
structure Lists (null : P) (links : LinkFields P) (ends : ι → Ends P) (xs : ι → List P) :
    Prop where
  list : ∀ i, (links.through (ends i)).IsList null (xs i)
  disjoint : ∀ i j x, x ∈ xs i → x ∈ xs j → i = j

namespace Lists

variable {null n : P} {links links' : LinkFields P} {ends : ι → Ends P} {xs : ι → List P} {i : ι}

variable (h : Lists null links ends xs)
include h

omit [DecidableEq ι] in
theorem congr
    (hlinks : ∀ j, ∀ x ∈ xs j, links'.next x = links.next x ∧ links'.prev x = links.prev x) :
    Lists null links' ends xs where
  list j := (h.list j).congr rfl rfl (fun x hx => (hlinks j x hx).1) fun x hx => (hlinks j x hx).2
  disjoint := h.disjoint

/-- One list is replaced by an edit that keeps the links of the others. -/
theorem update {l : DList P} {ys : List P} (hlist : l.IsList null ys)
    (hother : ∀ j, ∀ y ∈ ys, y ∈ xs j → j = i)
    (hframe : ∀ j ≠ i, ∀ x ∈ xs j, l.next x = links.next x ∧ l.prev x = links.prev x) :
    Lists null l.links (update ends i l.ends) (update xs i ys) where
  list j := by
    by_cases hj : j = i
    · subst hj
      simpa using hlist
    · simp only [update_of_ne hj]
      exact (h.list j).congr rfl rfl (fun x hx => (hframe j hj x hx).1)
        fun x hx => (hframe j hj x hx).2
  disjoint j j' x hx hx' := by
    by_cases hj : j = i <;> by_cases hj' : j' = i
    · rw [hj, hj']
    · subst hj
      simp only [update_self, update_of_ne hj'] at hx hx'
      exact (hother j' x hx hx').symm
    · subst hj'
      simp only [update_self, update_of_ne hj] at hx hx'
      exact hother j x hx' hx
    · simp only [update_of_ne hj, update_of_ne hj'] at hx hx'
      exact h.disjoint j j' x hx hx'

/-- A node is taken out of its list. -/
theorem unlink {as bs : List P} (hsplit : xs i = as ++ n :: bs) :
    Lists null ((links.through (ends i)).unlink null n).links
      (Function.update ends i ((links.through (ends i)).unlink null n).ends)
      (Function.update xs i (as ++ bs)) := by
  have hlist := h.list i
  rw [hsplit] at hlist
  refine h.update hlist.unlink (fun j y hy hyj => ?_) fun j hj x hx => ?_
  · refine h.disjoint j i y hyj ?_
    rw [hsplit]
    rcases mem_append.1 hy with hy | hy
    · exact mem_append_left _ hy
    · exact mem_append_right _ (mem_cons_of_mem n hy)
  · refine hlist.unlink_frame ?_
    rw [← hsplit]
    exact fun hxi => hj (h.disjoint j i x hx hxi)

/-- A node that is on none of the lists is appended to one. -/
theorem pushBack (hnew : ∀ j, n ∉ xs j) (hnull : n ≠ null) (hnext : links.next n = null) :
    Lists null ((links.through (ends i)).pushBack null n).links
      (Function.update ends i ((links.through (ends i)).pushBack null n).ends)
      (Function.update xs i (xs i ++ [n])) := by
  refine h.update ((h.list i).pushBack hnull (hnew i) hnext) (fun j y hy hyj => ?_)
    fun j hj x hx => ?_
  · rcases mem_append.1 hy with hy | hy
    · exact h.disjoint j i y hyj hy
    · exact absurd (mem_singleton.1 hy ▸ hyj) (hnew j)
  · exact (h.list i).pushBack_frame (fun hxi => hj (h.disjoint j i x hx hxi))
      fun he => hnew j (he ▸ hx)

omit [DecidableEq P] h in
theorem mem_append (xs : ι → List P) (i : ι) (n : P) (j : ι) (x : P) :
    x ∈ Function.update xs i (xs i ++ [n]) j ↔ x ∈ xs j ∨ (j = i ∧ x = n) := by
  by_cases hj : j = i
  · subst hj
    simp
  · simp [hj]

/-- What is left on the lists without a node. -/
theorem mem_unlink {as bs : List P} (hsplit : xs i = as ++ n :: bs) (j : ι) (x : P) :
    x ∈ Function.update xs i (as ++ bs) j ↔ x ∈ xs j ∧ x ≠ n := by
  by_cases hj : j = i
  · subst hj
    have hnodup := (h.list j).nodup
    rw [hsplit] at hnodup
    have hn : n ∉ as ++ bs := (List.nodup_middle.1 hnodup).notMem
    rw [update_self, hsplit]
    constructor
    · intro hx
      refine ⟨?_, fun he => hn (he ▸ hx)⟩
      rcases List.mem_append.1 hx with hx | hx
      · exact List.mem_append_left _ hx
      · exact List.mem_append_right _ (List.mem_cons_of_mem n hx)
    · rintro ⟨hx, hne⟩
      rcases List.mem_append.1 hx with hx | hx
      · exact List.mem_append_left _ hx
      · exact List.mem_append_right _ (List.mem_of_ne_of_mem hne hx)
  · rw [update_of_ne hj]
    refine ⟨fun hx => ⟨hx, fun he => hj (h.disjoint j i x hx ?_)⟩, And.left⟩
    rw [hsplit, he]
    simp

end Lists

/-! ## Lists with their lengths -/

/-- The lists of a family whose nodes are at 64-bit addresses, with a word for each length. -/
structure CountedLists (links : LinkFields Nat) (ends : ι → Ends Nat) (size : ι → Nat)
    (xs : ι → List Nat) : Prop where
  lists : Lists 0 links ends xs
  size : ∀ i, size i = (xs i).length
  bound : ∀ i, ∀ x ∈ xs i, x < 2 ^ 64

namespace CountedLists

variable {links links' : LinkFields Nat} {ends : ι → Ends Nat} {size : ι → Nat} {xs : ι → List Nat}
  {i : ι} {n : Nat}

variable (h : CountedLists links ends size xs)
include h

omit [DecidableEq ι] in
theorem congr
    (hlinks : ∀ j, ∀ x ∈ xs j, links'.next x = links.next x ∧ links'.prev x = links.prev x) :
    CountedLists links' ends size xs :=
  ⟨h.lists.congr hlinks, h.size, h.bound⟩

/-- One list is replaced, with its length. -/
theorem update {e : Ends Nat} {k : Nat} {ys : List Nat}
    (hlists : Lists 0 links' (update ends i e) (update xs i ys))
    (hsize : k = ys.length) (hbound : ∀ y ∈ ys, y < 2 ^ 64) :
    CountedLists links' (update ends i e) (update size i k) (update xs i ys) := by
  refine ⟨hlists, fun j => ?_, fun j x hx => ?_⟩
  · by_cases hj : j = i
    · subst hj
      simpa using hsize
    · simpa [update_of_ne hj] using h.size j
  · by_cases hj : j = i
    · subst hj
      rw [update_self] at hx
      exact hbound x hx
    · rw [update_of_ne hj] at hx
      exact h.bound j x hx

/-- A node is taken out of its list. -/
theorem unlink {as bs : List Nat} (hsplit : xs i = as ++ n :: bs) :
    CountedLists ((links.through (ends i)).unlink 0 n).links
      (Function.update ends i ((links.through (ends i)).unlink 0 n).ends)
      (Function.update size i ((size i + 2 ^ 64 - 1) % 2 ^ 64))
      (Function.update xs i (as ++ bs)) := by
  refine h.update (h.lists.unlink hsplit) ?_ fun y hy => h.bound i y ?_
  · have hlength := (h.lists.list i).length_lt (h.bound i)
    have hsize := h.size i
    rw [hsplit, length_append, length_cons] at hlength hsize
    rw [length_append]
    omega
  · refine ((h.lists.mem_unlink hsplit i y).1 ?_).1
    rwa [update_self]

/-- A node that is on none of the lists is appended to one. -/
theorem pushBack (hnew : ∀ j, n ∉ xs j) (hnull : n ≠ 0) (hbound : n < 2 ^ 64)
    (hnext : links.next n = 0) :
    CountedLists ((links.through (ends i)).pushBack 0 n).links
      (Function.update ends i ((links.through (ends i)).pushBack 0 n).ends)
      (Function.update size i ((size i + 1) % 2 ^ 64))
      (Function.update xs i (xs i ++ [n])) := by
  have hlists := @Lists.pushBack _ _ _ _ 0 n links ends xs i h.lists hnew hnull hnext
  have hmem : ∀ y ∈ xs i ++ [n], y < 2 ^ 64 := by
    intro y hy
    rcases mem_append.1 hy with hy | hy
    · exact h.bound i y hy
    · exact mem_singleton.1 hy ▸ hbound
  refine h.update hlists ?_ hmem
  have hlist := hlists.list i
  simp only [update_self] at hlist
  have hlength := hlist.length_lt hmem
  rw [length_append, length_singleton] at hlength ⊢
  rw [h.size i]
  omega

end CountedLists

end Lib
