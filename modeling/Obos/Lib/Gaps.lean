import Mathlib.Data.List.Chain
import Mathlib.Order.Lattice

/-!
# Gaps in sorted lists

A search for the first gap goes through a sorted list and stops at the first two neighbours that
are far apart. `FirstPair` are these neighbours for an arbitrary relation; a list without them is a
chain of its negation. `around` says that what lies between two elements of the list lies between
two neighbours. The list stands for intervals, of which it has the starts: `Covered` and `reach` are
the numbers in an interval and the end of the last one.
-/

namespace Lib.Gaps

open List

section Neighbours

variable {α : Type*} {r : α → α → Prop} {a u v : α} {l : List α}

/-- The first two neighbours in `a :: l` that are related. -/
inductive FirstPair (r : α → α → Prop) : α → List α → α → α → Prop
  | here {a b : α} {l : List α} : r a b → FirstPair r a (b :: l) a b
  | there {a b u v : α} {l : List α} : ¬ r a b → FirstPair r b l u v → FirstPair r a (b :: l) u v

namespace FirstPair

theorem related (h : FirstPair r a l u v) : r u v := by
  induction h with
  | here hr => exact hr
  | there _ _ ih => exact ih

theorem mem (h : FirstPair r a l u v) : u ∈ a :: l ∧ v ∈ l := by
  induction h with
  | here _ => exact ⟨mem_cons_self, mem_cons_self⟩
  | there _ _ ih => exact ⟨mem_cons_of_mem _ ih.1, mem_cons_of_mem _ ih.2⟩

theorem unique (h : FirstPair r a l u v) {u' v' : α} (h' : FirstPair r a l u' v') :
    u = u' ∧ v = v' := by
  induction h with
  | here hr =>
    cases h' with
    | here => exact ⟨rfl, rfl⟩
    | there hn => exact absurd hr hn
  | there hn _ ih =>
    cases h' with
    | here hr => exact absurd hr hn
    | there _ h' => exact ih h'

/-- There is no such pair in a chain of the negation. -/
theorem not_isChain (h : FirstPair r a l u v) : ¬ (a :: l).IsChain fun x y => ¬ r x y := by
  induction h with
  | here hr =>
    intro hchain
    exact (isChain_cons_cons.1 hchain).1 hr
  | there _ _ ih =>
    intro hchain
    exact ih (isChain_cons_cons.1 hchain).2

end FirstPair

/-- Either there is a pair, or the list is a chain of the negation. -/
theorem exists_firstPair_or_isChain (r : α → α → Prop) (a : α) (l : List α) :
    (∃ u v, FirstPair r a l u v) ∨ (a :: l).IsChain fun x y => ¬ r x y := by
  induction l generalizing a with
  | nil => exact .inr (.singleton a)
  | cons b l ih =>
    by_cases hr : r a b
    · exact .inl ⟨a, b, .here hr⟩
    · rcases ih b with ⟨u, v, h⟩ | hchain
      · exact .inl ⟨u, v, .there hr h⟩
      · exact .inr (.cons_cons hr hchain)

section Sorted

variable [LinearOrder α] {y : α}

/-- The pair is in order, unless it is that of the element before the list. -/
theorem FirstPair.eq_or_lt (h : FirstPair r a l u v) (hsorted : l.Pairwise (· < ·)) :
    u = a ∨ u < v := by
  induction h with
  | here _ => exact .inl rfl
  | there _ h ih =>
    obtain ⟨hhead, hrest⟩ := pairwise_cons.1 hsorted
    rcases ih hrest with rfl | hlt
    · exact .inr (hhead _ h.mem.2)
    · exact .inr hlt

/-- No element of the list is between the two. -/
theorem FirstPair.le_of_lt (h : FirstPair r a l u v) (hsorted : l.Pairwise (· < ·)) {x : α}
    (hx : x ∈ l) (hlt : x < v) : x ≤ u := by
  induction h with
  | here _ =>
    obtain ⟨hhead, -⟩ := pairwise_cons.1 hsorted
    rcases mem_cons.1 hx with rfl | hx
    · exact absurd hlt (lt_irrefl x)
    · exact absurd (hhead x hx) hlt.not_gt
  | there _ h ih =>
    obtain ⟨hhead, hrest⟩ := pairwise_cons.1 hsorted
    rcases mem_cons.1 hx with rfl | hx
    · rcases mem_cons.1 h.mem.1 with rfl | hmem
      · exact le_rfl
      · exact (hhead _ hmem).le
    · exact ih hrest hx hlt

/-- Up to the pair, neighbours are not related. -/
theorem FirstPair.around (h : FirstPair r a l u v) (hay : a < y) (hyu : y ≤ u) :
    ∃ w x, x ∈ l ∧ w < y ∧ y ≤ x ∧ ¬ r w x := by
  induction h with
  | here _ => exact absurd hay hyu.not_gt
  | @there a b u v l hn h ih =>
    by_cases hb : y ≤ b
    · exact ⟨a, b, mem_cons_self, hay, hb, hn⟩
    · obtain ⟨w, x, hx, hw, hyx, hnot⟩ := ih (not_le.1 hb) hyu
      exact ⟨w, x, mem_cons_of_mem _ hx, hw, hyx, hnot⟩

/-- In a chain, neighbours are not related. -/
theorem isChain_around (hchain : (a :: l).IsChain fun x y => ¬ r x y) (hay : a < y) {x : α}
    (hx : x ∈ l) (hyx : y ≤ x) : ∃ w x, x ∈ l ∧ w < y ∧ y ≤ x ∧ ¬ r w x := by
  induction l generalizing a with
  | nil => cases hx
  | cons b l ih =>
    obtain ⟨hn, hrest⟩ := isChain_cons_cons.1 hchain
    by_cases hb : y ≤ b
    · exact ⟨a, b, mem_cons_self, hay, hb, hn⟩
    · rcases mem_cons.1 hx with rfl | hx
      · exact absurd hyx hb
      · obtain ⟨w, x, hx, hw, hyx, hnot⟩ := ih hrest (not_le.1 hb) hx
        exact ⟨w, x, mem_cons_of_mem _ hx, hw, hyx, hnot⟩

/-- The last element of a sorted list is the greatest. -/
theorem le_getLastD (hsorted : (a :: l).Pairwise (· < ·)) {x : α} (hx : x ∈ a :: l) :
    x ≤ l.getLastD a := by
  induction l generalizing a x with
  | nil => exact (mem_singleton.1 hx).le
  | cons b l ih =>
    obtain ⟨hhead, hrest⟩ := pairwise_cons.1 hsorted
    rw [getLastD_cons]
    rcases mem_cons.1 hx with rfl | hx
    · exact (hhead b mem_cons_self).le.trans (ih hrest mem_cons_self)
    · exact ih hrest hx

end Sorted

end Neighbours

/-! ## Intervals -/

/-- A number in one of the intervals, which are given by their start and their length. -/
def Covered (L : List (Nat × Nat)) (p : Nat) : Prop := ∃ x ∈ L, x.1 ≤ p ∧ p < x.1 + x.2

/-- The end of the last interval, or a number given if that is greater. -/
def reach (least : Nat) (L : List (Nat × Nat)) : Nat := L.foldr (fun x m => max (x.1 + x.2) m) least

section Intervals

variable {L : List (Nat × Nat)} {least p q u v : Nat}

/-- What covers a number of a gap covers the gap from its beginning. -/
theorem Covered.first (h : Covered L p) (hgap : ∀ x ∈ L, x.1 < v → x.1 ≤ u) (hu : u < q)
    (hq : q ≤ p) (hv : p < v) : Covered L q := by
  obtain ⟨x, hx, hlo, hhi⟩ := h
  have := hgap x hx (by omega)
  exact ⟨x, hx, by omega, by omega⟩

theorem least_le_reach (least : Nat) (L : List (Nat × Nat)) : least ≤ reach least L := by
  induction L with
  | nil => exact le_rfl
  | cons x L ih => exact ih.trans (le_max_right _ _)

theorem le_reach (least : Nat) {x : Nat × Nat} (hx : x ∈ L) : x.1 + x.2 ≤ reach least L := by
  induction L with
  | nil => cases hx
  | cons y L ih =>
    rcases mem_cons.1 hx with rfl | hx
    · exact le_max_left _ _
    · exact (ih hx).trans (le_max_right _ _)

theorem reach_le (hleast : least ≤ p) (h : ∀ x ∈ L, x.1 + x.2 ≤ p) : reach least L ≤ p := by
  induction L with
  | nil => exact hleast
  | cons x L ih =>
    exact max_le (h x mem_cons_self) (ih fun y hy => h y (mem_cons_of_mem _ hy))

/-- Nothing is covered from the end on. -/
theorem not_covered_of_reach_le (h : reach least L ≤ p) : ¬ Covered L p := by
  rintro ⟨x, hx, -, hhi⟩
  exact absurd (le_reach least hx) (by omega)

end Intervals

end Lib.Gaps
