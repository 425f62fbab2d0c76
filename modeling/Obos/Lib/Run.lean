import Mathlib.Logic.Relation

/-!
# Runs of a labelled step relation

A system is given by a step relation `step s a s'` on states and actions. A run
whose every step meets a condition on the state before it and the action is a
path of `Meeting cond step`. `Reaches.invariant` is the induction all safety
results go through: what one such step preserves holds in every state reached.
`foldlM_invariant` is the rule for a loop inside one step, and
`foldlM_range_invariant` the one for a counting loop.
-/

namespace Lib

open List Option

variable {S A : Type*}

/-- A step whose action and starting state meet the condition. -/
def Meeting (cond : S → A → Prop) (step : S → A → S → Prop) (s s' : S) : Prop :=
  ∃ a, cond s a ∧ step s a s'

/-- A finite run from `s` to `s'` in which every step meets the condition. -/
def Reaches (cond : S → A → Prop) (step : S → A → S → Prop) : S → S → Prop :=
  Relation.ReflTransGen (Meeting cond step)

variable {cond : S → A → Prop} {step : S → A → S → Prop} {s s' : S}

/-- A property of the first state that every step meeting the condition preserves holds in
every state reached. -/
theorem Reaches.invariant (hrun : Reaches cond step s s') (inv : S → Prop) (hinit : inv s)
    (hstep : ∀ s a s', inv s → cond s a → step s a s' → inv s') : inv s' := by
  induction hrun with
  | refl => exact hinit
  | tail _ hlast ih =>
    obtain ⟨a, hcond, hs⟩ := hlast
    exact hstep _ a _ ih hcond hs

theorem Reaches.mono (hrun : Reaches cond step s s') {step' : S → A → S → Prop}
    (hstep : ∀ s a s', step s a s' → step' s a s') : Reaches cond step' s s' := by
  induction hrun with
  | refl => exact .refl
  | tail _ hlast ih =>
    obtain ⟨a, hcond, hs⟩ := hlast
    exact ih.tail ⟨a, hcond, hstep _ a _ hs⟩

/-- The run of a partial step function along a list of actions; an action that does not meet the
condition stops it. -/
def execute (cond : S → A → Prop) [∀ s a, Decidable (cond s a)] (next : S → A → Option S) :
    S → List A → Option S
  | s, [] => some s
  | s, a :: as => if cond s a then next s a >>= fun s' => execute cond next s' as else none

variable {body : S → A → Option S} {as : List A}

/-- An executed list of actions is a run of the step function's graph. -/
theorem Reaches.of_execute [∀ s a, Decidable (cond s a)] {next : S → A → Option S}
    (h : execute cond next s as = some s') :
    Reaches cond (fun s a s' => next s a = some s') s s' := by
  induction as generalizing s with
  | nil =>
    cases h
    exact .refl
  | cons a as ih =>
    simp only [execute] at h
    split at h
    · rename_i hcond
      simp only [bind, bind_eq_some_iff] at h
      obtain ⟨middle, hfirst, hrest⟩ := h
      exact .head ⟨a, hcond, hfirst⟩ (ih hrest)
    · cases h

/-- A loop whose body does not fail does not fail. -/
theorem foldlM_total (inv : S → Prop) (hstep : ∀ s a, inv s → ∃ s', body s a = some s' ∧ inv s')
    (as : List A) (hinit : inv s) : ∃ s', as.foldlM body s = some s' := by
  induction as generalizing s with
  | nil => exact ⟨s, rfl⟩
  | cons a as ih =>
    obtain ⟨s1, hbody, hinv⟩ := hstep s a hinit
    rw [foldlM_cons, hbody]
    exact ih hinv

/-- A call whose check is followed by the rest succeeds if the check passes and the rest does. -/
theorem ite_error_eq_ok {E R : Type} {p : Prop} [Decidable p] {e : E} {x : Option (Except E R)}
    {r : R} : (if p then some (.error e) else x) = some (.ok r) ↔ ¬ p ∧ x = some (.ok r) := by
  split <;> simp [*]

/-- The invariant rule for a loop over a list whose body may fail: what the body preserves, the
list of elements already visited included, holds after a loop that does not fail. -/
theorem foldlM_invariant (h : as.foldlM body s = some s') (inv : List A → S → Prop)
    (hinit : inv [] s)
    (hstep : ∀ done a rest s1 s2, as = done ++ a :: rest → inv done s1 → body s1 a = some s2 →
      inv (done ++ [a]) s2) : inv as s' := by
  -- the induction is on the elements still to be visited
  have hrest : ∀ rest done s1, as = done ++ rest → inv done s1 → rest.foldlM body s1 = some s' →
      inv as s' := by
    intro rest
    induction rest with
    | nil =>
      intro done s1 has hinv hrun
      cases hrun
      rwa [has, append_nil]
    | cons a rest ih =>
      intro done s1 has hinv hrun
      rw [foldlM_cons] at hrun
      simp only [bind, bind_eq_some_iff] at hrun
      obtain ⟨s2, hbody, hrun⟩ := hrun
      refine ih (done ++ [a]) s2 ?_ (hstep done a rest s1 s2 has hinv hbody) hrun
      rw [has, append_assoc, singleton_append]
  exact hrest as [] s rfl hinit h

/-- A fold whose steps all return, with what the part done so far gives. -/
theorem foldlM_returns (inv : List A → S → Prop) (hinit : inv [] s)
    (hstep : ∀ done a rest s1, as = done ++ a :: rest → inv done s1 →
      ∃ s2, body s1 a = some s2 ∧ inv (done ++ [a]) s2) :
    ∃ s', as.foldlM body s = some s' ∧ inv as s' := by
  have hrest : ∀ rest done s1, as = done ++ rest → inv done s1 →
      ∃ s', rest.foldlM body s1 = some s' ∧ inv as s' := by
    intro rest
    induction rest with
    | nil =>
      intro done s1 heq hinv
      rw [append_nil] at heq
      exact ⟨s1, rfl, heq ▸ hinv⟩
    | cons a rest ih =>
      intro done s1 heq hinv
      obtain ⟨s2, hbody, hnext⟩ := hstep done a rest s1 heq hinv
      obtain ⟨s', hfold, hlast⟩ := ih (done ++ [a]) s2 (by simpa using heq) hnext
      refine ⟨s', ?_, hlast⟩
      rw [foldlM_cons, hbody]
      exact hfold
  exact hrest as [] s rfl hinit

/-- The invariant rule for a counting loop whose body may fail. -/
theorem foldlM_range_invariant {body : S → Nat → Option S} {n : Nat}
    (h : (range n).foldlM body s = some s') (inv : Nat → S → Prop) (hinit : inv 0 s)
    (hstep : ∀ i < n, ∀ s1 s2, inv i s1 → body s1 i = some s2 → inv (i + 1) s2) : inv n s' := by
  have hall := foldlM_invariant h (fun done s => inv done.length s) hinit (by
    intro done i rest s1 s2 hsplit hinv hbody
    have hlen := congrArg length hsplit
    have hat := congrArg (fun l => l[done.length]?) hsplit
    rw [length_range, length_append, length_cons] at hlen
    simp only [getElem?_range (show done.length < n by omega),
      getElem?_append_right (Nat.le_refl _), Nat.sub_self, getElem?_cons_zero,
      some.injEq] at hat
    rw [length_append]
    exact hstep done.length (by omega) s1 s2 hinv (hat ▸ hbody))
  rwa [length_range] at hall

/-- A loop over the elements of several lists is a loop over the lists. -/
theorem foldlM_flatMap {B E : Type} {f : S → B → Except E S} {g : A → List B} :
    (as.flatMap g).foldlM f s = as.foldlM (fun s a => (g a).foldlM f s) s := by
  induction as generalizing s with
  | nil => rfl
  | cons a as ih =>
    rw [flatMap_cons, foldlM_append]
    congr 1
    funext s
    exact ih

/-- A loop depends on what its body does with the elements of the list only. -/
theorem foldlM_congr {E : Type} {f g : S → A → Except E S} (h : ∀ s, ∀ a ∈ as, f s a = g s a) :
    as.foldlM f s = as.foldlM g s := by
  induction as generalizing s with
  | nil => rfl
  | cons a as ih =>
    rw [foldlM_cons, h s a mem_cons_self]
    congr 1
    funext s
    exact ih fun s b hb => h s b (mem_cons_of_mem _ hb)

end Lib
