import Mathlib.Data.List.Basic

/-!
# Computations that stay in their domain

A computation in `ExceptT ε Option` returns, throws, or is undefined: it has left the domain
on which its model speaks. `Defined` says that it has not. The rules take the question apart
along the program: a sequence is defined if its first part is and its second part is for
everything the first one returns, and a loop is defined if every pass that is reached is.
-/

namespace Lib

open List Option

variable {ε α β σ : Type}

/-- The computation returns or throws. -/
def Defined (x : ExceptT ε Option α) : Prop := x.run ≠ none

/-- The computation returns a value. -/
def Returns (x : ExceptT ε Option α) (a : α) : Prop := x.run = some (.ok a)

@[simp] theorem defined_pure (a : α) : Defined (pure a : ExceptT ε Option α) := by
  simp [Defined, pure, ExceptT.pure, ExceptT.run, ExceptT.mk]

@[simp] theorem defined_throw (e : ε) : Defined (throw e : ExceptT ε Option α) := by
  simp [Defined, throw, throwThe, MonadExceptOf.throw, ExceptT.run, ExceptT.mk]

variable {step : σ → α → ExceptT ε Option σ} {as : List α} {a : α} (p : α → Prop) {s : σ}

@[simp] theorem returns_pure {b : α} : Returns (pure a : ExceptT ε Option α) b ↔ b = a := by
  simp [Returns, pure, ExceptT.pure, ExceptT.run, ExceptT.mk, eq_comm]

@[simp] theorem returns_throw {e : ε} : ¬ Returns (throw e : ExceptT ε Option α) a := by
  simp [Returns, throw, throwThe, MonadExceptOf.throw, ExceptT.run, ExceptT.mk]

variable {x : ExceptT ε Option α} {f : α → ExceptT ε Option β}

/-- A computation that returns is defined. -/
theorem Returns.defined (h : Returns x a) : Defined x := by
  rw [Defined, h]
  exact some_ne_none _

/-- Whether a computation returns. -/
def isOk (x : ExceptT ε Option α) : Bool :=
  match x.run with
  | some (.ok _) => true
  | _ => false

theorem exists_returns_of_isOk (h : isOk x = true) : ∃ a, Returns x a := by
  unfold isOk at h
  split at h
  · next a ha => exact ⟨a, ha⟩
  · cases h

theorem Returns.isOk (h : Returns x a) : isOk x = true := by
  rw [Lib.isOk, h]

/-- A computation returns one value. -/
theorem Returns.unique {b : α} (h : Returns x a) (h' : Returns x b) : a = b := by
  rw [Returns, h] at h'
  exact Except.ok.inj (some.inj h')

@[simp] theorem defined_bind :
    Defined (x >>= f) ↔ Defined x ∧ ∀ a, Returns x a → Defined (f a) := by
  unfold Defined Returns
  rw [show (x >>= f).run = x.run.bind fun
    | .ok a => (f a).run
    | .error e => some (.error e) from rfl]
  cases h : x.run with
  | none => simp
  | some r => cases r <;> simp

@[simp] theorem returns_bind {b : β} :
    Returns (x >>= f) b ↔ ∃ a, Returns x a ∧ Returns (f a) b := by
  unfold Returns
  rw [show (x >>= f).run = x.run.bind fun
    | .ok a => (f a).run
    | .error e => some (.error e) from rfl]
  cases h : x.run with
  | none => simp
  | some r => cases r <;> simp

/-- A value, where a condition holds; undefined elsewhere. -/
def within (p : Prop) [Decidable p] (a : α) : ExceptT ε Option α :=
  ExceptT.lift (if p then some a else none)

section Within

variable {p : Prop} [Decidable p] {a : α}

theorem within_of (h : p) : (within p a : ExceptT ε Option α) = pure a := by
  rw [within, if_pos h]
  rfl

theorem map_within (g : α → β) : g <$> (within p a : ExceptT ε Option α) = within p (g a) := by
  by_cases hp : p <;> simp only [within, hp, if_true, if_false] <;> rfl

/-- A computation that returns the value where it is defined, and is defined where the condition
holds. -/
theorem eq_within (hdefined : Defined x → p) (hreturns : p → Returns x a) : x = within p a := by
  by_cases hp : p
  · rw [within_of hp]
    exact hreturns hp
  · rw [within, if_neg hp]
    exact not_not.1 (mt hdefined hp)

theorem within_congr {q : Prop} [Decidable q] (h : p ↔ q) :
    (within p a : ExceptT ε Option α) = within q a := by
  simp only [within, h]

@[simp] theorem defined_within : Defined (within p a : ExceptT ε Option α) ↔ p := by
  by_cases hp : p <;> simp [Defined, within, ExceptT.lift, ExceptT.run, ExceptT.mk, hp]

@[simp] theorem returns_within {b : α} :
    Returns (within p a : ExceptT ε Option α) b ↔ p ∧ b = a := by
  by_cases hp : p <;>
    simp [Returns, within, ExceptT.lift, ExceptT.run, ExceptT.mk, hp, eq_comm]

@[simp high] theorem defined_within_bind : Defined (within p a >>= f) ↔ p ∧ Defined (f a) := by
  rw [defined_bind, defined_within]
  exact and_congr_right fun hp => by simp [hp]

@[simp high] theorem returns_within_bind {b : β} :
    Returns (within p a >>= f) b ↔ p ∧ Returns (f a) b := by
  simp [and_assoc]

end Within

@[simp] theorem defined_map {g : α → β} : Defined (g <$> x) ↔ Defined x := by
  rw [map_eq_pure_bind, defined_bind]
  simp

@[simp] theorem returns_map {g : α → β} {b : β} :
    Returns (g <$> x) b ↔ ∃ a, Returns x a ∧ b = g a := by
  rw [map_eq_pure_bind, returns_bind]
  simp

@[simp] theorem defined_ite {p : Prop} [Decidable p] {y : ExceptT ε Option α} :
    Defined (if p then x else y) ↔ (p → Defined x) ∧ (¬ p → Defined y) := by
  by_cases hp : p <;> simp [hp]

@[simp] theorem returns_ite {p : Prop} [Decidable p] {y : ExceptT ε Option α} :
    Returns (if p then x else y) a ↔ (p ∧ Returns x a) ∨ (¬ p ∧ Returns y a) := by
  by_cases hp : p <;> simp [hp]

/-! ## Loops -/

/-- A fold is defined if every pass it reaches is. -/
theorem defined_foldlM :
    Defined (as.foldlM step s) ↔
      ∀ pre a post, as = pre ++ a :: post → ∀ s', Returns (pre.foldlM step s) s' →
        Defined (step s' a) := by
  induction as generalizing s with
  | nil => simp
  | cons a as ih =>
    rw [foldlM_cons, defined_bind]
    constructor
    · rintro ⟨hstep, hrest⟩ pre b post heq s' hpre
      cases pre with
      | nil =>
        obtain ⟨rfl, rfl⟩ := cons.inj heq
        rw [foldlM_nil, returns_pure] at hpre
        exact hpre ▸ hstep
      | cons c pre =>
        obtain ⟨rfl, rfl⟩ := cons.inj heq
        rw [foldlM_cons, returns_bind] at hpre
        obtain ⟨s1, hs1, hpre⟩ := hpre
        exact ih.1 (hrest s1 hs1) pre b post rfl s' hpre
    · intro h
      refine ⟨h [] a as rfl s (by simp), fun s1 hs1 => ih.2 ?_⟩
      intro pre b post heq s' hpre
      refine h (a :: pre) b post (by rw [heq]; rfl) s' ?_
      rw [foldlM_cons, returns_bind]
      exact ⟨s1, hs1, hpre⟩

/-- Every pass of a fold that returns has returned. -/
theorem Returns.of_mem {s' : σ} (h : Returns (as.foldlM step s) s') (ha : a ∈ as) :
    ∃ s1 s2, Returns (step s1 a) s2 := by
  induction as generalizing s with
  | nil => cases ha
  | cons b as ih =>
    rw [foldlM_cons, returns_bind] at h
    obtain ⟨s1, hs1, h⟩ := h
    rcases mem_cons.1 ha with rfl | ha
    · exact ⟨s, s1, hs1⟩
    · exact ih h ha

/-- A fold that is defined returns, if its passes do not throw. -/
theorem Defined.exists_returns_foldlM
    (hstep : ∀ s a, Defined (step s a) → ∃ s', Returns (step s a) s')
    (h : Defined (as.foldlM step s)) : ∃ s', Returns (as.foldlM step s) s' := by
  induction as generalizing s with
  | nil => exact ⟨s, returns_pure.2 rfl⟩
  | cons a as ih =>
    rw [foldlM_cons, defined_bind] at h
    obtain ⟨s1, hs1⟩ := hstep s a h.1
    obtain ⟨s', hs'⟩ := ih (h.2 s1 hs1)
    exact ⟨s', returns_bind.2 ⟨s1, hs1, hs'⟩⟩

/-- What every pass of a fold keeps, the fold keeps. -/
theorem Returns.foldlM_invariant {s' : σ} (h : Returns (as.foldlM step s) s') (inv : σ → Prop)
    (hinit : inv s) (hstep : ∀ s a s', inv s → Returns (step s a) s' → inv s') : inv s' := by
  induction as generalizing s with
  | nil =>
    rw [foldlM_nil, returns_pure] at h
    exact h ▸ hinit
  | cons a as ih =>
    rw [foldlM_cons, returns_bind] at h
    obtain ⟨s1, hs1, h⟩ := h
    exact ih h (hstep s a s1 hinit hs1)

/-- Folds with the same passes are the same. -/
theorem foldlM_congr_mem {step' : σ → α → ExceptT ε Option σ}
    (h : ∀ a ∈ as, ∀ s, step s a = step' s a) (s : σ) : as.foldlM step s = as.foldlM step' s := by
  induction as generalizing s with
  | nil => rfl
  | cons a as ih =>
    obtain ⟨ha, has⟩ := forall_mem_cons.1 h
    rw [foldlM_cons, ha s]
    exact bind_congr fun s1 => ih has s1

/-- A fold whose passes are defined under conditions on their elements. -/
theorem foldlM_within [∀ a, Decidable (p a)] (g : σ → α → σ) (as : List α) (s : σ) :
    as.foldlM (fun s a => (within (p a) (g s a) : ExceptT ε Option σ)) s =
      within (∀ a ∈ as, p a) (as.foldl g s) := by
  induction as generalizing s with
  | nil => exact (within_of (by simp)).symm
  | cons a as ih =>
    rw [foldlM_cons]
    by_cases ha : p a
    · rw [within_of ha, pure_bind, ih]
      simp only [within, forall_mem_cons, ha, true_and, foldl_cons]
    · simp only [within, ha, forall_mem_cons, false_and, if_false]
      rfl

/-- A map whose elements are defined under conditions. -/
theorem mapM_within [∀ a, Decidable (p a)] (g : α → β) (as : List α) :
    as.mapM (fun a => (within (p a) (g a) : ExceptT ε Option β)) =
      within (∀ a ∈ as, p a) (as.map g) := by
  induction as with
  | nil => exact (within_of (by simp)).symm
  | cons a as ih =>
    rw [mapM_cons, ih]
    by_cases ha : p a
    · rw [within_of ha, pure_bind, bind_pure_comp, map_within]
      exact within_congr (by simp [ha])
    · simp only [within, ha, forall_mem_cons, false_and, if_false]
      rfl

/-- The elements a search looks at: those up to the first one that passes the test. -/
def searched (q : α → Bool) : List α → List α
  | [] => []
  | a :: as => a :: if q a then [] else searched q as

/-- A search whose tests are defined under conditions. -/
theorem findM?_within [∀ a, Decidable (p a)] (q : α → Bool) (as : List α) :
    as.findM? (fun a => (within (p a) (q a) : ExceptT ε Option Bool)) =
      within (∀ a ∈ searched q as, p a) (as.find? q) := by
  induction as with
  | nil => exact (within_of (by simp [searched])).symm
  | cons a as ih =>
    rw [findM?, ih]
    by_cases ha : p a
    · rw [within_of ha, pure_bind]
      cases hq : q a with
      | true =>
        have hall : ∀ b ∈ searched q (a :: as), p b := by simp [searched, hq, ha]
        rw [within_of hall, find?_cons_of_pos hq]
      | false =>
        rw [find?_cons_of_neg (by simp [hq])]
        exact within_congr (by simp [searched, hq, ha])
    · simp only [within, ha, searched, forall_mem_cons, false_and, if_false]
      rfl

end Lib
