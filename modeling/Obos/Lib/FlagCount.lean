import Obos.Lib.Run
import Mathlib.Logic.Function.Basic

/-!
# Exclusion by counting flags

A process that wants to go inside raises its flag and adds up the flags of all processes,
one after the other, while the others go on. It goes inside if the sum is one; it may stop
counting or lower its flag at any time. `exclusion` says that at most one process is inside.

A process that has met no flag but its own is ahead of those it has passed. Of two processes
at most one is ahead of the other, since each raises its flag before it reads.
-/

namespace Lib.FlagCount

open Function

/-- Where a process is; while it counts, the flags it has read and their sum. -/
inductive Place where
  | idle
  | raised
  | counting (i sum : Nat)
  | inside
  deriving DecidableEq

/-- The flag is up. -/
def Place.flag : Place → Bool
  | .idle => false
  | _ => true

variable {n : Nat}

/-- Where a process may go. -/
inductive Move (s : Fin n → Place) (c : Fin n) : Place → Prop where
  | stay : Move s c (s c)
  | raise (h : s c = .idle) : Move s c .raised
  | start (h : s c = .raised) : Move s c (.counting 0 0)
  | read (i : Fin n) (sum : Nat) (h : s c = .counting i sum) :
      Move s c (.counting (i + 1) (sum + if (s i).flag then 1 else 0))
  | enter (i : Nat) (hi : n ≤ i) (h : s c = .counting i 1) : Move s c .inside
  | stop (i sum : Nat) (h : s c = .counting i sum) : Move s c .raised
  | lower : Move s c .idle

/-- One process goes somewhere. -/
def Step (s : Fin n → Place) (c : Fin n) (s' : Fin n → Place) : Prop :=
  ∃ p, Move s c p ∧ s' = Function.update s c p

/-- All processes are idle. -/
def start : Fin n → Place := fun _ => .idle

/-- A process that has read the flag of `d` and found no flag but its own. -/
def Ahead (c d : Fin n) : Place → Prop
  | .inside => True
  | .counting i sum => d.val < i ∧ sum = if c.val < i then 1 else 0
  | _ => False

/-- What holds in every state: a process that counts has counted itself, and no two are ahead of
each other. -/
structure Inv (s : Fin n → Place) : Prop where
  own : ∀ c i sum, s c = .counting i sum → c.val < i → 1 ≤ sum
  apart : ∀ c d, c ≠ d → Ahead c d (s c) → ¬ Ahead d c (s d)

section Steps

variable {s s' : Fin n → Place} {c d : Fin n} {p : Place}

theorem Ahead.flag (h : Ahead c d p) : p.flag = true := by
  cases p with
  | idle => exact h.elim
  | _ => rfl

/-- A process that moves still counts itself. -/
theorem Move.own (hs : Inv s) (h : Move s c p) {i sum : Nat} (hp : p = .counting i sum)
    (hlt : c.val < i) : 1 ≤ sum := by
  cases h with
  | stay => exact hs.own c i sum hp hlt
  | start h =>
    cases hp
    exact absurd hlt (Nat.not_lt_zero _)
  | read j sum' h =>
    cases hp
    by_cases hj : c = j
    · subst hj
      rw [h]
      exact Nat.le_add_left _ _
    · have := hs.own c j sum' h (by omega)
      omega
  | _ => cases hp

/-- A process that comes to be ahead of another one has just found its flag down. -/
theorem Move.ahead (hs : Inv s) (h : Move s c p) (hne : d ≠ c) (hp : Ahead c d p) :
    Ahead c d (s c) ∨ (s d).flag = false := by
  cases h with
  | stay => exact .inl hp
  | raise | stop | lower => exact hp.elim
  | start => exact absurd hp.1 (Nat.not_lt_zero _)
  | enter i hi h =>
    rw [h]
    exact .inl ⟨by omega, by rw [if_pos (by omega)]⟩
  | read i sum h =>
    obtain ⟨hlt, hsum⟩ := hp
    have hown := hs.own c i sum h
    by_cases hci : c = i
    · -- its own flag is the one it reads
      subst hci
      rw [h] at hsum ⊢
      simp only [Place.flag, if_true, Nat.lt_add_one] at hsum
      exact .inl ⟨by omega, by rw [if_neg (Nat.lt_irrefl _)]; omega⟩
    · -- with another flag up the sum would be two or its own flag not counted
      have hdown : (s i).flag = false := by
        by_contra hup
        rw [Bool.not_eq_false] at hup
        rw [hup, if_pos rfl] at hsum
        split at hsum
        · omega
        · omega
      by_cases hdi : d = i
      · exact .inr (hdi ▸ hdown)
      · rw [h]
        refine .inl ⟨by omega, ?_⟩
        rw [hdown] at hsum
        simp only [Bool.false_eq_true, if_false, Nat.add_zero] at hsum
        rw [hsum]
        split <;> split <;> omega

/-- One step keeps the invariant. -/
theorem Inv.step (hs : Inv s) (hstep : Step s c s') : Inv s' := by
  obtain ⟨p, hmove, rfl⟩ := hstep
  -- the flag of a process that is ahead is up, so it has not been found down
  have hbehind {d : Fin n} (hd : d ≠ c) (hc : Ahead c d p) : ¬ Ahead d c (s d) := by
    intro hdc
    rcases hmove.ahead hs hd hc with hold | hdown
    · exact hs.apart c d hd.symm hold hdc
    · rw [hdc.flag] at hdown
      cases hdown
  refine ⟨fun d i sum hd hlt => ?_, fun d e hde => ?_⟩
  · by_cases hdc : d = c
    · subst hdc
      rw [update_self] at hd
      exact hmove.own hs hd hlt
    · rw [update_of_ne hdc] at hd
      exact hs.own d i sum hd hlt
  · by_cases hd : d = c
    · subst hd
      rw [update_self, update_of_ne hde.symm]
      exact hbehind hde.symm
    · by_cases he : e = c
      · subst he
        rw [update_self, update_of_ne hd]
        exact fun h h' => hbehind hd h' h
      · rw [update_of_ne hd, update_of_ne he]
        exact hs.apart d e hde

end Steps

/-- Nobody is ahead of anyone at the start. -/
theorem inv_start : Inv (start : Fin n → Place) :=
  ⟨nofun, fun _ _ _ h => h.elim⟩

theorem Inv.exclusive {s : Fin n → Place} (h : Inv s) {c d : Fin n} (hc : s c = .inside)
    (hd : s d = .inside) : c = d := by
  by_contra hne
  refine h.apart c d hne ?_ ?_
  · rw [hc]
    trivial
  · rw [hd]
    trivial

end Lib.FlagCount
