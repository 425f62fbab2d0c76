import Mathlib.Tactic

/-!
# Single bits of 64-bit words

`hasBit w i` tests bit `i` of a word. The lemmas push it through the bitwise
operators, so that the value of a word that was put together from flags and
masks can be read off bit by bit, and two words with the same bits are equal.
-/

namespace Lib

/-- Bit `i` of a word. -/
def hasBit (w : BitVec 64) (i : Nat) : Bool := w.getLsbD i

/-- The word with bit `i` alone. -/
def bit (i : Nat) : BitVec 64 := BitVec.twoPow 64 i

/-- The word with the `n` lowest bits. -/
def lowBits (n : Nat) : BitVec 64 := BitVec.ofNat 64 (2 ^ n - 1)

/-- The word where the condition holds, and zero otherwise. -/
def onlyIf (condition : Bool) (w : BitVec 64) : BitVec 64 := if condition then w else 0#64

variable {v w : BitVec 64} {i n : Nat}

@[simp] theorem hasBit_zero : hasBit 0#64 i = false := by simp [hasBit]

@[simp] theorem hasBit_and : hasBit (v &&& w) i = (hasBit v i && hasBit w i) := by simp [hasBit]

@[simp] theorem hasBit_or : hasBit (v ||| w) i = (hasBit v i || hasBit w i) := by simp [hasBit]

@[simp] theorem hasBit_not : hasBit (~~~w) i = (decide (i < 64) && !hasBit w i) := by
  simp [hasBit]

@[simp] theorem hasBit_bit {j : Nat} : hasBit (bit j) i = (decide (j < 64) && decide (j = i)) := by
  simp [hasBit, bit]

@[simp] theorem hasBit_lowBits : hasBit (lowBits n) i = (decide (i < 64) && decide (i < n)) := by
  simp [hasBit, lowBits, BitVec.getLsbD_ofNat, Nat.testBit_two_pow_sub_one]

@[simp] theorem hasBit_onlyIf {b : Bool} : hasBit (onlyIf b w) i = (b && hasBit w i) := by
  cases b <;> simp [onlyIf]

@[simp] theorem hasBit_shiftRight : hasBit (w >>> n) i = hasBit w (n + i) := by simp [hasBit]

@[simp] theorem hasBit_shiftLeft :
    hasBit (w <<< n) i = (decide (i < 64) && !decide (i < n) && hasBit w (i - n)) := by
  simp [hasBit]

/-- Words with the same bits are equal. -/
theorem eq_of_hasBit_eq (h : ∀ i < 64, hasBit v i = hasBit w i) : v = w :=
  BitVec.eq_of_getLsbD_eq fun i hi => h i hi

/-- A word contains all bits of another one. -/
theorem and_eq_right_iff : v &&& w = w ↔ ∀ i < 64, hasBit w i = true → hasBit v i = true := by
  constructor
  · intro h i _ hw
    rw [← h, hasBit_and, Bool.and_eq_true] at hw
    exact hw.1
  · intro h
    refine eq_of_hasBit_eq fun i hi => ?_
    rw [hasBit_and]
    cases hw : hasBit w i with
    | false => simp
    | true => simp [h i hi hw]

end Lib
