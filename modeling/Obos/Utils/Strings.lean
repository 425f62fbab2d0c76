import Obos.Lib.Memory
import Obos.Vfs.Path

/-!
# Strings in memory

`strlen` and `strcmp` read bytes of memory until they find the end of a string. The second flag of
`strCountToChar` is turned into the byte it stops at besides the one it looks for; `strlen` looks
for zero and passes no flag, so that it stops at a byte that is one, too. `comparison_right_iff`
says which strings are measured and compared as the bytes in front of their zero.
-/

namespace Obos.Utils

open Lib Vfs Option

/-! ## The functions -/

/-- The loop of `strCountToChar`, with the count in `rax`. -/
def strCountToCharFrom (m : Memory) (string : Nat) (ch stop : BitVec 8) : Nat → Nat → Option Nat
  | 0, _ => none
  | fuel + 1, rax =>
    let cl := m ((string + rax) % 2 ^ 64)
    if cl = stop ∨ cl = ch then some rax
    else strCountToCharFrom m string ch stop fuel (rax + 1)

/-- `utils::strCountToChar`. After that many bytes all of memory has been read. -/
def strCountToChar (m : Memory) (string : Nat) (ch : BitVec 8) (stopAtZero : Bool) : Option Nat :=
  strCountToCharFrom m string ch (if stopAtZero then 0 else 1) (2 ^ 64) 0

/-- `utils::strlen`. -/
def strlen (m : Memory) (string : Nat) : Option Nat := strCountToChar m string 0 false

/-- The loop of `strcmp`. -/
def strcmpFrom (m : Memory) (str1 str2 : Nat) : Nat → Nat → Option Bool
  | 0, _ => none
  | fuel + 1, i =>
    let c := m ((str1 + i) % 2 ^ 64)
    if c = 0 then some true
    else if c ≠ m ((str2 + i) % 2 ^ 64) then some false
    else strcmpFrom m str1 str2 fuel (i + 1)

/-- `utils::strcmp`. -/
def strcmp (m : Memory) (str1 str2 : Nat) : Option Bool := do
  if (← strlen m str1) ≠ (← strlen m str2) then return false
  strcmpFrom m str1 str2 (2 ^ 64) 0

/-! ## Strings -/

/-- The bytes in front of the first zero from an address on. -/
def HoldsString (m : Memory) (p : Nat) : CString → Prop
  | [] => m (p % 2 ^ 64) = 0
  | b :: s => m (p % 2 ^ 64) = b ∧ b ≠ 0 ∧ HoldsString m (p + 1) s

instance (m : Memory) : (p : Nat) → (s : CString) → Decidable (HoldsString m p s)
  | p, [] => inferInstanceAs (Decidable (m (p % 2 ^ 64) = 0))
  | p, _ :: s =>
    have := instDecidableHoldsString m (p + 1) s
    inferInstanceAs (Decidable (_ ∧ _ ∧ _))

/-- Strings in memory are measured to their zero and compared by their bytes. -/
structure ComparisonRight (m : Memory) (strings : List (Nat × CString)) : Prop where
  strlen : ∀ a ∈ strings, strlen m a.1 = some a.2.length
  strcmp : ∀ a ∈ strings, ∀ b ∈ strings, strcmp m a.1 b.1 = some (decide (a.2 = b.2))
  symm : ∀ a ∈ strings, ∀ b ∈ strings, Utils.strcmp m a.1 b.1 = Utils.strcmp m b.1 a.1
  trans : ∀ a ∈ strings, ∀ b ∈ strings, ∀ c ∈ strings, Utils.strcmp m a.1 b.1 = some true →
    Utils.strcmp m b.1 c.1 = some true → Utils.strcmp m a.1 c.1 = some true

section Strings

variable {m : Memory} {p q : Nat} {s t : CString}

/-- The bytes of a string. -/
theorem HoldsString.byte (h : HoldsString m p s) {i : Nat} (hi : i < s.length) :
    m ((p + i) % 2 ^ 64) ≠ 0 := by
  induction s generalizing p i with
  | nil => exact absurd hi (Nat.not_lt_zero i)
  | cons b s ih =>
    obtain ⟨hb, hne, hrest⟩ := h
    cases i with
    | zero => exact hb ▸ hne
    | succ i =>
      have hnext := ih hrest (Nat.lt_of_succ_lt_succ hi)
      rwa [Nat.add_assoc, Nat.add_comm 1] at hnext

theorem HoldsString.terminated (h : HoldsString m p s) : m ((p + s.length) % 2 ^ 64) = 0 := by
  induction s generalizing p with
  | nil => exact h
  | cons b s ih =>
    have hnext := ih h.2.2
    rwa [Nat.add_assoc, Nat.add_comm 1] at hnext

theorem HoldsString.length_lt (h : HoldsString m p s) : s.length < 2 ^ 64 := by
  by_contra hlong
  have hbyte := h.byte (i := s.length - 2 ^ 64) (by omega)
  rw [show (p + (s.length - 2 ^ 64)) % 2 ^ 64 = (p + s.length) % 2 ^ 64 by omega] at hbyte
  exact hbyte h.terminated

/-- The loop counts the bytes in front of a character, if it stops at that one and at zero. -/
theorem strCountToCharFrom_eq {string rax fuel : Nat} {ch stop c : BitVec 8}
    (h : HoldsString m (string + rax) s) (hzero : 0 = stop ∨ 0 = ch)
    (hends : ∀ b ≠ 0, (b = stop ∨ b = ch) ↔ b = c) (hfuel : s.length < fuel) :
    strCountToCharFrom m string ch stop fuel rax = some (rax + Vfs.strCountToChar s c) := by
  induction s generalizing rax fuel with
  | nil =>
    obtain ⟨fuel, rfl⟩ := Nat.exists_eq_succ_of_ne_zero (show fuel ≠ 0 by omega)
    have hbyte : m ((string + rax) % 2 ^ 64) = 0 := h
    simp only [strCountToCharFrom, hbyte, hzero, if_true]
    rfl
  | cons b s ih =>
    obtain ⟨fuel, rfl⟩ := Nat.exists_eq_succ_of_ne_zero (show fuel ≠ 0 by omega)
    obtain ⟨hb, hne, hrest⟩ := h
    simp only [strCountToCharFrom, hb, hends b hne, Vfs.strCountToChar]
    by_cases hc : b = c
    · rw [if_pos hc, List.takeWhile_cons_of_neg (by simpa using hc)]
      rfl
    · rw [if_neg hc, List.takeWhile_cons_of_pos (by simpa using hc),
        ih hrest (Nat.lt_of_succ_lt_succ hfuel), Nat.add_assoc, Nat.add_comm 1]
      rfl

/-- `strlen` counts the bytes in front of one that is one. -/
theorem strlen_eq (h : HoldsString m p s) : strlen m p = some (Vfs.strlen s) := by
  have hends : ∀ b ≠ (0 : BitVec 8), (b = 1 ∨ b = 0) ↔ b = 1 :=
    fun b hb => or_iff_left hb
  rw [strlen, strCountToChar, if_neg Bool.false_ne_true,
    strCountToCharFrom_eq h (.inr rfl) hends h.length_lt, Nat.zero_add]
  rfl

/-- The loop of `strcmp` compares as far as the first string goes. -/
theorem strcmpFrom_eq {str1 str2 i fuel : Nat} (hs : HoldsString m (str1 + i) s)
    (ht : HoldsString m (str2 + i) t) (hfuel : s.length < fuel) :
    strcmpFrom m str1 str2 fuel i = some (s.isPrefixOf t) := by
  induction s generalizing i t fuel with
  | nil =>
    obtain ⟨fuel, rfl⟩ := Nat.exists_eq_succ_of_ne_zero (show fuel ≠ 0 by omega)
    have hbyte : m ((str1 + i) % 2 ^ 64) = 0 := hs
    simp only [strcmpFrom, hbyte, if_true, List.isPrefixOf]
  | cons b s ih =>
    obtain ⟨fuel, rfl⟩ := Nat.exists_eq_succ_of_ne_zero (show fuel ≠ 0 by omega)
    obtain ⟨hb, hne, hs⟩ := hs
    cases t with
    | nil =>
      -- the second string ends first: its zero is another byte
      have hbyte : m ((str2 + i) % 2 ^ 64) = 0 := ht
      simp only [strcmpFrom, hb, hbyte, hne, if_false, ne_eq, not_false_eq_true, if_true,
        List.isPrefixOf]
    | cons c t =>
      obtain ⟨hc, -, ht⟩ := ht
      simp only [strcmpFrom, hb, hc, hne, if_false, List.isPrefixOf]
      by_cases hbc : b = c
      · simp only [hbc, ne_eq, not_true_eq_false, if_false, beq_self_eq_true, Bool.true_and]
        exact ih hs ht (Nat.lt_of_succ_lt_succ hfuel)
      · simp only [hbc, ne_eq, not_false_eq_true, if_true, beq_eq_false_iff_ne.2 hbc,
          Bool.false_and]

/-- `strcmp` compares two strings as `Vfs.strcmp` says. -/
theorem strcmp_eq (hs : HoldsString m p s) (ht : HoldsString m q t) :
    strcmp m p q = some (Vfs.strcmp s t) := by
  have hloop := strcmpFrom_eq (i := 0) hs ht hs.length_lt
  simp only [strcmp, strlen_eq hs, strlen_eq ht, bind_eq_bind, bind_some, hloop,
    Vfs.strcmp]
  by_cases hlength : Vfs.strlen s = Vfs.strlen t
  · simp [hlength]
  · simp [hlength]

end Strings

theorem not_mem_of_strlen_eq_length {s : CString} (h : Vfs.strlen s = s.length) : 1 ∉ s := by
  intro hmem
  have hself := (List.takeWhile_prefix _).eq_of_length h
  have hne := List.takeWhile_eq_self_iff.1 hself 1 hmem
  simp at hne

/-- Strings are measured and compared right exactly if they have no byte that is one. -/
theorem comparison_right_iff {m : Memory} {strings : List (Nat × CString)}
    (h : ∀ a ∈ strings, HoldsString m a.1 a.2) :
    ComparisonRight m strings ↔ ∀ a ∈ strings, 1 ∉ a.2 := by
  constructor
  · intro hright a ha
    have hlength := hright.strlen a ha
    rw [strlen_eq (h a ha)] at hlength
    exact not_mem_of_strlen_eq_length (some.inj hlength)
  · intro hone
    have hcompare (a) (ha : a ∈ strings) (b) (hb : b ∈ strings) :
        strcmp m a.1 b.1 = some (decide (a.2 = b.2)) := by
      rw [strcmp_eq (h a ha) (h b hb), Vfs.strcmp_eq a.2 (hone b hb)]
    refine ⟨fun a ha => ?_, hcompare, fun a ha b hb => ?_, fun a ha b hb c hc hab hbc => ?_⟩
    · rw [strlen_eq (h a ha), strlen_eq_length (hone a ha)]
    · rw [hcompare a ha b hb, hcompare b hb a ha, some.injEq, decide_eq_decide]
      exact eq_comm
    · rw [hcompare a ha b hb, some.injEq, decide_eq_true_eq] at hab
      rw [hcompare a ha c hc, hab, ← hcompare b hb c hc, hbc]

/-- Memory with two strings, of which the second one has a byte that is one at its end. -/
def twoStrings : Memory := fun x =>
  if x = 0x1000 ∨ x = 0x2000 then 0x61 else if x = 0x2001 then 1 else 0

theorem comparison_right_iff_pair : ComparisonRight twoStrings [(0x1000, [0x61]), (0x3000, [])] :=
  (comparison_right_iff (by decide)).2 (by decide)

theorem twoStrings_not_right :
    strlen twoStrings 0x2000 = some 1 ∧ strcmp twoStrings 0x1000 0x2000 = some true ∧
      strcmp twoStrings 0x2000 0x1000 = some false ∧
      (∀ a ∈ [(0x1000, [0x61]), (0x2000, [0x61, 1])], HoldsString twoStrings a.1 a.2) ∧
      ¬ ComparisonRight twoStrings [(0x1000, [0x61]), (0x2000, [0x61, 1])] := by
  have hfirst : HoldsString twoStrings 0x1000 [0x61] := by decide
  have hsecond : HoldsString twoStrings 0x2000 [0x61, 1] := by decide
  have hlength := strlen_eq hsecond
  refine ⟨hlength, strcmp_eq hfirst hsecond, strcmp_eq hsecond hfirst, by decide, fun hright => ?_⟩
  have hright := hright.strlen (0x2000, [0x61, 1]) (by decide)
  exact absurd hright (by decide)

end Obos.Utils
