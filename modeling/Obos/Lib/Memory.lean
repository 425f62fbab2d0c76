import Mathlib.Tactic

/-!
# Byte-addressed memory

A memory is a total map from addresses to bytes. Words are read and written in
little-endian order, `fill` is the store loop of `memset`, and `copy` is the
forward byte copy of `rep movsb`. The lemmas come in two kinds: what a write
puts at the bytes it covers, and that it leaves every other byte alone. A
`load` only looks at its own bytes (`load64_congr`), so everything a program
leaves untouched can be read back after it.
-/

namespace Lib

/-- A memory: one byte at every address. -/
abbrev Memory := Nat → BitVec 8

namespace Memory

/-- The little-endian 64-bit word at an address. -/
def load64 (m : Memory) (a : Nat) : BitVec 64 :=
  BitVec.ofNat 64 ((m a).toNat + (m (a + 1)).toNat * 2 ^ 8 + (m (a + 2)).toNat * 2 ^ 16 +
    (m (a + 3)).toNat * 2 ^ 24 + (m (a + 4)).toNat * 2 ^ 32 + (m (a + 5)).toNat * 2 ^ 40 +
    (m (a + 6)).toNat * 2 ^ 48 + (m (a + 7)).toNat * 2 ^ 56)

/-- Write a 64-bit word at an address, low byte first. -/
def store64 (m : Memory) (a : Nat) (v : BitVec 64) : Memory := fun x =>
  if a ≤ x ∧ x < a + 8 then BitVec.ofNat 8 (v.toNat / 2 ^ (8 * (x - a))) else m x

/-- Set `n` bytes from `a` on to `b`. -/
def fill (m : Memory) (a n : Nat) (b : BitVec 8) : Memory := fun x =>
  if a ≤ x ∧ x < a + n then b else m x

/-- Copy `n` bytes forward, one after the other, from `src` to `dst`. -/
def copy (m : Memory) (dst src : Nat) : Nat → Memory
  | 0 => m
  | n + 1 => copy (fun x => if x = dst then m src else m x) (dst + 1) (src + 1) n

/-- The word at an address, as the number a pointer or a counter holds. -/
def loadNat (m : Memory) (a : Nat) : Nat := (m.load64 a).toNat

/-- Write a pointer or a counter at an address. -/
def storeNat (m : Memory) (a v : Nat) : Memory := m.store64 a (BitVec.ofNat 64 v)

/-- The two memories agree on the bytes from `lo` up to `hi`. -/
def SameOn (m m' : Memory) (lo hi : Nat) : Prop := ∀ x, lo ≤ x → x < hi → m' x = m x

variable {m m' : Memory} {a b lo hi : Nat}

/-! ## Bytes a write leaves alone -/

/-- A byte outside the written word keeps its value. -/
theorem store64_outside (v : BitVec 64) (h : b < a ∨ a + 8 ≤ b) : m.store64 a v b = m b := by
  have hout : ¬ (a ≤ b ∧ b < a + 8) := by omega
  simp [store64, hout]

variable {v n : Nat}

/-- A byte outside the filled range keeps its value. -/
theorem fill_outside (v : BitVec 8) (h : b < a ∨ a + n ≤ b) : m.fill a n v b = m b := by
  have hout : ¬ (a ≤ b ∧ b < a + n) := by omega
  simp [fill, hout]

theorem fill_inside (v : BitVec 8) (h : a ≤ b) (h' : b < a + n) : m.fill a n v b = v := by
  simp [fill, h, h']

/-! ## Words -/

/-- A word only depends on its eight bytes. -/
theorem load64_congr (h : SameOn m m' a (a + 8)) : m'.load64 a = m.load64 a := by
  simp only [load64]
  rw [h a (by omega) (by omega), h (a + 1) (by omega) (by omega), h (a + 2) (by omega) (by omega),
    h (a + 3) (by omega) (by omega), h (a + 4) (by omega) (by omega),
    h (a + 5) (by omega) (by omega), h (a + 6) (by omega) (by omega),
    h (a + 7) (by omega) (by omega)]

/-- A stored word reads back. -/
@[simp] theorem load64_store64_same (m : Memory) (a : Nat) (v : BitVec 64) :
    (m.store64 a v).load64 a = v := by
  have hbyte : ∀ i < 8, (m.store64 a v (a + i)).toNat = v.toNat / 2 ^ (8 * i) % 256 := by
    intro i hi
    simp [store64, hi]
  have h0 := hbyte 0 (by omega)
  simp only [Nat.add_zero] at h0
  apply BitVec.eq_of_toNat_eq
  simp only [load64, BitVec.toNat_ofNat, h0, hbyte 1 (by omega), hbyte 2 (by omega),
    hbyte 3 (by omega), hbyte 4 (by omega), hbyte 5 (by omega), hbyte 6 (by omega),
    hbyte 7 (by omega)]
  omega

theorem load64_store64_other (v : BitVec 64) (h : b + 8 ≤ a ∨ a + 8 ≤ b) :
    (m.store64 a v).load64 b = m.load64 b :=
  load64_congr fun x hlo hhi => store64_outside v (by omega)

theorem load64_fill_other (v : BitVec 8) (h : b + 8 ≤ a ∨ a + n ≤ b) :
    (m.fill a n v).load64 b = m.load64 b :=
  load64_congr fun x hlo hhi => fill_outside v (by omega)

theorem load64_eq_zero (h : ∀ x, a ≤ x → x < a + 8 → m x = 0) : m.load64 a = 0 := by
  rw [load64_congr (m := fun _ => 0) h]
  simp [load64]

theorem load64_fill_zero (h : a ≤ b) (h' : b + 8 ≤ a + n) : (m.fill a n 0).load64 b = 0 :=
  load64_eq_zero fun _ hlo hhi => fill_inside 0 (by omega) (by omega)

/-- All eight bytes of a zero word are zero. -/
theorem byte_eq_zero_of_load64 (h : m.load64 a = 0) {x : Nat} (hlo : a ≤ x) (hhi : x < a + 8) :
    m x = 0 := by
  have hsum : (m.load64 a).toNat = 0 := congrArg BitVec.toNat h
  simp only [load64, BitVec.toNat_ofNat] at hsum
  apply BitVec.eq_of_toNat_eq
  change (m x).toNat = 0
  obtain rfl | rfl | rfl | rfl | rfl | rfl | rfl | rfl :
      x = a ∨ x = a + 1 ∨ x = a + 2 ∨ x = a + 3 ∨ x = a + 4 ∨ x = a + 5 ∨ x = a + 6 ∨
        x = a + 7 := by omega
  all_goals omega

/-! ## Pointers and counters -/

theorem loadNat_lt (m : Memory) (a : Nat) : m.loadNat a < 2 ^ 64 := (m.load64 a).isLt

theorem loadNat_congr (h : SameOn m m' a (a + 8)) : m'.loadNat a = m.loadNat a := by
  rw [loadNat, load64_congr h, loadNat]

/-- A stored number that fits in a word reads back. -/
theorem loadNat_storeNat_same (h : v < 2 ^ 64) : (m.storeNat a v).loadNat a = v := by
  simp only [loadNat, storeNat, load64_store64_same, BitVec.toNat_ofNat]
  exact Nat.mod_eq_of_lt h

/-- A number disjoint from the stored one reads as before. -/
theorem loadNat_storeNat_other (h : b + 8 ≤ a ∨ a + 8 ≤ b) :
    (m.storeNat a v).loadNat b = m.loadNat b := by
  simp only [loadNat, storeNat, load64_store64_other _ h]

/-- So does one after a write that may not happen. -/
theorem loadNat_ite_storeNat {c : Prop} [Decidable c] (h : c → b + 8 ≤ a ∨ a + 8 ≤ b) :
    (if c then m.storeNat a v else m).loadNat b = m.loadNat b := by
  split
  · rename_i hc
    exact loadNat_storeNat_other (h hc)
  · rfl

theorem storeNat_outside (h : b < a ∨ a + 8 ≤ b) : m.storeNat a v b = m b :=
  store64_outside _ h

/-- Writes to words that do not overlap may be swapped. -/
theorem store64_comm {v w : BitVec 64} (h : b + 8 ≤ a ∨ a + 8 ≤ b) :
    (m.store64 a v).store64 b w = (m.store64 b w).store64 a v := by
  funext x
  by_cases ha : a ≤ x ∧ x < a + 8
  · have hb : ¬ (b ≤ x ∧ x < b + 8) := by omega
    simp [store64, ha, hb]
  · simp [store64, ha]

/-- Writes to numbers that do not overlap may be swapped. -/
theorem storeNat_comm {w : Nat} (h : b + 8 ≤ a ∨ a + 8 ≤ b) :
    (m.storeNat a v).storeNat b w = (m.storeNat b w).storeNat a v :=
  store64_comm h

/-- A fill and a write to a word outside of it may be swapped. -/
theorem fill_store64_comm {v : BitVec 64} {w : BitVec 8} (h : a + 8 ≤ b ∨ b + n ≤ a) :
    (m.store64 a v).fill b n w = (m.fill b n w).store64 a v := by
  funext x
  by_cases ha : a ≤ x ∧ x < a + 8
  · have hb : ¬ (b ≤ x ∧ x < b + n) := by omega
    simp [fill, store64, ha, hb]
  · simp [fill, store64, ha]

/-! ## Ranges on which two memories agree -/

/-- Agreement restricts to a smaller range. -/
theorem SameOn.mono {lo' hi' : Nat} (h : SameOn m m' lo hi) (hlo : lo ≤ lo') (hhi : hi' ≤ hi) :
    SameOn m m' lo' hi' :=
  fun x h1 h2 => h x (by omega) (by omega)

theorem sameOn_storeNat (h : hi ≤ a ∨ a + 8 ≤ lo) : SameOn m (m.storeNat a v) lo hi :=
  fun x h1 h2 => storeNat_outside (by omega)

/-- A fill leaves a disjoint range alone. -/
theorem sameOn_fill (v : BitVec 8) (h : hi ≤ a ∨ a + n ≤ lo) : SameOn m (m.fill a n v) lo hi :=
  fun x h1 h2 => fill_outside v (by omega)

/-! ## A memory that was written word by word -/

/-- A memory of zeros with words written one after the other. -/
def ofWords (words : List (Nat × BitVec 64)) : Memory :=
  words.foldl (fun m w => m.store64 w.1 w.2) fun _ => 0

theorem ofWords_concat (words : List (Nat × BitVec 64)) (w : Nat × BitVec 64) :
    ofWords (words ++ [w]) = (ofWords words).store64 w.1 w.2 := by
  simp [ofWords]

/-- In front of the written words there are zeros. -/
theorem ofWords_eq_zero {words : List (Nat × BitVec 64)} (h : ∀ w ∈ words, a ≤ w.1) (hb : b < a) :
    ofWords words b = 0 := by
  induction words using List.reverseRecOn with
  | nil => rfl
  | append_singleton words w ih =>
    have hw := h w (by simp)
    rw [ofWords_concat, store64_outside _ (by omega)]
    exact ih fun w' hw' => h w' (by simp [hw'])

/-- A word that is not zero was written. -/
theorem mem_of_load64_ofWords {words : List (Nat × BitVec 64)} (h : ∀ w ∈ words, w.1 % 8 = 0)
    (ha : a % 8 = 0) (hne : (ofWords words).load64 a ≠ 0) :
    (a, (ofWords words).load64 a) ∈ words := by
  induction words using List.reverseRecOn with
  | nil => exact absurd (load64_eq_zero fun _ _ _ => rfl) hne
  | append_singleton words w ih =>
    have hw := h w (by simp)
    rw [ofWords_concat] at hne ⊢
    by_cases heq : a = w.1
    · simp [heq]
    · rw [load64_store64_other _ (by omega)] at hne ⊢
      exact List.mem_append_left _ (ih (fun w' hw' => h w' (by simp [hw'])) hne)

end Memory

end Lib
