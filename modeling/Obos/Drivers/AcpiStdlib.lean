import Obos.Lib.Memory

/-!
# The C library functions of the ACPI driver

`memset` writes whole words and then the bytes that are left, and if there are any it writes one
byte more. `memmove` copies in the direction that reads every byte before it is written. `strncmp`
returns what `utils::memcmp` returns, which is 1 for equal bytes. `stdlib_right_iff` says where the
three do what the C standard says.
-/

namespace Obos.Acpi

open Lib Memory Function

/-! ## The functions -/

/-- `utils::dwMemset`, which is `rep stosd`. -/
def dwMemset (m : Memory) (dest : Nat) (val : BitVec 32) : Nat → Memory
  | 0 => m
  | count + 1 =>
    dwMemset (fun x => if dest ≤ x ∧ x < dest + 4 then val.extractLsb' (8 * (x - dest)) 8 else m x)
      (dest + 4) val count

/-- The word with a byte in all four places. -/
def word (byte : BitVec 32) : BitVec 32 := byte ||| byte <<< 8 ||| byte <<< 16 ||| byte <<< 24

/-- `memset`: what it returns, and memory after it. -/
def memset (m : Memory) (dest : Nat) (val : BitVec 32) (size : Nat) : Nat × Memory :=
  let byte := val &&& 0xff
  let words := dwMemset m dest (word byte) (size / 4)
  (dest, if size % 4 = 0 then words
    else words.fill (dest + size / 4 * 4) (size % 4 + 1) (byte.setWidth 8))

/-- The loop of `memmove`, from the last byte on. -/
def moveDown (m : Memory) (dest src : Nat) : Nat → Memory
  | 0 => m
  | i + 1 => moveDown (update m (dest + i) (m (src + i))) dest src i

/-- `memmove`, where `utils::memcpy` is `rep movsb`. -/
def memmove (m : Memory) (dest src size : Nat) : Nat × Memory :=
  (dest, if src = dest then m else if dest < src then m.copy dest src size
    else moveDown m dest src size)

/-- `strnlen`. -/
def strnlen (m : Memory) (str : Nat) : Nat → Nat
  | 0 => 0
  | maxCnt + 1 => if m str = 0 then 0 else strnlen m (str + 1) maxCnt + 1

/-- `utils::memcmp`, which counts down and says whether nothing is left. -/
def memcmp (m : Memory) (p1 p2 : Nat) : Nat → Bool
  | 0 => true
  | cnt + 1 => if m p1 ≠ m p2 then false else memcmp m (p1 + 1) (p2 + 1) cnt

/-- `strncmp`. -/
def strncmp (m : Memory) (p1 p2 maxCnt : Nat) : Nat :=
  if strnlen m p1 maxCnt ≠ strnlen m p2 maxCnt then 1
  else (memcmp m p1 p2 (strnlen m p1 maxCnt)).toNat

/-! ## What they should do -/

/-- Memory with `n` bytes at `dest` that are those at `src`. -/
def moved (m : Memory) (dest src n : Nat) : Memory := fun x =>
  if dest ≤ x ∧ x < dest + n then m (src + (x - dest)) else m x

/-- The strings agree on their first `n` characters or up to a common zero. -/
def Agree (m : Memory) (p1 p2 n : Nat) : Prop :=
  ∀ i < n, (∀ j < i, m (p1 + j) ≠ 0) → m (p1 + i) = m (p2 + i)

variable {m : Memory} {dest src n p1 p2 : Nat}

/-! ## Setting and moving bytes -/

theorem fill_fill (k : Nat) (b : BitVec 8) :
    (m.fill dest n b).fill (dest + n) k b = m.fill dest (n + k) b := by
  funext x
  unfold fill
  grind

theorem extract_word (val : BitVec 32) {k : Nat} (hk : k < 4) :
    (word (val &&& 0xff)).extractLsb' (8 * k) 8 = val.setWidth 8 := by
  ext i hi
  unfold word
  interval_cases k <;> interval_cases i <;> simp

theorem dwMemset_eq {val : BitVec 32} {b : BitVec 8}
    (hval : ∀ k < 4, val.extractLsb' (8 * k) 8 = b) :
    dwMemset m dest val n = m.fill dest (4 * n) b := by
  induction n generalizing m dest with
  | zero => exact (funext fun x => fill_outside b (by omega)).symm
  | succ n ih =>
    have hword : (fun x => if dest ≤ x ∧ x < dest + 4 then val.extractLsb' (8 * (x - dest)) 8
        else m x) = m.fill dest 4 b := by
      funext x
      unfold fill
      split
      · exact hval _ (by omega)
      · rfl
    rw [dwMemset, hword, ih, fill_fill, Nat.mul_succ, Nat.add_comm]

/-- `memset` sets one byte more where it does not end with a word. -/
theorem memset_eq (val : BitVec 32) : memset m dest val n =
    (dest, m.fill dest (if n % 4 = 0 then n else n + 1) (val.setWidth 8)) := by
  have hbyte : (val &&& 0xff).setWidth 8 = val.setWidth 8 := by
    ext i hi
    interval_cases i <;> simp
  simp only [memset, dwMemset_eq fun k hk => extract_word val hk, hbyte, Nat.mul_comm _ 4,
    fill_fill]
  split
  · rw [Nat.mul_div_cancel' (Nat.dvd_of_mod_eq_zero ‹_›)]
  · rw [← Nat.add_assoc, Nat.div_add_mod]

/-- A copy to a lower address reads every byte before it is written. -/
theorem copy_eq (h : dest < src) : m.copy dest src n = moved m dest src n := by
  induction n generalizing m dest src with
  | zero => exact funext fun x => (if_neg (by omega)).symm
  | succ n ih =>
    rw [copy, ih (by omega)]
    funext x
    unfold moved
    grind

/-- So does one to a higher address that begins with the last byte. -/
theorem moveDown_eq (h : src < dest) : moveDown m dest src n = moved m dest src n := by
  induction n generalizing m with
  | zero => exact funext fun x => (if_neg (by omega)).symm
  | succ n ih =>
    rw [moveDown, ih]
    funext x
    simp only [moved, update]
    grind

theorem memmove_eq : memmove m dest src n = (dest, moved m dest src n) := by
  refine congrArg (dest, ·) ?_
  split
  · funext x
    unfold moved
    grind
  · split
    · exact copy_eq ‹_›
    · exact moveDown_eq (by omega)

/-! ## Comparing strings -/

theorem agree_succ : Agree m p1 p2 (n + 1) ↔
    m p1 = m p2 ∧ (m p1 ≠ 0 → Agree m (p1 + 1) (p2 + 1) n) := by
  simp only [Agree, Nat.forall_lt_succ_left, Nat.not_lt_zero, false_imp_iff, implies_true,
    true_imp_iff, Nat.add_zero, ← Nat.add_assoc, Nat.add_right_comm _ 1, and_imp]
  exact and_congr_right fun _ => ⟨fun h hne i hi => h i hi hne, fun h i hi hne => h hne i hi⟩

/-- Strings agree if they have the same length and the same bytes. -/
theorem agree_iff : Agree m p1 p2 n ↔
    strnlen m p1 n = strnlen m p2 n ∧ memcmp m p1 p2 (strnlen m p1 n) = true := by
  induction n generalizing p1 p2 with
  | zero => simp [Agree, strnlen, memcmp]
  | succ n ih =>
    rw [agree_succ, ih]
    grind [strnlen, memcmp]

/-- The functions do what the C standard says: `memset` if it ends with a word or finds the value
behind its bytes, `memmove` always, and `strncmp` for strings of different lengths only. -/
theorem stdlib_right_iff (m : Memory) (dest src n p1 p2 maxCnt : Nat) (val : BitVec 32) :
    (memset m dest val n = (dest, m.fill dest n (val.setWidth 8)) ↔
      n % 4 = 0 ∨ m (dest + n) = val.setWidth 8) ∧
    memmove m dest src n = (dest, moved m dest src n) ∧
    ((strncmp m p1 p2 maxCnt = 0 ↔ Agree m p1 p2 maxCnt) ↔
      strnlen m p1 maxCnt ≠ strnlen m p2 maxCnt) := by
  refine ⟨?_, memmove_eq, ?_⟩
  · rw [memset_eq, Prod.mk.injEq, and_iff_right rfl]
    by_cases hn : n % 4 = 0
    · simp [hn]
    · rw [if_neg hn, or_iff_right hn]
      constructor
      · intro h
        have hbyte := congrFun h (dest + n)
        rw [fill_inside _ (by omega) (by omega), fill_outside _ (by omega)] at hbyte
        exact hbyte.symm
      · intro h
        funext x
        unfold fill
        grind
  · rw [agree_iff, strncmp]
    by_cases hlen : strnlen m p1 maxCnt = strnlen m p2 maxCnt
    · cases memcmp m p1 p2 (strnlen m p1 maxCnt) <;> simp [hlen]
    · simp [hlen]

/-- One byte is asked for and two are set, and a string differs from itself. -/
theorem stdlib_not_right :
    memset (fun _ => 0) 0x1000 1 1 ≠ (0x1000, fill (fun _ => 0) 0x1000 1 1) ∧
      strncmp (fun _ => 0) 0x1000 0x1000 1 = 1 ∧ Agree (fun _ => 0) 0x1000 0x1000 1 := by
  refine ⟨fun h => ?_, rfl, fun _ _ _ => rfl⟩
  have hbyte := congrFun (congrArg Prod.snd h) 0x1001
  revert hbyte
  decide

end Obos.Acpi
