import Mathlib.Order.Monotone.Basic
import Mathlib.Tactic.Common

/-!
# Reading from an input device

`WriteByteToInputDeviceBuffer` appends elements to an input device while `FileHandle::Read`
waits for them. `waitForData` leaves its loop as soon as there is one element, also where the
read needs more, and then elements are copied that have not been written. `read_inOrder_iff`
says for which reads this cannot happen.
-/

namespace Obos.Vfs

/-- Where a call of `FileHandle::Read` is; it calls `waitForData` at two places. -/
inductive ReadLabel where
  | eof
  | waitPos (second : Bool)
  | waitNext (second : Bool)
  | canReadAll
  | copy (got : List (BitVec 16))
  | returned (got : List (BitVec 16)) (currentFilePos : Nat)
  | fault

/-- A call of `FileHandle::Read` on an input device: all elements that are ever written to the
device, the position, and half of `nToRead`. Memory has room for less than `2 ^ 63` elements, so
that no position wraps around. -/
structure InputRead where
  data : Nat → BitVec 16
  currentFilePos : Nat
  count : Nat
  peek : Bool
  count_pos : 0 < count

/-- Some elements of an input device in order. -/
def elements (data : Nat → BitVec 16) (pos count : Nat) : List (BitVec 16) :=
  (List.range count).map fun i => data (pos + i)

namespace InputRead

/-- Where `Read` goes on behind `waitForData`. -/
def waited : Bool → ReadLabel
  | false => .canReadAll
  | true => .copy []

/-- Where the next read begins. -/
def nextPos (r : InputRead) : Nat :=
  if r.peek then r.currentFilePos else r.currentFilePos + r.count

/-- A step of `FileHandle::Read` when `length` elements have been written. `Vector::at` gives a
null reference for the others. -/
def step (r : InputRead) (length : Nat) : ReadLabel → ReadLabel
  | .eof => if length ≤ r.currentFilePos then .waitPos false else .canReadAll
  | .waitPos second => if length ≤ r.currentFilePos then .waitNext second else waited second
  | .waitNext second =>
    if length ≤ r.currentFilePos + r.count then .waitPos second else waited second
  | .canReadAll => if length ≤ r.currentFilePos + r.count - 1 then .waitPos true else .copy []
  | .copy got =>
    if got.length < r.count then
      if r.currentFilePos + got.length < length then
        .copy (got ++ [r.data (r.currentFilePos + got.length)])
      else .fault
    else .returned got r.nextPos
  | label => label

/-- Where `Read` is after some steps, if `length t` elements have been written before step `t`. -/
def label (r : InputRead) (length : Nat → Nat) : Nat → ReadLabel
  | 0 => .eof
  | t + 1 => r.step (length t) (r.label length t)

/-- No element is accessed that has not been written. What is returned are the elements from the
position on, and the next read goes on behind them; and there is something returned if the elements
are written at some time. -/
structure InOrder (r : InputRead) (length : Nat → Nat) : Prop where
  written : ∀ t, r.label length t ≠ .fault
  inOrder : ∀ t got pos, r.label length t = .returned got pos →
    got = elements r.data r.currentFilePos r.count ∧ pos = r.nextPos
  returns : (∃ t, r.currentFilePos + r.count ≤ length t) →
    ∃ t got pos, r.label length t = .returned got pos

/-- What has been copied or returned when `length` elements have been written. -/
def Holds (r : InputRead) (length : Nat) : ReadLabel → Prop
  | .copy got => got.length ≤ r.count ∧ r.currentFilePos + got.length ≤ length ∧
      got = elements r.data r.currentFilePos got.length
  | .returned got pos => r.currentFilePos + r.count ≤ length ∧
      got = elements r.data r.currentFilePos r.count ∧ pos = r.nextPos
  | _ => True

/-- A bound on the steps that are left when there is an element. -/
def rank (r : InputRead) : ReadLabel → Nat
  | .waitNext false => r.count + 5
  | .waitPos false | .eof => r.count + 4
  | .waitNext true | .canReadAll => r.count + 3
  | .waitPos true => r.count + 2
  | .copy got => r.count - got.length + 1
  | .returned .. | .fault => 0

section Steps

variable {r : InputRead} {length : Nat → Nat} {m m' t : Nat} {l : ReadLabel}

theorem Holds.mono (h : r.Holds m l) (hle : m ≤ m') : r.Holds m' l := by
  cases l with
  | copy got => exact ⟨h.1, h.2.1.trans hle, h.2.2⟩
  | returned got pos => exact ⟨h.1.trans hle, h.2⟩
  | _ => trivial

theorem Holds.step (h : r.Holds m l) (hpos : r.currentFilePos ≤ m) : r.Holds m (r.step m l) := by
  have hcopy : r.Holds m (.copy []) := ⟨Nat.zero_le _, hpos, rfl⟩
  have hwaited (second : Bool) : r.Holds m (waited second) := by
    cases second with
    | false => trivial
    | true => exact hcopy
  cases l with
  | returned got pos => exact h
  | copy got =>
    obtain ⟨hle, hlen, hgot⟩ := h
    rw [InputRead.step]
    split
    · split
      · refine ⟨by simp; omega, by simp; omega, ?_⟩
        rw [List.length_append, List.length_singleton, elements, List.range_succ,
          List.map_append, ← elements, ← hgot]
        rfl
      · trivial
    · have hcount : got.length = r.count := by omega
      exact ⟨hcount ▸ hlen, hcount ▸ hgot, rfl⟩
  | fault => trivial
  | _ =>
    rw [InputRead.step]
    split <;> first | trivial | exact hwaited _

theorem holds_label (hmono : Monotone length) (hpos : r.currentFilePos ≤ length 0) (t : Nat) :
    r.Holds (length t) (r.label length t) := by
  induction t with
  | zero => trivial
  | succ t ih =>
    exact (ih.step (hpos.trans (hmono (Nat.zero_le t)))).mono (hmono (Nat.le_succ t))

theorem rank_step (hpos : r.currentFilePos < m) (hl : r.rank l ≠ 0) :
    r.rank (r.step m l) < r.rank l := by
  rcases l with _ | (_ | _) | (_ | _) | _ | got | _ | _ <;>
    simp only [InputRead.step, waited] <;> (repeat' split) <;> simp [rank] at hl ⊢ <;> omega

/-- `Read` does not wait for ever where there is an element. -/
theorem exists_rank_eq_zero (hmono : Monotone length) (hpos : r.currentFilePos < length t) :
    ∃ t', r.rank (r.label length t') = 0 := by
  induction hn : r.rank (r.label length t) using Nat.strongRecOn generalizing t with
  | _ n ih =>
    by_cases hzero : r.rank (r.label length t) = 0
    · exact ⟨t, hzero⟩
    · exact ih _ (hn ▸ rank_step hpos hzero) (hpos.trans_le (hmono (Nat.le_succ t))) rfl

theorem ends (hmono : Monotone length) (hpos : r.currentFilePos < length t) :
    ∃ t', r.label length t' = .fault ∨ ∃ got pos, r.label length t' = .returned got pos := by
  obtain ⟨t', hrank⟩ := exists_rank_eq_zero hmono hpos
  refine ⟨t', ?_⟩
  revert hrank
  rcases r.label length t' with _ | (_ | _) | (_ | _) | _ | _ | _ | _ <;> simp [rank]

/-- The copy begins when all elements are there. -/
theorem copies_written (hmono : Monotone length)
    (hsupplied : r.count = 1 ∨ r.currentFilePos + r.count ≤ length 0) (t : Nat) :
    r.label length t ≠ .fault ∧
      ∀ got, r.label length t = .copy got → r.currentFilePos + r.count ≤ length t := by
  induction t with
  | zero => simp [label]
  | succ t ih =>
    have hzero := hmono (Nat.zero_le t)
    have hnext := hmono (Nat.le_add_right t 1)
    rw [label]
    revert ih
    rcases r.label length t with _ | (_ | _) | (_ | _) | _ | got | _ | _ <;>
      simp only [InputRead.step, waited] <;> (repeat' split) <;> simp <;> omega

/-- A read that is not supplied finds an element and copies also those behind it. -/
theorem fault_of_not_supplied {n : Nat} (hpos : r.currentFilePos ≤ n) (hone : r.count ≠ 1)
    (hlt : n < r.currentFilePos + r.count) :
    ∃ length, Monotone length ∧ length 0 = n ∧ ∃ t, r.label length t = .fault := by
  let length (t : Nat) := if t = 0 then n else max n (r.currentFilePos + 1)
  have hmono : Monotone length := by
    intro t t' hle
    simp only [length]
    split <;> split <;> omega
  refine ⟨length, hmono, rfl, ?_⟩
  obtain ⟨t, hfault | ⟨got, pos, hreturned⟩⟩ :=
    ends (t := 1) hmono (show r.currentFilePos < max n _ by omega)
  · exact ⟨t, hfault⟩
  · have hholds := holds_label hmono hpos t
    rw [hreturned] at hholds
    have hlength : length t < r.currentFilePos + r.count := by
      simp only [length]
      split <;> omega
    exact absurd hholds.1 (by omega)

end Steps

/-- The reads of a handle one after another: what they have returned, the position behind them, and
the elements that have been written by then. -/
inductive Session (data : Nat → BitVec 16) : List (BitVec 16) → Nat → Nat → Prop where
  | opened (n : Nat) : Session data [] 0 n
  | read {out : List (BitVec 16)} {n pos t : Nat} {got : List (BitVec 16)} {r : InputRead}
      {length : Nat → Nat} (h : Session data out r.currentFilePos n) (hdata : r.data = data)
      (hmono : Monotone length) (hn : n ≤ length 0) (ht : r.label length t = .returned got pos) :
    Session data (if r.peek then out else out ++ got) pos (length t)

theorem Session.inOrder {data : Nat → BitVec 16} {out : List (BitVec 16)} {pos n : Nat}
    (h : Session data out pos n) : pos ≤ n ∧ out = elements data 0 pos := by
  induction h with
  | opened n => exact ⟨Nat.zero_le n, rfl⟩
  | @read out n pos t got r length h hdata hmono hn ht ih =>
    have hholds := holds_label hmono (ih.1.trans hn) t
    rw [ht] at hholds
    obtain ⟨hlen, rfl, rfl⟩ := hholds
    rw [nextPos]
    split
    · exact ⟨by omega, ih.2⟩
    · refine ⟨hlen, ?_⟩
      rw [ih.2, hdata]
      simp [elements, List.range_add]

/-- The reads of a handle return all elements up to its position, once and in order. The next one
goes on like that, for all interleavings with the writes, just if it is for one element or all its
elements are there when it begins. -/
theorem read_inOrder_iff {out : List (BitVec 16)} {n : Nat} (r : InputRead)
    (h : Session r.data out r.currentFilePos n) :
    out = elements r.data 0 r.currentFilePos ∧
      ((∀ length, Monotone length → length 0 = n → r.InOrder length) ↔
        r.count = 1 ∨ r.currentFilePos + r.count ≤ n) := by
  obtain ⟨hpos, hout⟩ := h.inOrder
  refine ⟨hout, fun hall => ?_, ?_⟩
  · by_contra hnot
    obtain ⟨hone, hlt⟩ := not_or.1 hnot
    obtain ⟨length, hmono, hzero, t, hfault⟩ := fault_of_not_supplied hpos hone (by omega)
    exact (hall length hmono hzero).written t hfault
  · rintro hsupplied length hmono rfl
    refine ⟨fun t => (copies_written hmono hsupplied t).1, fun t got pos ht => ?_, ?_⟩
    · have hholds := holds_label hmono hpos t
      rw [ht] at hholds
      exact hholds.2
    · rintro ⟨t, ht⟩
      have hcount := r.count_pos
      obtain ⟨t', hfault | hreturned⟩ := ends hmono (show r.currentFilePos < length t by omega)
      · exact absurd hfault (copies_written hmono hsupplied t').1
      · exact ⟨t', hreturned⟩

theorem read_one_element : Session (fun _ => 65) [] 0 0 ∧ ∀ length, Monotone length →
    length 0 = 0 → (⟨fun _ => 65, 0, 1, false, by decide⟩ : InputRead).InOrder length :=
  ⟨.opened 0, (read_inOrder_iff _ (.opened 0)).2.2 (.inl rfl)⟩

/-- With one element there, a read of two copies the second one, which is not. -/
theorem read_two_of_one : Session (fun _ => 65) [] 0 1 ∧
    ¬ (⟨fun _ => 65, 0, 2, false, by decide⟩ : InputRead).InOrder fun _ => 1 :=
  ⟨.opened 1, fun h => h.written 5 rfl⟩

end InputRead

end Obos.Vfs
