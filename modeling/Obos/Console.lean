import Mathlib.Tactic
import Obos.Lib.Run

/-!
# What the console touches

`putChar` draws a glyph of 8 by 16 pixels. It takes a column behind the end of a row back to the
start, but not the one right behind the last whole one, and a character is signed, so that the
glyphs of the upper half are looked up in front of the font. The position is not checked anywhere,
and a text that scrolls is marked in the modification array even if there is none. `stays_inside`
says for which characters everything touched is where it should be.
-/

namespace Obos.Console

open Lib

/-- A buffer for pixels of four bytes each, and whether there are a back buffer and a modification
array. -/
structure Framebuffer where
  width : Nat
  height : Nat
  pitch : Nat
  back : Bool
  modified : Bool

/-- The position of the cursor, and `m_nCallsSinceLastSwap`. -/
structure Cursor where
  x : Nat
  y : Nat
  calls : Nat
  deriving DecidableEq

/-- What is touched: a pixel of a row, at an index of the buffer, a row of a glyph, counted from the
start of the font, and an element of the modification array. -/
inductive Access where
  | pixel (row index : Nat)
  | glyphRow (index : Int)
  | modification (index : Nat)

/-- A call of `ConsoleOutput` or `SetPosition`. -/
inductive Call where
  | consoleOutput (ch : BitVec 8)
  | setPosition (x y : Nat)

namespace Framebuffer

variable (buffer : Framebuffer)

/-- `m_nCharsHorizontal`. -/
def nCharsHorizontal : Nat := buffer.width / 8

/-- `m_nCharsVertical`. -/
def nCharsVertical : Nat := buffer.height / 16

/-- `putChar`. -/
def putChar (ch : BitVec 8) (x y : Nat) : List Access :=
  let y := (y * 16 + 12) % 2 ^ 32
  let x := x * 8 % 2 ^ 32
  let x := if x > buffer.width then 0 else x
  let y := if y ≥ buffer.height then (buffer.height + 2 ^ 32 - 16) % 2 ^ 32 else y
  (List.range 16).flatMap fun cy =>
    let realY := (y + cy + 2 ^ 32 - 12) % 2 ^ 32
    .glyphRow (ch.toInt * 16 + cy) :: (List.range 8).map fun i =>
      .pixel realY (realY * (buffer.pitch / 4) % 2 ^ 32 + (x + i) % 2 ^ 32)

/-- `utils::dwMemset` of the modification array. -/
def setModification : List Access := (List.range buffer.nCharsVertical).map .modification

/-- `SwapBuffers`, without what it copies. -/
def swapBuffers : List Access :=
  if buffer.back && buffer.modified then
    (List.range buffer.nCharsVertical).map (fun ty => .modification (ty / 16)) ++
      buffer.setModification
  else []

/-- `SwapBuffers`, once there were `maxCountsUntilSwap` calls. -/
def swapIfDue (s : Cursor) : Cursor × List Access :=
  if s.calls ≥ 1 then ({ s with calls := 0 }, buffer.swapBuffers) else (s, [])

/-- `newlineHandler`, without the contents of the buffer. -/
def newlineHandler (s : Cursor) : Cursor × List Access :=
  let y := (s.y + 1) % 2 ^ 32
  if y = buffer.nCharsVertical then (⟨0, s.y, 0⟩, buffer.setModification ++ buffer.swapBuffers)
  else (⟨0, y, s.calls⟩, [])

/-- The `switch` of `__ImplConsoleOutputChar`. -/
def drawChar (s : Cursor) (ch : BitVec 8) : Cursor × List Access :=
  if ch = 10 then
    let (s, scrolled) := buffer.newlineHandler s
    let (s, swapped) := buffer.swapIfDue { s with calls := s.calls + 1 }
    (s, scrolled ++ swapped)
  else if ch = 13 then ({ s with x := 0 }, [])
  else if ch = 9 then ({ s with x := (s.x + (4 - s.x % 4)) % 2 ^ 32 }, [])
  else if ch = 8 then
    if s.x = 0 then (s, []) else ({ s with x := s.x - 1 }, buffer.putChar 32 (s.x - 1) s.y)
  else if ch = 32 then
    let x := (s.x + 1) % 2 ^ 32
    ({ s with x := x }, buffer.putChar 32 x s.y)
  else
    let (s, scrolled) := if s.x ≥ buffer.nCharsHorizontal then buffer.newlineHandler s else (s, [])
    ({ s with x := (s.x + 1) % 2 ^ 32 }, scrolled ++ buffer.putChar ch s.x s.y)

/-- `__ImplConsoleOutputChar`. -/
def consoleOutputChar (s : Cursor) (ch : BitVec 8) : Cursor × List Access :=
  let (s, drawn) := buffer.drawChar s ch
  (s, drawn ++ if buffer.modified then [.modification (s.y / 16)] else [])

/-- The position after a call, and what the call touches. -/
def next (s : Cursor) : Call → Cursor × List Access
  | .consoleOutput ch =>
    let (s, drawn) := buffer.consoleOutputChar s ch
    let (s, swapped) := buffer.swapIfDue { s with calls := s.calls + if ch = 10 then 1 else 0 }
    (s, drawn ++ swapped)
  | .setPosition x y => ({ s with x := x % 2 ^ 32, y := y % 2 ^ 32 }, [])

/-- A call takes the cursor to another position. -/
def Step (s : Cursor) (call : Call) (s' : Cursor) : Prop := (buffer.next s call).1 = s'

/-- A pixel lies in its row and the row in the buffer, a glyph is one of the 256 of the font, and
there is a modification array with a row of text for the element. -/
def inside : Access → Bool
  | .pixel row index => row < buffer.height && row * (buffer.pitch / 4) ≤ index &&
      index < row * (buffer.pitch / 4) + buffer.width
  | .glyphRow index => 0 ≤ index && index < 256 * 16
  | .modification index => buffer.modified && index < buffer.nCharsVertical

/-- All that a call touches is inside. -/
def StaysInside (s : Cursor) (call : Call) : Prop := (buffer.next s call).2.all buffer.inside = true

/-- There is room for a character, and the number of pixels fits in 32 bits. -/
structure Sized : Prop where
  width : 8 ≤ buffer.width
  height : 16 ≤ buffer.height
  pitch : buffer.width ≤ buffer.pitch / 4
  pixels : buffer.height * (buffer.pitch / 4) ≤ 2 ^ 32

/-- The column is a whole one, or so far behind the end of the row that it is taken back. -/
def Column (x : Nat) : Prop := x * 8 % 2 ^ 32 + 8 ≤ buffer.width ∨ buffer.width < x * 8 % 2 ^ 32

/-- The character starts a new row below the last one. -/
def Scrolls (s : Cursor) (ch : BitVec 8) : Prop :=
  s.y + 1 = buffer.nCharsVertical ∧
    (ch = 10 ∨ ch ∉ ([8, 9, 10, 13, 32] : List (BitVec 8)) ∧ buffer.nCharsHorizontal ≤ s.x)

/-- The calls that stay inside: a position has a row of text, the bytes are below 128, what a space
or a backspace draws has its column, and there is an array to mark if the text scrolls. -/
def Careful (s : Cursor) : Call → Prop
  | .consoleOutput ch => ch.toNat < 128 ∧ (ch = 32 → buffer.Column ((s.x + 1) % 2 ^ 32)) ∧
      (ch = 8 → s.x ≠ 0 → buffer.Column (s.x - 1)) ∧ (buffer.Scrolls s ch → buffer.modified = true)
  | .setPosition _ y => y % 2 ^ 32 < buffer.nCharsVertical

variable {buffer} (h : buffer.Sized)
include h

/-- A glyph in a row of text. -/
theorem putChar_inside_iff {ch : BitVec 8} {x y : Nat} (hy : y < buffer.nCharsVertical) :
    (buffer.putChar ch x y).all buffer.inside = true ↔ ch.toNat < 128 ∧ buffer.Column x := by
  obtain ⟨hwidth, hheight, hpitch, hpixels⟩ := h
  have hlimit : buffer.height ≤ 2 ^ 32 :=
    Nat.le_trans (Nat.le_mul_of_pos_right _ (show 0 < buffer.pitch / 4 by omega)) hpixels
  have hrow : y * 16 + 16 ≤ buffer.height := by
    unfold nCharsVertical at hy
    omega
  generalize hcolumn : (if x * 8 % 2 ^ 32 > buffer.width then 0 else x * 8 % 2 ^ 32) = column
  have hlast : column + 8 ≤ 2 ^ 32 := by
    subst hcolumn
    split <;> omega
  have hfits : buffer.Column x ↔ column + 8 ≤ buffer.width := by
    subst hcolumn
    unfold Column
    split <;> omega
  have hsigned : ch.toNat < 128 ↔ 0 ≤ ch.toInt := by
    rw [BitVec.toInt_eq_toNat_cond]
    split <;> omega
  have hsmall : ch.toInt < 128 := by
    have hlt := BitVec.toInt_lt (x := ch)
    omega
  have hreal (cy : Nat) (hcy : cy < 16) : ((if (y * 16 + 12) % 2 ^ 32 ≥ buffer.height then
      (buffer.height + 2 ^ 32 - 16) % 2 ^ 32 else (y * 16 + 12) % 2 ^ 32) + cy + 2 ^ 32 - 12) %
      2 ^ 32 = y * 16 + cy := by
    rw [if_neg (by omega)]
    omega
  have hindex (cy i : Nat) (hcy : cy < 16) (hi : i < 8) :
      (y * 16 + cy) * (buffer.pitch / 4) % 2 ^ 32 + (column + i) % 2 ^ 32 =
        (y * 16 + cy) * (buffer.pitch / 4) + (column + i) := by
    have hbelow :=
      Nat.lt_of_lt_of_le (Nat.mul_lt_mul_of_pos_right (show y * 16 + cy < buffer.height by omega)
        (show 0 < buffer.pitch / 4 by omega)) hpixels
    rw [Nat.mod_eq_of_lt hbelow, Nat.mod_eq_of_lt (show column + i < 2 ^ 32 by omega)]
  rw [hfits, hsigned]
  simp only [putChar, hcolumn, List.all_flatMap, List.all_eq_true, List.mem_range, List.mem_cons,
    List.mem_map]
  constructor
  · intro hall
    -- the first row of the glyph and its last pixel
    have hglyph := hall 0 (by decide) _ (.inl rfl)
    have hpixel := hall 0 (by decide) _ (.inr ⟨7, by decide, rfl⟩)
    simp only [inside, Bool.and_eq_true, decide_eq_true_eq] at hglyph hpixel
    omega
  · rintro ⟨hch, hcolumns⟩ cy hcy a (rfl | ⟨i, hi, rfl⟩)
    · simp only [inside, Bool.and_eq_true, decide_eq_true_eq]
      omega
    · rw [hreal cy hcy, hindex cy i hcy hi]
      simp only [inside, Bool.and_eq_true, decide_eq_true_eq]
      omega

omit h in
theorem swapBuffers_inside : buffer.swapBuffers.all buffer.inside = true := by
  unfold swapBuffers setModification
  split
  · rename_i hboth
    rw [Bool.and_eq_true] at hboth
    simp only [List.all_append, List.all_map, Bool.and_eq_true, List.all_eq_true, List.mem_range,
      Function.comp_apply, inside, hboth.2, decide_eq_true_eq, true_and]
    exact ⟨fun ty hty => by omega, fun ty hty => hty⟩
  · rfl

omit h in
theorem swapIfDue_inside (s : Cursor) : (buffer.swapIfDue s).2.all buffer.inside = true ∧
    (buffer.swapIfDue s).1.y = s.y := by
  unfold swapIfDue
  split
  · exact ⟨swapBuffers_inside, rfl⟩
  · exact ⟨rfl, rfl⟩

/-- A new row stays inside, unless the text scrolls and there is no array to mark. -/
theorem newlineHandler_inside {s : Cursor} (hy : s.y < buffer.nCharsVertical) :
    ((buffer.newlineHandler s).2.all buffer.inside = true ↔
      (s.y + 1 = buffer.nCharsVertical → buffer.modified = true)) ∧
    (buffer.newlineHandler s).1.y < buffer.nCharsVertical ∧ (buffer.newlineHandler s).1.x = 0 := by
  have hlimit := Nat.le_trans (Nat.le_mul_of_pos_right _
      (Nat.lt_of_lt_of_le (by decide) (Nat.le_trans h.width h.pitch))) h.pixels
  have hnext : (s.y + 1) % 2 ^ 32 = s.y + 1 := by
    unfold nCharsVertical at hy
    omega
  simp only [newlineHandler, hnext]
  split
  · rename_i hlast
    refine ⟨?_, hy, rfl⟩
    simp only [List.all_append, swapBuffers_inside, Bool.and_true, setModification, List.all_map,
      List.all_eq_true, List.mem_range, Function.comp_apply, inside, Bool.and_eq_true,
      decide_eq_true_eq, hlast, forall_const]
    exact ⟨fun hall => (hall s.y hy).1, fun hmodified i hi => ⟨hmodified, hi⟩⟩
  · rename_i hother
    exact ⟨by simp [hother], by simp only; omega, rfl⟩

/-- What is drawn for a character, and the row of text after it. -/
theorem drawChar_inside {s : Cursor} (hy : s.y < buffer.nCharsVertical) (ch : BitVec 8) :
    ((buffer.drawChar s ch).2.all buffer.inside = true ↔ buffer.Careful s (.consoleOutput ch)) ∧
      (buffer.drawChar s ch).1.y < buffer.nCharsVertical := by
  obtain ⟨hscrolled, hnewline, hstart⟩ := newlineHandler_inside h hy
  have hfirst : buffer.Column 0 := .inl (by simpa using h.width)
  unfold drawChar Careful Scrolls
  split_ifs with hch10 hch13 hch9 hch8 hzero hch32 hend
  · subst hch10
    simpa [List.all_append, swapIfDue_inside, hscrolled] using hnewline
  · subst hch13
    simpa using hy
  · subst hch9
    simpa using hy
  · subst hch8
    simpa [hzero] using hy
  · subst hch8
    simpa [putChar_inside_iff h hy, hzero] using hy
  · subst hch32
    simpa [putChar_inside_iff h hy] using hy
  · simp only [List.all_append, Bool.and_eq_true, hscrolled, putChar_inside_iff h hnewline, hstart]
    refine ⟨?_, hnewline⟩
    simp only [hch8, hch9, hch10, hch13, hch32, List.mem_cons, List.not_mem_nil, or_self,
      not_false_eq_true, true_and, false_or, false_imp_iff, hend, and_true, hfirst]
    exact and_comm
  · have hcolumn : buffer.Column s.x := .inl (by unfold nCharsHorizontal at hend; omega)
    refine ⟨?_, hy⟩
    simp only [List.nil_append, putChar_inside_iff h hy, hcolumn, hch8, hch10, hch32, false_or,
      false_imp_iff, hend, and_false, and_true]

/-- A character stays inside exactly if it is careful, and leaves the cursor in a row of text. -/
theorem next_inside {s : Cursor} (hy : s.y < buffer.nCharsVertical) (ch : BitVec 8) :
    (buffer.StaysInside s (.consoleOutput ch) ↔ buffer.Careful s (.consoleOutput ch)) ∧
      (buffer.next s (.consoleOutput ch)).1.y < buffer.nCharsVertical := by
  obtain ⟨hdrawn, hrow⟩ := drawChar_inside h hy ch
  refine ⟨?_, by simpa only [next, consoleOutputChar, swapIfDue_inside] using hrow⟩
  have hindex : (buffer.drawChar s ch).1.y / 16 < buffer.nCharsVertical := by omega
  rw [← hdrawn]
  simp only [StaysInside, next, consoleOutputChar, List.all_append, swapIfDue_inside, Bool.and_true]
  cases hmodified : buffer.modified <;> simp [inside, hmodified, hindex]

/-- **What the console touches.** After every run of careful calls, all that the next character
touches is inside exactly if it is careful too. -/
theorem stays_inside {s : Cursor} (hrun : Reaches buffer.Careful buffer.Step ⟨0, 0, 0⟩ s)
    (ch : BitVec 8) :
    buffer.StaysInside s (.consoleOutput ch) ↔ buffer.Careful s (.consoleOutput ch) := by
  have hstart := Nat.div_pos h.height (by decide)
  have hrow :=
    hrun.invariant (fun s => s.y < buffer.nCharsVertical) hstart fun s a s' hs ha hstep => by
      rw [← show (buffer.next s a).1 = s' from hstep]
      cases a with
      | consoleOutput ch => exact (next_inside h hs ch).2
      | setPosition x y => exact ha
  exact (next_inside h hrow ch).1

end Framebuffer

/-- A screen of 80 by 25 characters. -/
def smallScreen : Framebuffer := ⟨640, 400, 2560, true, true⟩

theorem stays_inside_newline : smallScreen.StaysInside ⟨0, 24, 0⟩ (.consoleOutput 10) := by
  have hrun : Reaches smallScreen.Careful smallScreen.Step ⟨0, 0, 0⟩ ⟨0, 24, 0⟩ :=
    .single ⟨.setPosition 0 24, show 24 < 25 by decide, rfl⟩
  exact (Framebuffer.stays_inside ⟨by decide, by decide, by decide, by decide⟩ hrun 10).2
    ⟨by decide, fun e => absurd e (by decide), fun e => absurd e (by decide), fun _ => rfl⟩

/-- A byte above 127, a space behind the last column but one, a position below the last row, and a
newline in the last row when there is no modification array. -/
theorem smallScreen_leaves : ¬ smallScreen.StaysInside ⟨0, 0, 0⟩ (.consoleOutput 128) ∧
    ¬ smallScreen.StaysInside (smallScreen.next ⟨0, 0, 0⟩ (.setPosition 79 0)).1
      (.consoleOutput 32) ∧
    ¬ smallScreen.StaysInside (smallScreen.next ⟨0, 0, 0⟩ (.setPosition 0 400)).1
      (.consoleOutput 10) ∧
    ¬ { smallScreen with modified := false }.StaysInside ⟨0, 24, 0⟩ (.consoleOutput 10) := by
  unfold Framebuffer.StaysInside
  decide +kernel

end Obos.Console
