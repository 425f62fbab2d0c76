import Obos.DriverInterface.Load

/-!
# The loops over the program headers

`programHeader` is the first header of the table, and each pass of a loop ends by copying a
header to its place. `forHeaders_eq` says what that comes to: the first two passes see the header
that was in the first place before the loop, every later pass sees the header before the one it
should see, and the last header is left in the first place.
-/

namespace Obos.DriverInterface

open Lib Loader List

/-! ## Bytes of a file that is written to -/

section Bytes

variable {file : File} {bs : List (BitVec 8)} {o c x k : Nat}

theorem getElem?_bytesAt :
    (bytesAt file o c)[k]? = if k < c then file[o % 2 ^ 64 + k]? else none := by
  simp [bytesAt, getElem?_take, getElem?_drop]

theorem getElem?_overwrite (h : o + bs.length ≤ file.length) :
    (overwrite file o bs)[x]? = if o ≤ x ∧ x < o + bs.length then bs[x - o]? else file[x]? := by
  unfold overwrite
  rw [append_assoc, getElem?_append, length_take, Nat.min_eq_left (by omega)]
  split
  · next hlt =>
      rw [if_neg (by omega), getElem?_take, if_pos hlt]
  · next hge =>
      rw [getElem?_append]
      split
      · rw [if_pos (by omega)]
      · rw [if_neg (by omega), getElem?_drop]
        congr 1
        omega

theorem length_overwrite (h : o + bs.length ≤ file.length) :
    (overwrite file o bs).length = file.length := by
  simp only [overwrite, length_append, length_take, length_drop]
  omega

theorem length_bytesAt (h : Inside file o c) : (bytesAt file o c).length = c := by
  simp only [bytesAt, length_take, length_drop]
  rcases h with h | h <;> omega

end Bytes

/-! ## The first place of the table -/

/-- The file with a header copied to the first place of the table. -/
def withHeader (file : File) (phoff i : Nat) : File :=
  overwrite file (phoff % 2 ^ 64) (bytesAt file (phoff + phdrSize * i) phdrSize)

/-- The program headers are in the file. -/
def TableInside (file : File) (phoff phnum : Nat) : Prop :=
  ∀ i < phnum, Inside file (phoff + phdrSize * i) phdrSize

section FirstPlace

variable {file : File} {phoff phnum i j : Nat} {f : Field}

/-- Where a header that is in the file ends. -/
theorem header_le (h : Inside file (phoff + phdrSize * i) phdrSize) :
    (phoff + 56 * i) % 2 ^ 64 + 56 ≤ file.length := by
  unfold phdrSize at h
  rcases h with h | h
  · omega
  · exact h

variable (h : TableInside file phoff phnum)
include h

/-- The first header is at the start of the table. -/
theorem TableInside.first (hi : i < phnum) : phoff % 2 ^ 64 + 56 ≤ file.length := by
  have h0 := header_le (h 0 (by omega))
  rwa [Nat.mul_zero, Nat.add_zero] at h0

theorem length_header (hi : i < phnum) :
    (bytesAt file (phoff + phdrSize * i) phdrSize).length = 56 :=
  length_bytesAt (h i hi)

theorem length_withHeader (hi : i < phnum) : (withHeader file phoff i).length = file.length := by
  refine length_overwrite ?_
  rw [length_header h hi]
  exact h.first hi

theorem getElem?_withHeader (hi : i < phnum) {x : Nat} : (withHeader file phoff i)[x]? =
      if phoff % 2 ^ 64 ≤ x ∧ x < phoff % 2 ^ 64 + 56 then
        file[(phoff + 56 * i) % 2 ^ 64 + (x - phoff % 2 ^ 64)]?
      else file[x]? := by
  have hfits : phoff % 2 ^ 64 + (bytesAt file (phoff + phdrSize * i) phdrSize).length ≤
      file.length := by
    rw [length_header h hi]
    exact h.first hi
  rw [withHeader, getElem?_overwrite hfits, length_header h hi]
  split
  · rw [getElem?_bytesAt, if_pos (by unfold phdrSize; omega)]
    rfl
  · rfl

/-- The first header is in its own place. -/
theorem withHeader_zero (hpos : 0 < phnum) : withHeader file phoff 0 = file := by
  refine ext_getElem? fun x => ?_
  rw [getElem?_withHeader h hpos]
  split
  · congr 1
    omega
  · rfl

/-- Copying headers to the first place leaves the table in the file. -/
theorem TableInside.withHeader (hi : i < phnum) :
    TableInside (withHeader file phoff i) phoff phnum := by
  intro j hj
  unfold Inside
  rw [length_withHeader h hi]
  exact h j hj

omit h in
/-- The other headers do not overlap the first one, even where the table wraps around. -/
theorem header_separate (hpos : 0 < j) (hj : j < 65536) :
    (phoff + 56 * j) % 2 ^ 64 + 56 ≤ phoff % 2 ^ 64 ∨
      phoff % 2 ^ 64 + 56 ≤ (phoff + 56 * j) % 2 ^ 64 := by
  by_cases hwraps : phoff % 2 ^ 64 + 56 * j < 2 ^ 64
  · omega
  · omega

/-- The header in the first place is the one that was copied there. -/
theorem bytesAt_withHeader_first (hi : i < phnum) :
    bytesAt (withHeader file phoff i) phoff phdrSize =
      bytesAt file (phoff + phdrSize * i) phdrSize := by
  refine ext_getElem? fun k => ?_
  rw [getElem?_bytesAt, getElem?_bytesAt]
  refine ite_congr rfl (fun hk => ?_) fun _ => rfl
  unfold phdrSize at hk ⊢
  rw [getElem?_withHeader h hi, if_pos (by omega), Nat.add_sub_cancel_left]

/-- The header that was copied last is the one in the first place. -/
theorem withHeader_withHeader (hphnum : phnum ≤ 65536) (hi : i < phnum) (hj : j < phnum)
    (hpos : 0 < j) : withHeader (withHeader file phoff i) phoff j = withHeader file phoff j := by
  have hseparate := @header_separate phoff j hpos (show j < 65536 by omega)
  refine ext_getElem? fun x => ?_
  rw [getElem?_withHeader (h.withHeader hi) hj, getElem?_withHeader h hj]
  split
  · rw [getElem?_withHeader h hi, if_neg (by omega)]
  · rw [getElem?_withHeader h hi, if_neg ‹_›]

/-- The fields of the header in the first place. -/
theorem field_withHeader (hsize : file.length < 2 ^ 64) (hi : i < phnum)
    (hf : f.offset + f.width ≤ phdrSize) :
    field (withHeader file phoff i) phoff f = field file (phoff + phdrSize * i) f := by
  have hfirst := h.first hi
  have hheader := header_le (h i hi)
  unfold field
  congr 1
  refine ext_getElem? fun k => ?_
  rw [getElem?_bytesAt, getElem?_bytesAt]
  refine ite_congr rfl (fun hk => ?_) fun _ => rfl
  unfold phdrSize at hf ⊢
  rw [getElem?_withHeader h hi, if_pos (by omega)]
  congr 1
  omega

end FirstPlace

/-! ## The loops -/

/-- The header a pass of a loop sees, if another one than the first is in the first place. -/
def headerSeen (first k : Nat) : Nat := if k ≤ 1 then first else k - 1

section Loop

variable {file : File} {phoff phnum first n : Nat} {α : Type} {body : File → α → Load α} {acc : α}

section

variable (h : TableInside file phoff phnum)
include h

theorem assignHeader_eq {i : Nat} (hi : i < phnum) :
    assignHeader file phoff i = pure (withHeader file phoff i) := by
  have hfirst : Inside file phoff phdrSize := by
    simpa only [Nat.mul_zero, Nat.add_zero] using h 0 (by omega)
  rw [assignHeader, readBytes, within_of (h i hi), pure_bind, within_of hfirst]
  rfl

omit h in
theorem headerSeen_lt (hfirst : first < phnum) {k : Nat} (hk : k ≤ phnum) :
    headerSeen first k < phnum := by
  unfold headerSeen
  split <;> omega

/-- The assignment at the end of a pass makes the next pass see the next header. -/
theorem withHeader_headerSeen (hphnum : phnum ≤ 65536) (hfirst : first < phnum) (hn : n < phnum) :
    withHeader (withHeader file phoff (headerSeen first n)) phoff n =
      withHeader file phoff (headerSeen first (n + 1)) := by
  have hseen := headerSeen_lt hfirst hn.le
  cases n with
  | zero => exact withHeader_zero (h.withHeader hseen) (by omega)
  | succ n =>
    rw [withHeader_withHeader h hphnum hseen hn (by omega)]
    rfl

/-- What the passes of a loop see, and what is left in the first place. -/
theorem forHeaders_eq (hphnum : phnum ≤ 65536) (hfirst : first < phnum) (hn : n ≤ phnum) :
    forHeaders phoff n body (withHeader file phoff first) acc = (do
      let acc ← (range n).foldlM
        (fun acc k => body (withHeader file phoff (headerSeen first k)) acc) acc
      pure (withHeader file phoff (headerSeen first n), acc)) := by
  induction n with
  | zero => simp [forHeaders, headerSeen]
  | succ n ih =>
    unfold forHeaders at ih ⊢
    have hseen := headerSeen_lt hfirst (show n ≤ phnum by omega)
    rw [range_succ, foldlM_append, foldlM_append, ih (by omega)]
    simp only [bind_assoc, pure_bind, foldlM_cons, foldlM_nil,
      assignHeader_eq (h.withHeader hseen) (show n < phnum by omega),
      withHeader_headerSeen h hphnum hfirst (show n < phnum by omega)]

omit h in
theorem headerSeen_last (phnum : Nat) : headerSeen (phnum - 1) phnum = phnum - 1 := by
  unfold headerSeen
  split <;> rfl

/-- A loop that finds the last header in the first place leaves it there. -/
theorem forHeaders_last (hphnum : phnum ≤ 65536) (hpos : 0 < phnum) {r : File × α}
    (hr : Returns (forHeaders phoff phnum body (withHeader file phoff (phnum - 1)) acc) r) :
    r.1 = withHeader file phoff (phnum - 1) := by
  rw [forHeaders_eq h hphnum (show phnum - 1 < phnum by omega) le_rfl, headerSeen_last] at hr
  simp only [returns_bind, returns_pure] at hr
  obtain ⟨acc', -, rfl⟩ := hr
  rfl

end

/-- An assignment reads the header and writes it to the first place. -/
theorem returns_assignHeader_iff {i : Nat} {file' : File} :
    Returns (assignHeader file phoff i) file' ↔
      Defined (assignHeader file phoff i) ∧ file' = withHeader file phoff i := by
  simp only [assignHeader, readBytes, returns_within_bind, returns_within, defined_within_bind,
    defined_within, and_assoc]
  rfl

/-- The header and the first place are in the file if an assignment stays there. -/
theorem inside_of_defined_assignHeader {i : Nat} (h : Defined (assignHeader file phoff i)) :
    Inside file (phoff + phdrSize * i) phdrSize ∧ Inside file phoff phdrSize := by
  simpa only [assignHeader, readBytes, defined_within_bind, defined_within] using h

/-- An assignment keeps the size of the file. -/
theorem length_of_returns_assignHeader {i : Nat} {file' : File}
    (h : Returns (assignHeader file phoff i) file') : file'.length = file.length := by
  obtain ⟨hdefined, rfl⟩ := returns_assignHeader_iff.1 h
  obtain ⟨hheader, hfirst⟩ := inside_of_defined_assignHeader hdefined
  refine length_overwrite ?_
  rw [length_bytesAt hheader]
  exact hfirst.resolve_left (by decide)

/-- A pass of a loop returns if it stays in the file and its body does not fail. -/
theorem exists_returns_pass
    (hbody : ∀ file acc, Defined (body file acc) → ∃ acc', Returns (body file acc) acc')
    (st : File × α) (i : Nat)
    (h : Defined (do let acc ← body st.1 st.2; return (← assignHeader st.1 phoff i, acc))) :
    ∃ st', Returns (do let acc ← body st.1 st.2; return (← assignHeader st.1 phoff i, acc))
      st' := by
  rw [defined_bind] at h
  obtain ⟨acc', hacc'⟩ := hbody _ _ h.1
  have hassign := ((defined_bind).1 (h.2 acc' hacc')).1
  refine ⟨(withHeader st.1 phoff i, acc'), ?_⟩
  simp only [returns_bind, returns_pure]
  exact ⟨acc', hacc', _, returns_assignHeader_iff.2 ⟨hassign, rfl⟩, rfl⟩

/-- The loops read every header, whatever their bodies are for. -/
theorem tableInside_of_defined
    (hbody : ∀ file acc, Defined (body file acc) → ∃ acc', Returns (body file acc) acc')
    (h : Defined (forHeaders phoff n body file acc)) : TableInside file phoff n := by
  induction n with
  | zero => exact fun i hi => absurd hi (by omega)
  | succ n ih =>
    unfold forHeaders at h ih
    rw [range_succ, foldlM_append, defined_bind] at h
    obtain ⟨st, hst⟩ := h.1.exists_returns_foldlM (exists_returns_pass hbody)
    have hlength : st.1.length = file.length := by
      refine hst.foldlM_invariant (fun st => st.1.length = file.length) rfl ?_
      intro st i st' hlength hreturns
      simp only [returns_bind, returns_pure] at hreturns
      obtain ⟨_, _, _, hassign, rfl⟩ := hreturns
      exact (length_of_returns_assignHeader hassign).trans hlength
    intro i hi
    rcases Nat.lt_succ_iff_lt_or_eq.1 hi with hlt | rfl
    · exact ih h.1 i hlt
    · have hlast := h.2 st hst
      rw [foldlM_cons, defined_bind, defined_bind] at hlast
      obtain ⟨acc', hacc'⟩ := hbody _ _ hlast.1.1
      have hassign := (defined_bind.1 (hlast.1.2 acc' hacc')).1
      have hinside := (inside_of_defined_assignHeader hassign).1
      rwa [Inside, hlength] at hinside

end Loop

end Obos.DriverInterface
