import Obos.Vfs.OpenPath

/-!
# Positions in files and directories

A `DirectoryIterator` is at an entry of its directory, and a null pointer stands for its end. The
same pointer says whether the iterator is open, so that `Close` fails at the end, and `iter++` loses
the last path (`iterator_right_iff`).

A `FileHandle` is at a byte of its file. `Read` waits for a file to grow, which a regular file does
not (`readsRight_iff`). `Open` seeks to the end while the handle still counts as closed, so that
`OPTIONS_APPEND` has no effect; otherwise the position is that of a cursor (`cursor_agrees_iff`).
-/

namespace Obos.Vfs

/-! ## Directories -/

/-- The entries of what `OpenAt` has found. -/
def Opened.children (table : List MountPoint) : Opened → List DirectoryEntry
  | .entry e => e.children
  | .mountPoint id => ((findMountPoint table id).map MountPoint.children).getD []
  | .inputDevice _ => []

/-- `DirectoryIterator`, with the entries from the current one on, and none for a null pointer. -/
structure DirectoryIterator where
  currentNode : List DirectoryEntry
  directoryNode : Option Opened

namespace DirectoryIterator

/-- An iterator that is not open. -/
def closed : DirectoryIterator := ⟨[], none⟩

/-- `DirectoryIterator::OpenAt`. -/
def openAt (it : DirectoryIterator) (table : List MountPoint) (path behind : CString) :
    Option (Except VfsError DirectoryIterator) :=
  (Vfs.openAt table (!it.currentNode.isEmpty || it.directoryNode.isSome) path behind).map
    fun r => r.map fun d => ⟨d.children table, some d⟩

/-- `DirectoryIterator::operator++(int)`. -/
def postIncrement (it : DirectoryIterator) : Option CString × DirectoryIterator :=
  match it.currentNode with
  | [] => (none, it)
  | entry :: rest =>
    (if rest.isEmpty then none else some (printPath entry), { it with currentNode := rest })

/-- `DirectoryIterator::Close`. -/
def close (it : DirectoryIterator) : Bool × DirectoryIterator :=
  if it.currentNode.isEmpty || it.directoryNode.isNone then (false, it) else (true, closed)

/-- The iterator after a number of uses of `iter++`. -/
def advance (it : DirectoryIterator) (k : Nat) : DirectoryIterator :=
  (fun it => it.postIncrement.2)^[k] it

theorem advance_eq (it : DirectoryIterator) (k : Nat) :
    it.advance k = { it with currentNode := it.currentNode.drop k } := by
  induction k generalizing it with
  | zero => rfl
  | succ k ih =>
    rw [advance, Function.iterate_succ_apply, ← advance, ih]
    obtain ⟨nodes, d⟩ := it
    cases nodes with
    | nil => simp [postIncrement]
    | cons e nodes => simp [postIncrement]

/-- After a number of uses of `iter++`, the next one returns the path of the next entry exactly if
that is not the last one, and the iterator can be closed and opened again exactly if it is not at
the end. -/
theorem iterator_right_iff {table : List MountPoint} {path behind : CString} {d : Opened}
    (hopen : Vfs.openAt table false path behind = some (.ok d)) :
    ∃ it, closed.openAt table path behind = some (.ok it) ∧ ∀ k,
      ((it.advance k).postIncrement.1 = (d.children table)[k]?.map printPath ↔
        k + 1 ≠ (d.children table).length) ∧
      ((it.advance k).close.1 = true ∧
        (it.advance k).close.2.openAt table path behind = some (.ok it) ↔
          k < (d.children table).length) := by
  have hclosed : closed.openAt table path behind = some (.ok ⟨d.children table, some d⟩) := by
    exact congrArg _ hopen
  refine ⟨_, hclosed, fun k => ?_⟩
  rw [advance_eq, postIncrement, close]
  rcases Nat.lt_or_ge k (d.children table).length with hk | hk
  · rw [List.drop_eq_getElem_cons hk, List.getElem?_eq_getElem hk]
    simp only [List.isEmpty_cons, Option.isNone_some, Bool.or_self, Bool.false_eq_true, if_false,
      hclosed, Option.map_some, List.isEmpty_iff, List.drop_eq_nil_iff, hk, and_self, and_true]
    by_cases hlast : k + 1 = (d.children table).length
    · simp [hlast]
    · simp only [if_neg (show ¬ (d.children table).length ≤ k + 1 by omega), ne_eq, hlast,
        not_false_eq_true]
  · rw [List.drop_eq_nil_of_le hk, List.getElem?_eq_none hk]
    simp only [List.isEmpty_nil, Bool.true_or, if_true, Option.map_none, true_iff,
      Bool.false_eq_true, false_and, false_iff]
    omega

/-- The mount point with the id 1 and the file `ab`. -/
def pointOne : MountPoint := ⟨1, true, none, emptyInitrd, [fileAb 1], 0⟩

/-- With one file, the first path is lost, and the iterator cannot be closed behind it. -/
theorem iterator_one_file :
    ∃ it, closed.openAt [pointOne] [49, colon, slash] [] = some (.ok it) ∧
    ((it.advance 0).postIncrement.1 = some (printPath (fileAb 1)) ↔ 0 + 1 ≠ 1) ∧
    ((it.advance 1).close.1 = true ∧
      (it.advance 1).close.2.openAt [pointOne] [49, colon, slash] [] = some (.ok it) ↔ 1 < 1) := by
  obtain ⟨it, hopen, h⟩ := iterator_right_iff (show Vfs.openAt [pointOne] false
    [49, colon, slash] [] = some (.ok (.mountPoint 1)) from rfl)
  exact ⟨it, hopen, (h 0).1, (h 1).2⟩

/-- The path of the only file is not returned, and `Close` fails. -/
theorem iterator_loses_file : ∃ it,
    closed.openAt [pointOne] [49, colon, slash] [] = some (.ok it) ∧
      Opened.children [pointOne] (.mountPoint 1) = [fileAb 1] ∧
      it.postIncrement.1 = none ∧ it.postIncrement.2.close.1 = false :=
  ⟨_, rfl, rfl, rfl, rfl⟩

end DirectoryIterator

/-! ## Files -/

/-- `OPTIONS_APPEND`. -/
def optionsAppend : BitVec 32 := 2

/-- A regular file with its driver, which rejects ranges outside the file. -/
structure RegularFile where
  filesize : BitVec 64
  readFile : BitVec 64 → BitVec 64 → Option (List (BitVec 8))
  rejects : ∀ pos n, filesize.toNat < pos.toNat + n.toNat → readFile pos n = none

/-- `FileHandle::__TestEof`. -/
def RegularFile.testEof (file : RegularFile) (pos : BitVec 64) : Bool := file.filesize ≤ pos

/-- `waitForData`, with a bound on the number of tests. -/
def RegularFile.waitForData (file : RegularFile) (pos next : BitVec 64) : Nat → Option Unit
  | 0 => none
  | fuel + 1 =>
    if file.testEof pos && file.testEof next then file.waitForData pos next fuel else some ()

/-- `FileHandle` for regular files, with its flag `FLAGS_CLOSED`. -/
structure FileHandle where
  node : Option RegularFile
  currentFilePos : BitVec 64
  flagsClosed : Bool

/-- `SeekPlace`. -/
inductive SeekPlace where
  | cur
  | beg
  | fileEnd

namespace FileHandle

/-- A handle that is not open. -/
def closed : FileHandle := ⟨none, 0, true⟩

/-- A handle that is open. -/
def opened (file : RegularFile) (pos : BitVec 64) : FileHandle := ⟨some file, pos, false⟩

/-- `FileHandle::Read`, once the data is there. -/
def transfer (h : FileHandle) (file : RegularFile) (data : Bool) (nToRead : BitVec 64)
    (peek : Bool) : Option (List (BitVec 8)) × FileHandle :=
  if nToRead = 0#64 then (some [], h)
  else
    match if data then file.readFile h.currentFilePos nToRead else some [] with
    | none => (none, h)
    | some bytes =>
      (some bytes, if peek then h else { h with currentFilePos := h.currentFilePos + nToRead })

/-- `FileHandle::Read`, with `none` for false; `data` says whether there is a buffer. -/
def read (h : FileHandle) (fuel : Nat) (data : Bool) (nToRead : BitVec 64) (peek : Bool) :
    Option (Option (List (BitVec 8)) × FileHandle) :=
  match h.node, h.flagsClosed with
  | some file, false =>
    let waitForData := file.waitForData h.currentFilePos (h.currentFilePos + nToRead) fuel
    (if file.testEof h.currentFilePos then waitForData else some ()).bind fun _ =>
      (if file.testEof (h.currentFilePos + (nToRead - 1)) then waitForData else some ()).map
        fun _ => h.transfer file data nToRead peek
  | _, _ => some (none, h)

/-- The position that `SeekTo` goes to. -/
def soughtPos (file : RegularFile) (pos count : BitVec 64) : SeekPlace → BitVec 64
  | .cur => pos + count
  | .beg => count
  | .fileEnd => file.filesize + count

/-- `FileHandle::SeekTo`. A handle without a file counts as closed. -/
def seekTo (h : FileHandle) (count : BitVec 64) (place : SeekPlace) : BitVec 64 × FileHandle :=
  match h.node, h.flagsClosed with
  | some file, false =>
    (h.currentFilePos, { h with currentFilePos := soughtPos file h.currentFilePos count place })
  | _, _ => (-1, h)

/-- `FileHandle::Open`, where the path is that of a file. -/
def openFile (h : FileHandle) (file : RegularFile) (options : BitVec 32) : Bool × FileHandle :=
  if h.flagsClosed = false ∨ h.node.isSome then (false, h)
  else
    let h : FileHandle := { h with node := some file }
    let h := if options &&& optionsAppend ≠ 0#32 then (h.seekTo 0 .fileEnd).2 else h
    (true, { h with flagsClosed := false })

/-- `FileHandle::Close`. -/
def close (h : FileHandle) : Bool × FileHandle :=
  if h.flagsClosed = true ∨ h.node.isNone then (false, h) else (true, closed)

section Read

variable {file : RegularFile} {pos n : BitVec 64} {data peek : Bool} {fuel : Nat}

theorem waitForData_none (heof : file.testEof pos = true) (hnext : file.testEof (pos + n) = true) :
    file.waitForData pos (pos + n) fuel = none := by
  induction fuel with
  | zero => rfl
  | succ fuel ih => rw [RegularFile.waitForData, heof, hnext, Bool.and_self, if_pos rfl, ih]

theorem read_eq_none (heof : file.testEof pos = true) (hnext : file.testEof (pos + n) = true) :
    (opened file pos).read fuel data n peek = none := by
  simp [read, opened, heof, waitForData_none heof hnext]

/-- `Read` goes on if it is before the end, or would be there. -/
theorem read_of_data (hdata : file.testEof pos = false ∨ file.testEof (pos + n) = false) :
    (opened file pos).read (fuel + 1) data n peek =
      some ((opened file pos).transfer file data n peek) := by
  have hwait : file.waitForData pos (pos + n) (fuel + 1) = some () := by
    rw [RegularFile.waitForData]
    rcases hdata with h | h <;> simp [h]
  simp [read, opened, hwait]

theorem transfer_of_read {r : Option (List (BitVec 8)) × FileHandle}
    (hr : (opened file pos).read fuel data n peek = some r) :
    (opened file pos).transfer file data n peek = r := by
  obtain ⟨-, -, hr⟩ := Option.bind_eq_some_iff.1 hr
  obtain ⟨-, -, hr⟩ := Option.map_eq_some_iff.1 hr
  exact hr

end Read

/-- `Read` returns, and if the range is not in the file, it returns false and does not move. -/
def ReadsRight (file : RegularFile) (h : FileHandle) (data : Bool) (nToRead : BitVec 64)
    (peek : Bool) : Prop :=
  ∃ fuel r, h.read fuel data nToRead peek = some r ∧
    (file.filesize.toNat < h.currentFilePos.toNat + nToRead.toNat →
      r.1 = none ∧ r.2.currentFilePos = h.currentFilePos)

/-- `Read` is right exactly if it begins before the end, or its end is before that of the file, with
the overflow of the sum, and if there is a buffer or the range is in the file. -/
theorem readsRight_iff (file : RegularFile) (pos nToRead : BitVec 64) (data peek : Bool) :
    ReadsRight file (opened file pos) data nToRead peek ↔
      (pos < file.filesize ∨ pos + nToRead < file.filesize) ∧
        (data = true ∨ pos.toNat + nToRead.toNat ≤ file.filesize.toNat) := by
  have heof (p : BitVec 64) : file.testEof p = false ↔ p < file.filesize := by
    simp [RegularFile.testEof]
  rw [← heof, ← heof]
  by_cases hdata : file.testEof pos = false ∨ file.testEof (pos + nToRead) = false
  · rw [and_iff_right hdata]
    constructor
    · rintro ⟨fuel, r, hr, hright⟩
      by_contra hnot
      obtain ⟨hnull, hout⟩ := not_or.1 hnot
      have hnone := (hright (Nat.lt_of_not_le hout)).1
      rw [← transfer_of_read hr, transfer] at hnone
      split at hnone <;> cases hnone
    · intro hbuffer
      refine ⟨1, _, read_of_data hdata, fun hout => ?_⟩
      have hzero : nToRead ≠ 0#64 := by
        rintro rfl
        rw [BitVec.add_zero, or_self, heof] at hdata
        exact absurd hout (Nat.le_of_lt hdata).not_gt
      rw [transfer, if_neg hzero, hbuffer.resolve_right (Nat.not_le_of_lt hout),
        file.rejects _ _ hout]
      exact ⟨rfl, rfl⟩
  · refine iff_of_false ?_ fun h => hdata h.1
    rintro ⟨fuel, r, hr, -⟩
    simp only [not_or, Bool.not_eq_false] at hdata
    rw [read_eq_none hdata.1 hdata.2] at hr
    cases hr

end FileHandle

/-- A file with one byte. -/
def oneByte : RegularFile where
  filesize := 1
  readFile pos n :=
    if pos.toNat + n.toNat ≤ 1 then some (([65].drop pos.toNat).take n.toNat) else none
  rejects _ _ h := if_neg (Nat.not_le_of_lt h)

/-- At the end of the file `Read` does not return. -/
theorem read_at_end_hangs : ¬ FileHandle.ReadsRight oneByte (.opened oneByte 1) true 1 false := by
  rintro ⟨fuel, r, hr, -⟩
  rw [FileHandle.read_eq_none (by decide) (by decide)] at hr
  cases hr

/-! ## Cursors -/

/-- A file whose driver returns the slice that is asked for. -/
structure SlicedFile extends RegularFile where
  contents : List (BitVec 8)
  size_eq : filesize.toNat = contents.length
  slices : ∀ pos n, pos.toNat + n.toNat ≤ contents.length →
    readFile pos n = some ((contents.drop pos.toNat).take n.toNat)

instance : Coe SlicedFile RegularFile := ⟨SlicedFile.toRegularFile⟩

/-- What is done with a handle. -/
inductive FileOp where
  | openFile (options : BitVec 32)
  | read (nToRead : BitVec 64) (peek : Bool)
  | seekTo (count : BitVec 64) (place : SeekPlace)
  | close

/-- What is returned, with the bytes that are read. -/
abbrev FileResult := BitVec 64 × List (BitVec 8)

/-- A success or a failure. -/
def FileResult.ofBool (success : Bool) : FileResult := (if success then 1 else 0, [])

/-- An operation on a handle. -/
def FileHandle.perform (file : RegularFile) (fuel : Nat) (h : FileHandle) :
    FileOp → Option (FileResult × FileHandle)
  | .openFile options => some ((h.openFile file options).map .ofBool id)
  | .read nToRead peek => (h.read fuel true nToRead peek).map fun r =>
    ((if r.1.isSome then 1 else 0, r.1.getD []), r.2)
  | .seekTo count place => some ((h.seekTo count place).map (·, []) id)
  | .close => some (h.close.map .ofBool id)

open FileHandle (closed openFile opened perform seekTo soughtPos transfer)

section Cursor

variable (file : SlicedFile)

/-- The place a cursor is moved to. -/
def seekTarget (pos : Nat) (count : BitVec 64) : SeekPlace → Int
  | .cur => pos + count.toInt
  | .beg => count.toInt
  | .fileEnd => file.contents.length + count.toInt

/-- The cursor that a handle is for: there is none while it is closed. -/
def cursorStep : Option Nat → FileOp → FileResult × Option Nat
  | none, .openFile options =>
    (.ofBool true, some (if options &&& optionsAppend ≠ 0#32 then file.contents.length else 0))
  | some pos, .openFile _ => (.ofBool false, some pos)
  | some pos, .read nToRead peek =>
    ((1, (file.contents.drop pos).take nToRead.toNat),
      some (if peek then pos else pos + nToRead.toNat))
  | some pos, .seekTo count place =>
    ((.ofNat 64 pos, []), some (seekTarget file pos count place).toNat)
  | some _, .close => (.ofBool true, none)
  | none, .seekTo .. => ((-1, []), none)
  | none, _ => (.ofBool false, none)

/-- At least one byte is read, and what is read or moved to is in the file. -/
def Inside : Option Nat → FileOp → Prop
  | some pos, .read nToRead _ => 0 < nToRead.toNat ∧ pos + nToRead.toNat ≤ file.contents.length
  | some pos, .seekTo count place => 0 ≤ seekTarget file pos count place ∧
      seekTarget file pos count place ≤ file.contents.length
  | _, _ => True

/-- A handle does what the cursor does, as long as the operations stay in the file. -/
def Agrees (fuel : Nat) : FileHandle → Option Nat → List FileOp → Prop
  | _, _, [] => True
  | h, cursor, op :: ops => Inside file cursor op →
      ∃ h', h.perform file fuel op = some ((cursorStep file cursor op).1, h') ∧
        h'.currentFilePos.toNat = (cursorStep file cursor op).2.getD 0 ∧
        Agrees fuel h' (cursorStep file cursor op).2 ops

/-- The file is not empty and is opened to append to it. -/
def OpensToAppend : Option Nat → FileOp → Prop
  | none, .openFile options => options &&& optionsAppend ≠ 0#32 ∧ file.contents ≠ []
  | _, _ => False

/-- The file is opened to append to it at some time. -/
def Appends : Option Nat → List FileOp → Prop
  | _, [] => False
  | cursor, op :: ops => Inside file cursor op ∧
      (OpensToAppend file cursor op ∨ Appends (cursorStep file cursor op).2 ops)

/-- The handle is at the cursor. -/
def Represents (h : FileHandle) : Option Nat → Prop
  | none => h = .closed
  | some pos => ∃ p, h = .opened file p ∧ p.toNat = pos

variable {file} {h : FileHandle} {cursor : Option Nat} {op : FileOp} {ops : List FileOp}

theorem Represents.position (hrep : Represents file h cursor) :
    h.currentFilePos.toNat = cursor.getD 0 := by
  cases cursor with
  | none =>
    cases hrep
    rfl
  | some pos =>
    obtain ⟨p, rfl, hpos⟩ := hrep
    exact hpos

/-- `Open` begins at the first byte, whatever the options are. -/
theorem openFile_closed (file : RegularFile) (options : BitVec 32) :
    FileHandle.closed.openFile file options = (true, .opened file 0) := by
  simp [openFile, closed, seekTo, opened]

theorem Inside.toNat_soughtPos {p count : BitVec 64} {place : SeekPlace}
    (hin : Inside file (some p.toNat) (.seekTo count place)) :
    (FileHandle.soughtPos file p count place).toNat =
      (seekTarget file p.toNat count place).toNat := by
  have hsize := file.size_eq
  have hcount := BitVec.toInt_eq_toNat_cond count
  obtain ⟨hlow, hhigh⟩ := hin
  cases place
  all_goals
    simp only [seekTarget, soughtPos, BitVec.toNat_add] at hlow hhigh ⊢
    split at hcount <;> omega

section Step

variable (fuel : Nat) (hrep : Represents file h cursor)
include hrep

/-- Every other operation moves the handle with the cursor. -/
theorem Represents.step (hin : Inside file cursor op) (hnot : ¬ OpensToAppend file cursor op) :
    ∃ h', h.perform file (fuel + 1) op = some ((cursorStep file cursor op).1, h') ∧
      Represents file h' (cursorStep file cursor op).2 := by
  cases cursor with
  | none =>
    cases hrep
    cases op with
    | openFile options =>
      refine ⟨_, by rw [perform, openFile_closed]; rfl, 0, rfl, ?_⟩
      split
      · rename_i happend
        have hnil : file.contents = [] := by simpa [OpensToAppend, happend] using hnot
        simp [hnil]
      · rfl
    | _ => exact ⟨_, rfl, rfl⟩
  | some pos =>
    obtain ⟨p, rfl, rfl⟩ := hrep
    cases op with
    | openFile options => exact ⟨_, rfl, p, rfl, rfl⟩
    | read n peek =>
      obtain ⟨hpos, hle⟩ := hin
      have hsize := file.size_eq
      have heof : file.testEof p = false := by
        simp only [RegularFile.testEof, decide_eq_false_iff_not, BitVec.not_le]
        bv_omega
      have hzero : n ≠ 0#64 := by bv_omega
      have hread := file.slices (opened file p).currentFilePos n hle
      rw [perform, FileHandle.read_of_data (.inl heof), transfer,
        if_neg hzero, hread]
      refine ⟨_, rfl, ?_⟩
      cases peek
      · exact ⟨p + n, rfl, show (p + n).toNat = p.toNat + n.toNat by bv_omega⟩
      · exact ⟨p, rfl, rfl⟩
    | seekTo count place =>
      refine ⟨_, ?_, _, rfl, hin.toNat_soughtPos⟩
      rw [cursorStep, BitVec.ofNat_toNat]
      rfl
    | close => exact ⟨_, rfl, rfl⟩

/-- Appending begins at the first byte, and not at the end. -/
theorem Represents.append (happend : OpensToAppend file cursor op) {r : FileResult}
    {h' : FileHandle} (hperform : h.perform file fuel op = some (r, h')) :
    h'.currentFilePos.toNat ≠ (cursorStep file cursor op).2.getD 0 := by
  cases cursor with
  | some pos => cases happend
  | none =>
    cases op with
    | openFile options =>
      cases hrep
      rw [perform, openFile_closed] at hperform
      cases hperform
      rw [cursorStep, if_pos happend.1]
      exact (List.length_pos_iff.2 happend.2).ne
    | _ => cases happend

theorem Represents.agrees_iff :
    Agrees file (fuel + 1) h cursor ops ↔ ¬ Appends file cursor ops := by
  induction ops generalizing h cursor with
  | nil => simp [Agrees, Appends]
  | cons op ops ih =>
    rw [Appends, not_and]
    refine imp_congr_right fun hin => ?_
    by_cases happend : OpensToAppend file cursor op
    · refine iff_of_false ?_ fun h => h (.inl happend)
      rintro ⟨h', hperform, hpos, -⟩
      exact hrep.append _ happend hperform hpos
    · obtain ⟨h', hperform, hrep'⟩ := hrep.step fuel hin happend
      rw [or_iff_right happend, ← ih hrep']
      constructor
      · rintro ⟨h'', hperform', -, hrest⟩
        cases hperform.symm.trans hperform'
        exact hrest
      · exact fun hrest => ⟨h', hperform, hrep'.position, hrest⟩

end Step

end Cursor

/-- A handle agrees with the cursor of its file in every sequence of operations exactly if it does
not open the file to append to it, or the file is empty. -/
theorem cursor_agrees_iff (file : SlicedFile) (fuel : Nat) (ops : List FileOp) :
    Agrees file (fuel + 1) .closed none ops ↔ ¬ Appends file none ops :=
  Represents.agrees_iff fuel rfl

/-- A file with one byte, and what it holds. -/
def oneByteFile : SlicedFile where
  toRegularFile := oneByte
  contents := [65]
  size_eq := rfl
  slices _ _ h := if_pos h

/-- `Open` does not go to the end of the file. -/
theorem append_begins_at_start : ¬ Agrees oneByteFile 1 .closed none [.openFile optionsAppend] := by
  intro h
  obtain ⟨h', hperform, hpos, -⟩ := h trivial
  cases hperform
  revert hpos
  decide

end Obos.Vfs
