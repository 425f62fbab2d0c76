import Obos.Vfs.Mount

/-!
# Opening a printed path

A directory iterator prints the path of an entry as `<id>:/<path>`, and `FileHandle::Open`
and `DirectoryIterator::OpenAt` look such a path up: they read the id up to the colon, take
the last mount point with that id, and search its entries for the path behind the slash.
To skip the id they add the position of the colon and that of the slash, so that they begin
as many characters too late as the id has digits after the first.

`printed_path_resolves_iff` says which printed paths lead back to their entry.
-/

namespace Obos.Vfs

open Lib DriverInterface List Option

/-! ## The program -/

mutual

/-- `SearchForNode` among the children of an entry. -/
def searchUnder (compare : DirectoryEntry → Option Bool) :
    DirectoryEntry → Option (Option DirectoryEntry)
  | .node _ _ children => do
      match ← children.findM? compare with
      | some found => return some found
      | none => searchBelow compare children

/-- The second loop of `SearchForNode`. -/
def searchBelow (compare : DirectoryEntry → Option Bool) :
    List DirectoryEntry → Option (Option DirectoryEntry)
  | [] => some none
  | entry :: entries => do
      match ← searchUnder compare entry with
      | some found => return some found
      | none => searchBelow compare entries

end

/-- `SearchForNode`: the entries of a list come before those below them. -/
def searchForNode (compare : DirectoryEntry → Option Bool) (root : List DirectoryEntry) :
    Option (Option DirectoryEntry) := do
  match ← root.findM? compare with
  | some found => return some found
  | none => searchBelow compare root

/-- What is opened. -/
inductive Opened where
  | entry (e : DirectoryEntry)
  | mountPoint (id : BitVec 32)
  | inputDevice (id : BitVec 32)

/-- The last mount point with an id. -/
def findMountPoint (table : List MountPoint) (mountId : BitVec 32) : Option MountPoint :=
  table.reverse.find? fun point => point.id = mountId

/-- The path behind the id. What is behind the end of the string may be anything. -/
def realPath (path behind : CString) : CString :=
  let offset := strCountToChar path colon + strCountToChar path slash
  if offset ≤ path.length then path.drop offset else behind

/-- The entry with a path under a mount point, if its type is not rejected. -/
def openEntry (rejected : DirentType → Bool) (point : MountPoint) (path : CString) :
    Option (Except VfsError Opened) :=
  (searchForNode (fun e => pathStrcmp e.key path) point.children).map fun
    | none => .error .fileNotFound
    | some e =>
      if rejected e.value.direntType then .error .invalidOperationOnObject else .ok (.entry e)

/-- `FileHandle::Open`, up to where the entry is known. -/
def fileHandleOpen (devices : Registry) (table : List MountPoint) (opened : Bool)
    (path behind : CString) : Option (Except VfsError Opened) :=
  if opened then some (.error .alreadyExists)
  else if path.head? = some 0x4b then
    let id := getMountId (path.drop 1) (strlen (path.drop 1))
    some (if devices.inputDevices.ids.contains id then .ok (.inputDevice id)
      else .error .fileNotFound)
  else if !path.contains colon then some (.error .invalidParameter)
  else
    match findMountPoint table (getMountId path 0) with
    | none => some (.error .fileNotFound)
    | some point => openEntry (· = .directory) point (realPath path behind)

/-- `DirectoryIterator::OpenAt`. -/
def openAt (table : List MountPoint) (opened : Bool) (path behind : CString) :
    Option (Except VfsError Opened) :=
  if opened then some (.error .alreadyExists)
  else if !path.contains colon then some (.error .invalidParameter)
  else
    match findMountPoint table (getMountId path 0) with
    | none => some (.error .fileNotFound)
    | some point =>
      if realPath path behind = [] then some (.ok (.mountPoint point.id))
      else openEntry (· ≠ .directory) point (realPath path behind)

/-- `DirectoryIterator::operator*`. -/
def printPath (e : DirectoryEntry) : CString :=
  printDecimal e.value.mountPoint ++ [colon, slash] ++ e.key

/-! ## The order of the search -/

mutual

/-- The entries under an entry, in the order they are searched. -/
def orderUnder : DirectoryEntry → List DirectoryEntry
  | .node _ _ children => children ++ orderBelow children

/-- The entries under the entries of a list. -/
def orderBelow : List DirectoryEntry → List DirectoryEntry
  | [] => []
  | entry :: entries => orderUnder entry ++ orderBelow entries

end

/-- The entries of a tree in the order they are searched. -/
def searchOrder (root : List DirectoryEntry) : List DirectoryEntry := root ++ orderBelow root

/-- The entry is the first of a list that compares as equal, and all before it differ. -/
def IsFirst (compare : DirectoryEntry → Option Bool) (e : DirectoryEntry)
    (l : List DirectoryEntry) : Prop :=
  ∃ pre post, l = pre ++ e :: post ∧ compare e = some true ∧ ∀ x ∈ pre, compare x = some false

section Search

variable {compare : DirectoryEntry → Option Bool}

/-- Searching two lists, one after the other. -/
theorem findM?_append (l1 l2 : List DirectoryEntry) : (l1 ++ l2).findM? compare = (do
    match ← l1.findM? compare with
    | some found => return some found
    | none => l2.findM? compare) := by
  induction l1 with
  | nil => rfl
  | cons e l1 ih =>
    rw [cons_append, findM?, findM?, ih]
    cases compare e with
    | none => rfl
    | some b => cases b <;> rfl

mutual

theorem searchUnder_eq : ∀ e, searchUnder compare e = (orderUnder e).findM? compare
  | .node _ _ children => by
      rw [searchUnder, orderUnder, findM?_append, searchBelow_eq children]

theorem searchBelow_eq : ∀ es, searchBelow compare es = (orderBelow es).findM? compare
  | [] => rfl
  | e :: es => by
      rw [searchBelow, orderBelow, findM?_append, searchUnder_eq e, searchBelow_eq es]

end

theorem searchForNode_eq (root : List DirectoryEntry) :
    searchForNode compare root = (searchOrder root).findM? compare := by
  rw [searchForNode, searchOrder, findM?_append, searchBelow_eq]

/-- The first equal entry is at the front, or behind an entry that differs. -/
theorem isFirst_cons {x e : DirectoryEntry} {l : List DirectoryEntry} :
    IsFirst compare e (x :: l) ↔
      (x = e ∧ compare e = some true) ∨ (compare x = some false ∧ IsFirst compare e l) := by
  constructor
  · rintro ⟨pre, post, heq, he, hpre⟩
    cases pre with
    | nil =>
      cases heq
      exact .inl ⟨rfl, he⟩
    | cons y pre =>
      cases heq
      obtain ⟨hx, hpre⟩ := forall_mem_cons.1 hpre
      exact .inr ⟨hx, pre, post, rfl, he, hpre⟩
  · rintro (⟨rfl, he⟩ | ⟨hx, pre, post, rfl, he, hpre⟩)
    · exact ⟨[], l, rfl, he, nofun⟩
    · exact ⟨x :: pre, post, rfl, he, forall_mem_cons.2 ⟨hx, hpre⟩⟩

/-- What is found is the first entry that compares as equal. -/
theorem findM?_eq_some (compare : DirectoryEntry → Option Bool) {l : List DirectoryEntry}
    {e : DirectoryEntry} : l.findM? compare = some (some e) ↔ IsFirst compare e l := by
  induction l with
  | nil => simp [findM?, IsFirst]
  | cons x l ih =>
    rw [isFirst_cons, ← ih, findM?]
    cases hx : compare x with
    | none =>
      simp only [bind, bind_none, reduceCtorEq, false_and, or_false, false_iff, not_and]
      rintro rfl he
      rw [hx] at he
      cases he
    | some b =>
      cases b with
      | true =>
        simp only [bind, bind_some, pure, some.injEq, Bool.true_eq_false,
          false_and, or_false]
        exact ⟨fun h => ⟨h, h ▸ hx⟩, fun h => h.1⟩
      | false =>
        simp only [bind, bind_some, true_and]
        refine ⟨.inr, fun h => h.resolve_left ?_⟩
        rintro ⟨rfl, he⟩
        rw [hx] at he
        cases he

end Search

/-! ## The entries that are searched -/

/-- The entries of a forest: those at its top, and those of the forests below them. -/
inductive InForest (e : DirectoryEntry) : List DirectoryEntry → Prop where
  | top {root : List DirectoryEntry} (h : e ∈ root) : InForest e root
  | deeper {root : List DirectoryEntry} {x : DirectoryEntry} (hx : x ∈ root)
      (h : InForest e x.children) : InForest e root

section Forest

variable {root : List DirectoryEntry} {e : DirectoryEntry}

theorem inForest_iff : InForest e root ↔ e ∈ root ∨ ∃ x ∈ root, InForest e x.children := by
  constructor
  · rintro (h | ⟨hx, h⟩)
    · exact .inl h
    · exact .inr ⟨_, hx, h⟩
  · rintro (h | ⟨x, hx, h⟩)
    · exact .top h
    · exact .deeper hx h

mutual

theorem mem_orderUnder_iff : ∀ x : DirectoryEntry, e ∈ orderUnder x ↔ InForest e x.children
  | .node _ _ children => by
      rw [orderUnder, mem_append, mem_orderBelow_iff children, ← inForest_iff]
      rfl

theorem mem_orderBelow_iff : ∀ es : List DirectoryEntry,
    e ∈ orderBelow es ↔ ∃ x ∈ es, InForest e x.children
  | [] => by simp [orderBelow]
  | x :: es => by
      rw [orderBelow, mem_append, mem_orderUnder_iff x, mem_orderBelow_iff es]
      simp

end

theorem mem_searchOrder_iff : e ∈ searchOrder root ↔ InForest e root := by
  rw [searchOrder, mem_append, mem_orderBelow_iff, ← inForest_iff]

end Forest

/-- `SearchForNode` returns, with an entry that satisfies the predicate if the forest has one, and
with one of the top if there is one there; the search below an entry is that of the forest of its
children. -/
theorem searchForNode_finds (compare : DirectoryEntry → Bool) (root : List DirectoryEntry) :
    ∃ found, searchForNode (fun e => some (compare e)) root = some found ∧
      (∀ e, found = some e → InForest e root ∧ compare e = true) ∧
      (found = none ↔ ∀ e, InForest e root → compare e = false) ∧
      (∀ e, found = some e → (∃ x ∈ root, compare x = true) → e ∈ root) ∧
      ∀ x ∈ root, searchUnder (fun e => some (compare e)) x =
        searchForNode (fun e => some (compare e)) x.children := by
  refine ⟨(searchOrder root).find? compare, ?_, fun e he => ?_, ?_, fun e he htop => ?_,
    fun x _ => ?_⟩
  · rw [searchForNode_eq]
    exact findM?_pure (m := Option) compare _
  · exact ⟨mem_searchOrder_iff.1 (mem_of_find?_eq_some he), find?_some he⟩
  · simp only [find?_eq_none, mem_searchOrder_iff, Bool.not_eq_true]
  · rw [searchOrder, find?_append] at he
    cases hfound : root.find? compare with
    | none =>
      obtain ⟨x, hx, hcompare⟩ := htop
      exact absurd hcompare (find?_eq_none.1 hfound x hx)
    | some y =>
      rw [hfound] at he
      cases he
      exact mem_of_find?_eq_some hfound
  · cases x with
    | node k v children =>
      rfl

/-! ## Looking up a path -/

/-- The entry is the first one with the path in the last mount point with the id. -/
def Found (table : List MountPoint) (id : BitVec 32) (path : CString) (e : DirectoryEntry) : Prop :=
  ∃ point, findMountPoint table id = some point ∧
    IsFirst (fun x => pathStrcmp x.key path) e (searchOrder point.children)

section Lookup

variable {devices : Registry} {table : List MountPoint} {path behind : CString} {e : DirectoryEntry}

theorem pathStrcmp_nil (p : CString) : pathStrcmp p [] = none := by
  rw [pathStrcmp]
  cases dividePathToTokens (p.dropWhile (· = slash)) <;> rfl

/-- The entries that are opened under a mount point. -/
theorem openEntry_eq_entry_iff {rejected : DirentType → Bool} {point : MountPoint} :
    openEntry rejected point path = some (.ok (.entry e)) ↔
      rejected e.value.direntType = false ∧
        IsFirst (fun x => pathStrcmp x.key path) e (searchOrder point.children) := by
  rw [← findM?_eq_some, ← searchForNode_eq, openEntry,
    map_eq_some_iff]
  constructor
  · rintro ⟨found, hfound, h⟩
    cases found with
    | none => cases h
    | some x =>
      simp only at h
      split at h
      · cases h
      · rename_i hrejected
        cases h
        exact ⟨Bool.eq_false_iff.2 hrejected, hfound⟩
  · rintro ⟨hrejected, hfound⟩
    exact ⟨_, hfound, by simp only [hrejected, Bool.false_eq_true, if_false]⟩

/-- The files `FileHandle::Open` opens. -/
theorem fileHandleOpen_eq_entry_iff :
    fileHandleOpen devices table false path behind = some (.ok (.entry e)) ↔
      path.head? ≠ some 0x4b ∧ colon ∈ path ∧ e.value.direntType ≠ .directory ∧
        Found table (getMountId path 0) (realPath path behind) e := by
  rw [fileHandleOpen, if_neg Bool.false_ne_true]
  split
  · rename_i hk
    refine iff_of_false (fun h => ?_) fun h => h.1 hk
    simp only at h
    split at h <;> cases h
  rename_i hk
  rw [and_iff_right hk]
  by_cases hcolon : colon ∈ path
  · cases hpoint : findMountPoint table (getMountId path 0) with
    | none => simp [Found, hpoint, hcolon]
    | some point => simp [Found, hpoint, hcolon, openEntry_eq_entry_iff]
  · simp [hcolon]

/-- The directories `DirectoryIterator::OpenAt` opens. -/
theorem openAt_eq_entry_iff :
    openAt table false path behind = some (.ok (.entry e)) ↔
      colon ∈ path ∧ e.value.direntType = .directory ∧
        Found table (getMountId path 0) (realPath path behind) e := by
  rw [openAt]
  by_cases hcolon : colon ∈ path
  · cases hpoint : findMountPoint table (getMountId path 0) with
    | none => simp [Found, hpoint, hcolon]
    | some point =>
      by_cases hnil : realPath path behind = []
      · simp [Found, IsFirst, hpoint, hcolon, hnil, pathStrcmp_nil]
      · simp [Found, hpoint, hcolon, hnil, openEntry_eq_entry_iff]
  · simp [hcolon]

end Lookup

/-! ## Printed ids -/

section Ids

variable {id : BitVec 32} {c : BitVec 8} {n : Nat}

/-- The characters of a printed number. -/
theorem mem_decimalDigits (hc : c ∈ decimalDigits n) : ∃ k < 10, c = BitVec.ofNat 8 (48 + k) := by
  rw [decimalDigits] at hc
  split at hc
  · exact ⟨0, by omega, mem_singleton.1 hc⟩
  · obtain ⟨k, hk, rfl⟩ := mem_map.1 hc
    exact ⟨k, Nat.digits_lt_base (by omega) (mem_reverse.1 hk), rfl⟩

/-- A number has no other characters than digits. -/
theorem notMem_decimalDigits (hdigit : ∀ k < 10, c ≠ BitVec.ofNat 8 (48 + k)) :
    c ∉ decimalDigits n := by
  intro hc
  obtain ⟨k, hk, rfl⟩ := mem_decimalDigits hc
  exact hdigit k hk rfl

/-- A printed id has digits, and a sign. -/
theorem notMem_printDecimal (hsign : c ≠ 45) (hdigit : ∀ k < 10, c ≠ BitVec.ofNat 8 (48 + k)) :
    c ∉ printDecimal id := by
  intro hc
  rw [printDecimal] at hc
  split at hc
  · rcases mem_cons.1 hc with rfl | hc
    · exact hsign rfl
    · exact notMem_decimalDigits hdigit hc
  · exact notMem_decimalDigits hdigit hc

theorem length_decimalDigits_pos (n : Nat) : 0 < (decimalDigits n).length := by
  rw [decimalDigits]
  split
  · exact Nat.one_pos
  · rename_i hn
    rw [length_map, length_reverse, length_pos_iff]
    exact Nat.digits_ne_nil_iff_ne_zero.2 hn

theorem length_printDecimal_pos (id : BitVec 32) : 0 < (printDecimal id).length := by
  rw [printDecimal]
  split
  · exact Nat.succ_pos _
  · exact length_decimalDigits_pos _

/-- The id is read up to the colon. -/
theorem getMountId_append {s t : CString} (hcolon : colon ∉ s) (hnewline : 0x0a ∉ s)
    (hpos : 0 < s.length) : getMountId (s ++ colon :: t) 0 = getMountId s s.length := by
  have hhead : s.head? ≠ some 0x0a := fun h => hnewline (mem_of_mem_head? h)
  have hne : s ≠ [] := length_pos_iff.1 hpos
  rw [getMountId, getMountId]
  simp only [if_pos, strCountToChar_append hcolon, if_neg hpos.ne', head?_append_of_ne_nil _
    hne, if_neg hhead]
  simp

/-- The value of digits. -/
theorem foldl_digits {ds : List Nat} (hds : ∀ d ∈ ds, d < 10) :
    (ds.reverse.map fun k => BitVec.ofNat 8 (48 + k)).foldl
      (fun ret (c : BitVec 8) => ret * 10 + (c.signExtend 32 - 48)) 0 =
      BitVec.ofNat 32 (Nat.ofDigits 10 ds) := by
  induction ds with
  | nil => rfl
  | cons d ds ih =>
    have hdigit : ∀ d < 10, (BitVec.ofNat 8 (48 + d)).signExtend 32 - 48 = BitVec.ofNat 32 d := by
      decide
    rw [reverse_cons, map_append, foldl_append,
      ih fun d hd => hds d (mem_cons_of_mem _ hd), Nat.ofDigits_cons]
    simp only [map_cons, map_nil, foldl_cons, foldl_nil,
      hdigit d (hds d mem_cons_self)]
    rw [Nat.add_comm, Nat.mul_comm, BitVec.ofNat_add, BitVec.ofNat_mul]
    rfl

/-- A number is read as far as it has digits. -/
theorem getMountId_decimalDigits (n : Nat) (t : CString) :
    getMountId (decimalDigits n ++ t) (decimalDigits n).length = BitVec.ofNat 32 n := by
  have hne : decimalDigits n ≠ [] := length_pos_iff.1 (length_decimalDigits_pos n)
  have hnewline : (decimalDigits n ++ t).head? ≠ some 0x0a := by
    rw [head?_append_of_ne_nil _ hne]
    exact fun h => notMem_decimalDigits (by decide) (mem_of_mem_head? h)
  rw [getMountId]
  simp only [if_neg (length_decimalDigits_pos n).ne', if_neg hnewline, append_assoc,
    take_left]
  rw [decimalDigits]
  split
  · rename_i hzero
    rw [hzero]
    decide
  · rw [foldl_digits fun d hd => Nat.digits_lt_base (by omega) hd, Nat.ofDigits_digits]

end Ids

/-! ## The result -/

/-- The printed path leads back to its entry, whatever is behind it in memory. -/
def Resolves (devices : Registry) (table : List MountPoint) (e : DirectoryEntry) : Prop :=
  ∀ behind, if e.value.direntType = .directory
    then openAt table false (printPath e) behind = some (.ok (.entry e))
    else fileHandleOpen devices table false (printPath e) behind = some (.ok (.entry e))

/-- The number of characters that are lost. -/
def lost (e : DirectoryEntry) : Nat := (printDecimal e.value.mountPoint).length - 1

/-- The condition: without the characters that are lost the path is still equal to that of the
entry, and the last mount point with the id that is read back has no entry before it with an equal
path. -/
structure Addressable (table : List MountPoint) (e : DirectoryEntry) : Prop where
  inside : lost e ≤ e.key.length
  path : pathStrcmp e.key (e.key.drop (lost e)) = some true
  point : ∃ point, findMountPoint table (getMountId (printDecimal e.value.mountPoint)
      (printDecimal e.value.mountPoint).length) = some point ∧ ∃ pre post,
    searchOrder point.children = pre ++ e :: post ∧
      ∀ x ∈ pre, pathStrcmp x.key (e.key.drop (lost e)) = some false

section Printed

variable {devices : Registry} {table : List MountPoint} {e : DirectoryEntry} {behind : CString}

theorem colon_mem_printPath : colon ∈ printPath e := by
  simp [printPath]

theorem head?_printPath : (printPath e).head? ≠ some 0x4b := by
  have hne : printDecimal e.value.mountPoint ≠ [] :=
    length_pos_iff.1 (length_printDecimal_pos _)
  rw [printPath, append_assoc, head?_append_of_ne_nil _ hne]
  exact fun h => notMem_printDecimal (by decide) (by decide) (mem_of_mem_head? h)

/-- The id that is read back. -/
theorem getMountId_printPath : getMountId (printPath e) 0 =
    getMountId (printDecimal e.value.mountPoint) (printDecimal e.value.mountPoint).length := by
  rw [printPath, append_assoc]
  exact getMountId_append (notMem_printDecimal (by decide) (by decide))
    (notMem_printDecimal (by decide) (by decide)) (length_printDecimal_pos _)

/-- The path that is searched for. -/
theorem realPath_printPath : realPath (printPath e) behind =
    if lost e ≤ e.key.length then e.key.drop (lost e) else behind := by
  have hpos := length_printDecimal_pos e.value.mountPoint
  have hcolon : strCountToChar (printPath e) colon = (printDecimal e.value.mountPoint).length := by
    rw [printPath, append_assoc]
    exact strCountToChar_append (notMem_printDecimal (by decide) (by decide))
  have hslash : strCountToChar (printPath e) slash =
      (printDecimal e.value.mountPoint ++ [colon]).length := by
    have hmem : slash ∉ printDecimal e.value.mountPoint ++ [colon] := by
      rw [mem_append, not_or]
      exact ⟨notMem_printDecimal (by decide) (by decide), by decide⟩
    rw [← strCountToChar_append (t := e.key) hmem]
    simp [printPath]
  have hoffset : strCountToChar (printPath e) colon + strCountToChar (printPath e) slash =
      (printDecimal e.value.mountPoint ++ [colon, slash]).length + lost e := by
    simp only [hcolon, hslash, lost, length_append, length_cons, length_nil]
    omega
  simp only [realPath, hoffset]
  rw [printPath, drop_length_add_append]
  simp only [length_append, Nat.add_le_add_iff_left]

/-- Opening a printed path is looking up what is left of it. -/
theorem resolves_iff_found : Resolves devices table e ↔ ∀ behind,
    Found table (getMountId (printDecimal e.value.mountPoint)
      (printDecimal e.value.mountPoint).length)
      (if lost e ≤ e.key.length then e.key.drop (lost e) else behind) e := by
  refine forall_congr' fun behind => ?_
  split
  · rename_i hdir
    rw [openAt_eq_entry_iff, getMountId_printPath, realPath_printPath]
    exact ⟨fun h => h.2.2, fun h => ⟨colon_mem_printPath, hdir, h⟩⟩
  · rename_i hdir
    rw [fileHandleOpen_eq_entry_iff, getMountId_printPath, realPath_printPath]
    exact ⟨fun h => h.2.2.2, fun h => ⟨head?_printPath, colon_mem_printPath, hdir, h⟩⟩

end Printed

/-- The path a directory iterator prints for an entry is resolved to the entry exactly if the entry
is addressable. -/
theorem printed_path_resolves_iff (devices : Registry) (table : List MountPoint)
    (e : DirectoryEntry) : Resolves devices table e ↔ Addressable table e := by
  rw [resolves_iff_found]
  constructor
  · intro h
    by_cases hinside : lost e ≤ e.key.length
    · simp only [if_pos hinside] at h
      obtain ⟨point, hpoint, pre, post, horder, hpath, hpre⟩ := h []
      exact ⟨hinside, hpath, point, hpoint, pre, post, horder, hpre⟩
    · simp only [if_neg hinside] at h
      obtain ⟨point, hpoint, pre, post, horder, hpath, hpre⟩ := h []
      cases (pathStrcmp_nil e.key).symm.trans hpath
  · rintro ⟨hinside, hpath, point, hpoint, pre, post, horder, hpre⟩ behind
    rw [if_pos hinside]
    exact ⟨point, hpoint, pre, post, horder, hpath, hpre⟩

/-- A file `ab` in a mount point with the given id. -/
def fileAb (id : BitVec 32) : DirectoryEntry := .node [97, 98] ⟨0, id, .file, attributesFile, 5⟩ []

/-- The mount point with the id 10 and the file `ab`. -/
def pointTen : MountPoint := ⟨10, true, none, emptyInitrd, [fileAb 10], 0⟩

/-- The path `10:/ab` is looked up as `b`. -/
theorem printed_path_ten_unresolved :
    fileAb 10 ∈ searchOrder pointTen.children ∧ ¬ Resolves emptyRegistry [pointTen]
      (fileAb 10) := by
  refine ⟨mem_cons_self, fun h => ?_⟩
  have hopen : fileHandleOpen emptyRegistry [pointTen] false (printPath (fileAb 10)) [] =
      some (.error .fileNotFound) := rfl
  cases hopen.symm.trans (h [])

/-! ## Opening any path -/

/-- `FileHandle::Open` returns, and what it returns does not depend on the bytes behind the
path. -/
def OpenCompletes (devices : Registry) (table : List MountPoint) (opened : Bool)
    (path : CString) : Prop :=
  ∃ r, ∀ behind, fileHandleOpen devices table opened path behind = some r

section Completes

variable {point : MountPoint} {path : CString}

/-- Two paths can be compared if both have tokens. -/
theorem isSome_pathStrcmp_iff {p : CString} (hp : (dividePathToTokens p).isSome) :
    (pathStrcmp p path).isSome ↔ strlen (path.dropWhile (· = slash)) ≠ 0 := by
  obtain ⟨tokens, htokens⟩ := isSome_iff_exists.1 hp
  rw [pathStrcmp, dividePathToTokens_dropWhile, dividePathToTokens_dropWhile, htokens,
    dividePathToTokens]
  split <;> simp_all

/-- A search whose comparisons all return returns. -/
theorem isSome_findM? {compare : DirectoryEntry → Option Bool} {l : List DirectoryEntry}
    (h : ∀ e ∈ l, (compare e).isSome) : (l.findM? compare).isSome := by
  induction l with
  | nil => rfl
  | cons e l ih =>
    obtain ⟨b, hb⟩ := isSome_iff_exists.1 (h e mem_cons_self)
    rw [findM?, hb]
    cases b with
    | true => rfl
    | false => exact ih fun x hx => h x (mem_cons_of_mem _ hx)

/-- A path is searched for among the entries of a mount point if there are none, or it has
tokens. -/
theorem isSome_openEntry_iff (rejected : DirentType → Bool)
    (hkeys : ∀ e ∈ searchOrder point.children, (dividePathToTokens e.key).isSome) :
    (openEntry rejected point path).isSome ↔
      point.children = [] ∨ strlen (path.dropWhile (· = slash)) ≠ 0 := by
  rw [openEntry, isSome_map, searchForNode_eq]
  constructor
  · intro h
    cases hchildren : point.children with
    | nil => exact .inl rfl
    | cons e es =>
      refine .inr ((isSome_pathStrcmp_iff (hkeys e (by simp [searchOrder, hchildren]))).1 ?_)
      rw [hchildren, searchOrder, cons_append, findM?] at h
      cases hcmp : pathStrcmp e.key path with
      | none => simp [hcmp] at h
      | some b => rfl
  · rintro (h | h)
    · rw [h]
      rfl
    · exact isSome_findM? fun e he => (isSome_pathStrcmp_iff (hkeys e he)).2 h

end Completes

/-- If every entry has a path with tokens, `FileHandle::Open` completes if and only if it has
nothing to search for, or the path has tokens behind the position where the search begins. -/
theorem open_completes_iff (devices : Registry) {table : List MountPoint}
    (hkeys : ∀ point ∈ table, ∀ e ∈ searchOrder point.children, (dividePathToTokens e.key).isSome)
    (opened : Bool) (path : CString) :
    OpenCompletes devices table opened path ↔
      opened = true ∨ path.head? = some 0x4b ∨ colon ∉ path ∨
        ∀ point, findMountPoint table (getMountId path 0) = some point →
          point.children = [] ∨ strlen ((realPath path []).dropWhile (· = slash)) ≠ 0 := by
  by_cases hopened : opened = true
  · exact iff_of_true ⟨_, fun _ => if_pos hopened⟩ (.inl hopened)
  by_cases hdevice : path.head? = some 0x4b
  · exact iff_of_true ⟨_, fun _ => (if_neg hopened).trans (if_pos hdevice)⟩ (.inr (.inl hdevice))
  obtain rfl := Bool.eq_false_iff.2 hopened
  simp only [OpenCompletes, fileHandleOpen, hdevice, Bool.false_eq_true, if_false, false_or]
  by_cases hcolon : colon ∈ path
  swap
  · exact iff_of_true ⟨.error .invalidParameter, by simp [hcolon]⟩ (.inl hcolon)
  cases hpoint : findMountPoint table (getMountId path 0) with
  | none =>
    exact iff_of_true ⟨.error .fileNotFound, by simp [hcolon]⟩ (by simp)
  | some point =>
    have hmem : point ∈ table := mem_reverse.1 (mem_of_find?_eq_some hpoint)
    simp only [contains_iff_mem.2 hcolon, Bool.not_true, Bool.false_eq_true, if_false,
      hcolon, not_true_eq_false, false_or, some.injEq, forall_eq']
    refine ⟨fun ⟨r, hr⟩ => (isSome_openEntry_iff _ (hkeys point hmem)).1 (by rw [hr []]; rfl), ?_⟩
    rintro (h | h)
    · exact ⟨.error .fileNotFound, fun _ => by rw [openEntry, h]; rfl⟩
    · -- the search begins inside the path
      have hsame behind : realPath path behind = realPath path [] := by
        rw [realPath, realPath]
        split
        · rfl
        · rename_i houtside
          rw [realPath, if_neg houtside] at h
          exact absurd rfl h
      obtain ⟨r, hr⟩ := isSome_iff_exists.1
        ((isSome_openEntry_iff (· = .directory) (hkeys point hmem)).2 (.inr h))
      exact ⟨r, fun behind => by rw [hsame, hr]⟩

/-- The mount point with the id 0 and the file `ab`. -/
def pointZero : MountPoint := ⟨0, true, none, emptyInitrd, [fileAb 0], 0⟩

theorem open_completes_iff_ab : OpenCompletes emptyRegistry [pointZero] false (bytes "0:/ab") :=
  (open_completes_iff emptyRegistry (by decide) false _).2
    (.inr (.inr (.inr fun _ _ => .inr (by decide))))

/-- The path `0:/` has no tokens. -/
theorem open_root_not_completes :
    ¬ OpenCompletes emptyRegistry [pointZero] false (bytes "0:/") := by
  rintro ⟨r, hr⟩
  have hopen : fileHandleOpen emptyRegistry [pointZero] false (bytes "0:/") [] = none := rfl
  cases hopen.symm.trans (hr [])

end Obos.Vfs
