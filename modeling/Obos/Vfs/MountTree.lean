import Obos.Lib.Trie
import Obos.Vfs.Path
import Obos.DriverInterface.Register

/-!
# The tree of a mount point

`setupMountPointEntries` asks the filesystem driver for its files and makes an entry for
every part of every path, unless there is one with the same path already. The path of the
last part is the path of the file as it was given, with the slash a directory may have at
its end, and the properties of an entry are those of the file it was made for.

`mountedTree_right_iff` says for which listings the tree is the one the driver describes.
The strings of the first and the last part are not terminated, so that no listing is safe
from what the heap held before; the rest of the statement is about zeroed memory.
-/

namespace Obos.Vfs

open Lib DriverInterface List Trie

/-! ## The program -/

/-- `FILE_DOESNT_EXIST`. -/
def fileDoesntExist : BitVec 32 := 0

/-- `FILE_ATTRIBUTES_DIRECTORY`. -/
def attributesDirectory : BitVec 32 := 4

/-- `FILE_ATTRIBUTES_FILE`. -/
def attributesFile : BitVec 32 := 16

/-- `DirectoryEntryType`. -/
inductive DirentType where
  | invalid
  | file
  | symlink
  | directory
  deriving DecidableEq

/-- The fields of `DirectoryEntry`, without its path and its children. `object` is the address of
the entry, and `mountPoint` the id of the mount point it points to. -/
structure EntryInfo where
  object : Nat
  mountPoint : BitVec 32
  direntType : DirentType
  fileAttrib : BitVec 32
  filesize : BitVec 64
  deriving DecidableEq

/-- `DirectoryEntry`; its key is its path. -/
abbrev DirectoryEntry := Trie CString EntryInfo

/-- What `FileIteratorNext` gives. -/
structure FileReport where
  filepath : CString
  filesize : BitVec 64
  attributes : BitVec 32

/-- What a file iterator gives: its files, whether `FileIteratorNext` succeeds at the end of them,
and whether the iterator can be closed. -/
structure FileIteration where
  files : List FileReport
  ends : Bool
  closes : Bool

/-- A driver identity with the functions of a filesystem. -/
structure FilesystemDriver where
  serviceType : ServiceType
  fileIteratorCreate : BitVec 32 → BitVec 8 → Option FileIteration
  queryFileProperties : CString → BitVec 32 → BitVec 8 → Option (BitVec 64 × BitVec 32)

/-- The errors these functions set. -/
inductive VfsError where
  | alreadyExists
  | invalidParameter
  | notAFilesystemDriver
  | driverFailure
  | alreadyMounted
  | partitionAlreadyMounted
  | unrecognizedPartitionFs
  | openDriveFailed
  | fileNotFound
  | invalidOperationOnObject
  deriving DecidableEq

/-- What the allocators give for the `j`-th part of the `i`-th file: the address of its entry, what
is behind its path up to the next zero, and the byte in front of the copy of its name. -/
structure Heap where
  object : Nat → Nat → Nat
  stale : Nat → Nat → CString
  front : Nat → Nat → BitVec 8

/-- A part of the path of a file: the path that is looked for, the path and the fields of the entry
that is made. -/
structure Part where
  searched : CString
  path : CString
  info : Except VfsError EntryInfo

/-- The mount point that is set up. -/
structure NewMountPoint where
  id : BitVec 32
  isInitrd : Bool
  driveId : BitVec 32
  partitionId : BitVec 8
  filesystemDriver : FilesystemDriver

namespace NewMountPoint

variable (point : NewMountPoint) (heap : Heap)

/-- The size and the attributes of an entry made for a file: those of the file if it is a directory,
and otherwise what the driver says. -/
def properties (file : FileReport) (path : CString) : Except VfsError (BitVec 64 × BitVec 32) :=
  if file.attributes &&& attributesDirectory ≠ 0 then .ok (file.filesize, file.attributes)
  else
    match point.filesystemDriver.queryFileProperties path point.driveId point.partitionId with
    | some properties => .ok properties
    | none => .error .driverFailure

/-- The first part of a path. -/
def firstPart (i : Nat) (file : FileReport) (token : CString) : Part where
  searched := token
  path := copied token ++ heap.stale i 0
  info := do
    let (cFilesize, cFAttributes) ← point.properties file token
    return {
      object := heap.object i 0
      mountPoint := point.id
      direntType :=
        if cFAttributes &&& attributesFile ≠ 0 then .file
        else if cFAttributes &&& attributesDirectory ≠ 0 then .directory
        else .invalid
      fileAttrib := cFAttributes
      filesize := cFilesize }

/-- Another part of a path. -/
def laterPart (i j : Nat) (file : FileReport) (path : CString) : Part where
  searched := path
  path := path
  info := do
    let (cFilesize, cFAttributes) ← point.properties file path
    return {
      object := heap.object i j
      mountPoint := point.id
      direntType := if cFAttributes &&& attributesDirectory ≠ 0 then .directory else .file
      fileAttrib := file.attributes
      filesize := cFilesize }

/-- The tokens with slashes in between, where the first of them is the `j`-th one of the `i`-th
file. There is no slash behind a token that ends with one. -/
def separated (i : Nat) : Nat → List CString → CString
  | _, [] => []
  | _, [token] => copied token
  | j, token :: tokens =>
    copied token ++
      (if (copied token).getLastD (heap.front i j) ≠ slash then [slash] else []) ++
      separated i (j + 1) tokens

/-- The path of a part that is not the first one. -/
def partPath (i j : Nat) (file : FileReport) (tokens : List CString) : CString :=
  if j + 1 = tokens.length then copied file.filepath ++ heap.stale i j
  else separated heap i 0 (tokens.take (j + 1))

/-- The `j`-th part of the path of the `i`-th file. -/
def partAt (i : Nat) (file : FileReport) (tokens : List CString) (j : Nat) : Part :=
  if j = 0 then point.firstPart heap i file (tokens.headD [])
  else point.laterPart heap i j file (partPath heap i j file tokens)

/-- The parts of the path of the `i`-th file. -/
def parts (i : Nat) (file : FileReport) (tokens : List CString) : List Part :=
  (List.range tokens.length).map (point.partAt heap i file tokens)

/-- Go on below the first entry with a path, or append an entry. -/
def linkPart (searched : CString)
    (descend : List DirectoryEntry → Except VfsError (List DirectoryEntry))
    (create : Except VfsError DirectoryEntry) :
    List DirectoryEntry → Except VfsError (List DirectoryEntry)
  | [] => create.map fun e => [e]
  | .node path info children :: rest =>
    if strcmp path searched then (descend children).map fun cs => .node path info cs :: rest
    else (linkPart searched descend create rest).map fun es => .node path info children :: es

/-- The loop over the parts of a path. -/
def linkParts : List Part → List DirectoryEntry → Except VfsError (List DirectoryEntry)
  | [], entries => .ok entries
  | part :: rest, entries =>
    linkPart part.searched (linkParts rest)
      (do
        let info ← part.info
        let children ← linkParts rest []
        return .node part.path info children) entries

/-- The loop over the files, from the `i`-th one on. -/
def linkFiles (ends : Bool) :
    Nat → List FileReport → List DirectoryEntry → Option (Except VfsError (List DirectoryEntry))
  | _, [], entries => some (if ends then .ok entries else .error .driverFailure)
  | i, file :: rest, entries =>
    if file.attributes = fileDoesntExist then some (.ok entries)
    else
      (dividePathToTokens file.filepath).bind fun tokens =>
        match linkParts (point.parts heap i file tokens) entries with
        | .ok entries => linkFiles ends (i + 1) rest entries
        | .error e => some (.error e)

/-- `setupMountPointEntries`: the children of the mount point. -/
def setupMountPointEntries : Option (Except VfsError (List DirectoryEntry)) :=
  let serviceType := if point.isInitrd then ServiceType.initrdFilesystem else .filesystem
  if point.filesystemDriver.serviceType ≠ serviceType then some (.error .notAFilesystemDriver)
  else
    match point.filesystemDriver.fileIteratorCreate point.driveId point.partitionId with
    | none => some (.error .driverFailure)
    | some iterator =>
      (point.linkFiles heap iterator.ends 0 iterator.files []).map fun r =>
        r.bind fun entries => if iterator.closes then .ok entries else .error .driverFailure

end NewMountPoint

open NewMountPoint (linkFiles linkPart linkParts)

/-! ## Listings -/

/-- A file or directory of a filesystem, as its driver lists it. -/
structure ListedFile where
  names : List CString
  trailingSlash : Bool
  filesize : BitVec 64
  attributes : BitVec 32

namespace ListedFile

/-- The path the driver gives. -/
def filepath (x : ListedFile) : CString :=
  joinPath x.names ++ List.replicate (if x.trailingSlash then 1 else 0) slash

/-- What `FileIteratorNext` gives for it. -/
def report (x : ListedFile) : FileReport := ⟨x.filepath, x.filesize, x.attributes⟩

/-- The driver says that it is a directory. -/
def isDirectory (x : ListedFile) : Bool := x.attributes &&& attributesDirectory ≠ 0

/-- The type of its entry. -/
def direntType (x : ListedFile) : DirentType := if x.isDirectory then .directory else .file

end ListedFile

/-- A listing: every file and every directory once, with the directories above it, and a slash at
the end of directories only. -/
structure IsListing (files : List ListedFile) : Prop where
  nonempty : ∀ x ∈ files, x.names ≠ []
  isComponent : ∀ x ∈ files, ∀ n ∈ x.names, IsComponent n
  once : (files.map ListedFile.names).Nodup
  parent : ∀ x ∈ files, 2 ≤ x.names.length →
    ∃ d ∈ files, d.names = x.names.dropLast ∧ d.isDirectory = true
  kind : ∀ x ∈ files, (x.attributes &&& attributesFile ≠ 0) ↔ x.isDirectory = false
  trailing : ∀ x ∈ files, x.trailingSlash = true → x.isDirectory = true

/-- A listing in which `strlen` sees every name to its end. -/
structure IsPlainListing (files : List ListedFile) : Prop extends IsListing files where
  no_one : ∀ x ∈ files, ∀ n ∈ x.names, 1 ∉ n

theorem IsPlainListing.isName {files : List ListedFile} (h : IsPlainListing files) :
    ∀ x ∈ files, ∀ n ∈ x.names, IsName n :=
  fun x hx n hn => ⟨h.isComponent x hx n hn, h.no_one x hx n hn⟩

/-- The driver of a mount point gives a listing, and answers for every path in it. -/
structure NewMountPoint.Lists (point : NewMountPoint) (files : List ListedFile) : Prop where
  serviceType : point.filesystemDriver.serviceType =
    if point.isInitrd then .initrdFilesystem else .filesystem
  iterator : point.filesystemDriver.fileIteratorCreate point.driveId point.partitionId =
    some ⟨files.map ListedFile.report, true, true⟩
  query : ∀ x ∈ files, point.filesystemDriver.queryFileProperties (joinPath x.names) point.driveId
    point.partitionId = some (x.filesize, x.attributes)

/-- The path of an entry, given with the paths of the entries above it. -/
def ownPath (paths : List CString) : CString := paths.getLastD []

/-- The entry is the one of a file: it has its path, its type, attributes and size, and the entry
above it has the path of the directory the file is in. -/
structure EntryOf (x : ListedFile) (e : List CString × EntryInfo) : Prop where
  path : pathStrcmp (ownPath e.1) (joinPath x.names) = some true
  direntType : e.2.direntType = x.direntType
  fileAttrib : e.2.fileAttrib = x.attributes
  filesize : e.2.filesize = x.filesize
  parent : if e.1.length = 1 then x.names.length = 1
    else pathStrcmp (ownPath e.1.dropLast) (joinPath x.names.dropLast) = some true

/-- The tree has one entry for each file and directory, and each entry is that of its file. -/
structure RightTree (files : List ListedFile) (tree : List DirectoryEntry) : Prop where
  once : ∀ x ∈ files, ((Trie.forest tree).countP fun e =>
    pathStrcmp (ownPath e.1) (joinPath x.names) = some true) = 1
  entries : ∀ e ∈ Trie.forest tree, ∃ x ∈ files, EntryOf x e

/-- The condition: a directory with a slash at its end that is not at the top has nothing in it, and
a directory whose entry is made for a file in it is at the top, or the file is a directory with the
same properties. -/
def Unambiguous (files : List ListedFile) : Prop :=
  ∀ d ∈ files, d.isDirectory = true →
    (d.trailingSlash = true → 2 ≤ d.names.length →
      ∀ x ∈ files, d.names <+: x.names → x.names = d.names) ∧
    ∀ x, files.find? (fun y => d.names.isPrefixOf y.names) = some x →
      x.names = d.names ∨
      (x.isDirectory = true ∧ x.attributes = d.attributes ∧ x.filesize = d.filesize) ∨
      (x.isDirectory = false ∧ d.names.length = 1)

/-! ## Zeroed memory -/

open NewMountPoint

section Link

/-- One part, where its path is compared as a whole and nothing fails. -/
theorem linkPart_eq_update {k : CString} (hone : 1 ∉ k)
    {descend : List DirectoryEntry → Except VfsError (List DirectoryEntry)}
    {f : List DirectoryEntry → List DirectoryEntry} (hdescend : ∀ es, descend es = .ok (f es))
    (new : DirectoryEntry) (entries : List DirectoryEntry) :
    linkPart k descend (.ok new) entries = .ok (Trie.update k f new entries) := by
  induction entries with
  | nil => rfl
  | cons e entries ih =>
    obtain ⟨path, info, children⟩ := e
    simp only [linkPart, update, strcmp_eq path hone, decide_eq_true_eq,
      hdescend, ih]
    split <;> rfl

/-- A part is that of a node of a chain. -/
structure Part.Makes (p : Part) (a : CString × EntryInfo) : Prop where
  searched : p.searched = a.1
  path : p.path = a.1
  no_one : 1 ∉ a.1
  info : p.info = .ok a.2

/-- Where every part has the path that is looked for, and the driver answers, linking is an
insertion. -/
theorem linkParts_eq_insert {ps : List Part} {c : List (CString × EntryInfo)}
    (h : List.Forall₂ Part.Makes ps c) (entries : List DirectoryEntry) :
    linkParts ps entries = .ok (Trie.insert c entries) := by
  induction h generalizing entries with
  | nil => rfl
  | @cons p a ps c hp _ ih =>
    rw [linkParts, hp.searched, hp.path, hp.info, ih]
    exact linkPart_eq_update hp.no_one ih _ _

end Link

/-! ## The chain of a file -/

/-- The paths down to a directory or file, the last of them with a slash at the end or not. -/
def keysOf (names : List CString) (slashed : Bool) : List CString :=
  (List.range names.length).map fun j => joinPath (names.take (j + 1)) ++
    List.replicate (if slashed ∧ j + 1 = names.length then 1 else 0) slash

section Keys

variable {names other : List CString} {slashed slashed' : Bool}

@[simp] theorem length_keysOf : (keysOf names slashed).length = names.length := by
  simp [keysOf]

theorem ownPath_keysOf (hne : names ≠ []) : ownPath (keysOf names slashed) =
    joinPath names ++ replicate (if slashed then 1 else 0) slash := by
  obtain ⟨n, hn⟩ : ∃ n, names.length = n + 1 :=
    Nat.exists_eq_succ_of_ne_zero fun h => hne (length_eq_zero_iff.1 h)
  rw [ownPath, keysOf, hn, range_succ]
  simp [← hn]

/-- The paths above it. -/
theorem dropLast_keysOf : (keysOf names slashed).dropLast = keysOf names.dropLast false := by
  rw [keysOf, keysOf, ← map_dropLast, length_dropLast]
  cases hn : names.length with
  | zero => rfl
  | succ n =>
    rw [range_succ, dropLast_concat]
    refine map_congr_left fun j hj => ?_
    rw [mem_range] at hj
    rw [dropLast_eq_take, take_take, hn, Nat.add_sub_cancel, Nat.min_eq_left hj]
    have hlt : j + 1 ≠ n + 1 := by omega
    simp only [hlt, and_false, if_false, Bool.false_eq_true, false_and]

theorem pathStrcmp_keysOf (hnames : ∀ n ∈ names, IsName n) (hne : names ≠ [])
    (hother : ∀ n ∈ other, IsName n) (hne' : other ≠ []) :
    pathStrcmp (ownPath (keysOf names slashed)) (joinPath other) =
      some (decide (names = other)) := by
  have h := pathStrcmp_join hnames hne hother hne' (if slashed then 1 else 0) 0
  rw [replicate_zero, append_nil] at h
  rw [ownPath_keysOf hne, h]

/-- The paths determine the names and the slash. -/
theorem keysOf_inj (hnames : ∀ n ∈ names, IsName n) (hne : names ≠ [])
    (hother : ∀ n ∈ other, IsName n) (hne' : other ≠ [])
    (h : keysOf names slashed = keysOf other slashed') : names = other ∧ slashed = slashed' := by
  have hown := congrArg ownPath h
  rw [ownPath_keysOf hne, ownPath_keysOf hne'] at hown
  have heq : names = other := by
    have htokens := congrArg dividePathToTokens hown
    rw [dividePathToTokens_join hne hnames, dividePathToTokens_join hne' hother] at htokens
    exact Option.some.inj htokens
  subst heq
  refine ⟨rfl, ?_⟩
  have hlen := congrArg length hown
  cases slashed <;> cases slashed' <;> simp at hlen ⊢

end Keys

/-- The entry of the file at the given depth has a slash at its end. -/
def ListedFile.slashedAt (x : ListedFile) (j : Nat) : Bool :=
  x.trailingSlash && j + 1 = x.names.length && 2 ≤ x.names.length

/-- The node a part makes. -/
def Part.made (p : Part) : CString × EntryInfo :=
  (p.path, match p.info with
    | .ok info => info
    | .error _ => ⟨0, 0, .invalid, 0, 0⟩)

/-- The nodes of the parts of a listed file. -/
def NewMountPoint.chainOf (point : NewMountPoint) (heap : Heap) (i : Nat) (x : ListedFile) :
    List (CString × EntryInfo) :=
  (point.parts heap i x.report x.names).map Part.made

namespace IsListing

variable {files : List ListedFile} {x y d : ListedFile}

theorem eq_of_names (h : IsListing files) (hx : x ∈ files) (hy : y ∈ files)
    (heq : x.names = y.names) : x = y :=
  inj_on_of_nodup_map h.once hx hy heq

/-- The directories above a file are listed. -/
theorem exists_above (h : IsListing files) (hx : x ∈ files) {j : Nat} (hj : j < x.names.length) :
    ∃ d ∈ files, d.names = x.names.take (j + 1) ∧
      (j + 1 < x.names.length → d.isDirectory = true) := by
  obtain ⟨k, hk⟩ : ∃ k, x.names.length = j + 1 + k := ⟨_, (Nat.add_sub_of_le hj).symm⟩
  -- from the file up, one directory after the other
  induction k generalizing x with
  | zero => exact ⟨x, hx, by rw [take_of_length_le (by omega)], fun hlt => by omega⟩
  | succ k ih =>
    obtain ⟨d, hd, hnames, hdir⟩ := h.parent x hx (by omega)
    have hlen : d.names.length = j + 1 + k := by
      rw [hnames, length_dropLast]
      omega
    obtain ⟨e, he, heq, hedir⟩ := ih hd (by omega) hlen
    have htake : e.names = x.names.take (j + 1) := by
      rw [heq, hnames, dropLast_eq_take, take_take, Nat.min_eq_left (by omega)]
    refine ⟨e, he, htake, fun _ => ?_⟩
    by_cases hlt : j + 1 < d.names.length
    · exact hedir hlt
    · have hed : e = d := h.eq_of_names he hd (by rw [heq, take_of_length_le (by omega)])
      rw [hed, hdir]

/-- What is above a file, or is the file itself, is a directory if the file is one. -/
theorem isDirectory_above (h : IsListing files) (hx : x ∈ files) (hd : d ∈ files) {j : Nat}
    (hj : j < x.names.length) (hnames : d.names = x.names.take (j + 1))
    (hdir : x.isDirectory = true ∨ j + 1 < x.names.length) : d.isDirectory = true := by
  by_cases hlt : j + 1 < x.names.length
  · obtain ⟨e, he, heq, hedir⟩ := h.exists_above hx hj
    rw [h.eq_of_names hd he (hnames.trans heq.symm)]
    exact hedir hlt
  · have hself : d = x := h.eq_of_names hd hx (by rw [hnames, take_of_length_le (by omega)])
    rw [hself]
    exact hdir.resolve_right hlt

theorem report_exists (h : IsListing files) (hx : x ∈ files) :
    x.report.attributes ≠ fileDoesntExist := by
  intro hzero
  have hattr : x.attributes = 0 := hzero
  have hkind := h.kind x hx
  simp [ListedFile.isDirectory, hattr] at hkind

end IsListing

section Parts

variable {point : NewMountPoint} {heap : Heap} {files : List ListedFile} {x d : ListedFile}
    {i j : Nat}

/-- The fields of the entry that is made at a depth for a file, where `d` is what is listed
there. -/
structure InfoFor (x d : ListedFile) (j : Nat) (info : EntryInfo) : Prop where
  direntType : info.direntType = d.direntType
  fileAttrib : info.fileAttrib =
    if x.isDirectory = true ∨ j ≠ 0 then x.attributes else d.attributes
  filesize : info.filesize = if x.isDirectory = true then x.filesize else d.filesize

theorem Part.Makes.made_eq {p : Part} {a : CString × EntryInfo} (h : p.Makes a) : p.made = a := by
  rw [Part.made, h.path, h.info]

/-- Names are separated by slashes. -/
theorem separated_eq {names : List CString} (hnames : ∀ n ∈ names, IsName n) {j : Nat} :
    separated heap i j names = joinPath names := by
  induction names generalizing j with
  | nil => rfl
  | cons first rest ih =>
    have hfirst := hnames first mem_cons_self
    have hcopied := copied_eq hfirst.no_one
    cases rest with
    | nil => simp [separated, hcopied]
    | cons second rest =>
      have hlast : first.getLastD (heap.front i j) ≠ slash := by
        rw [getLastD_eq_getLast?, getLast?_eq_some_getLast hfirst.nonempty]
        exact fun heq => hfirst.no_slash (heq ▸ getLast_mem _)
      rw [separated, ih fun n hn => hnames n (mem_cons_of_mem _ hn), hcopied,
        if_pos hlast, joinPath_cons_cons, append_assoc, singleton_append]
      nofun

theorem chainOf_eq : point.chainOf heap i x = (range x.names.length).map fun j =>
    (point.partAt heap i x.report x.names j).made := by
  rw [chainOf, parts, map_map]
  rfl

variable (h : IsPlainListing files)
include h

/-- The type that goes with the attributes of a listed file. -/
theorem direntType_eq (hd : d ∈ files) :
    (if d.attributes &&& attributesFile ≠ 0 then DirentType.file
      else if d.attributes &&& attributesDirectory ≠ 0 then .directory else .invalid) =
      d.direntType ∧
    (if d.attributes &&& attributesDirectory ≠ 0 then DirentType.directory else .file) =
      d.direntType := by
  have htype : (if d.attributes &&& attributesDirectory ≠ 0 then DirentType.directory else .file) =
      d.direntType := by
    simp [ListedFile.direntType, ListedFile.isDirectory]
  refine ⟨?_, htype⟩
  rw [← htype]
  have hkind := h.kind d hd
  by_cases hfile : d.attributes &&& attributesFile ≠ 0
  · rw [if_pos hfile, if_neg (of_decide_eq_false (hkind.1 hfile))]
  · have hdir : d.attributes &&& attributesDirectory ≠ 0 := fun h0 =>
      hfile (hkind.2 (decide_eq_false (not_not.2 h0)))
    rw [if_neg hfile, if_pos hdir, if_pos hdir]

variable (hp : point.Lists files)
include hp

/-- The properties of an entry are those of the file, or of what is listed at its path. -/
theorem properties_eq (hx : x ∈ files) (hd : d ∈ files) (hj : j < x.names.length)
    (hnames : d.names = x.names.take (j + 1)) {path : CString}
    (hpath : x.isDirectory = false → path = joinPath d.names) :
    ∃ y ∈ files, point.properties x.report path = .ok (y.filesize, y.attributes) ∧
      y.direntType = d.direntType ∧ y = if x.isDirectory = true then x else d := by
  by_cases hdir : x.isDirectory = true
  · refine ⟨x, hx, if_pos (of_decide_eq_true hdir), ?_, (if_pos hdir).symm⟩
    rw [ListedFile.direntType, ListedFile.direntType, hdir,
      h.isDirectory_above hx hd hj hnames (.inl hdir)]
  · have hfile := Bool.eq_false_iff.2 hdir
    refine ⟨d, hd, ?_, rfl, (if_neg hdir).symm⟩
    rw [properties, hpath hfile, hp.query d hd]
    exact if_neg (of_decide_eq_false hfile)

variable (hheap : ∀ i j, heap.stale i j = [])
include hheap

/-- What is made at the top for a listed file. -/
theorem makes_firstPart (hx : x ∈ files) (hd : d ∈ files) (hnames : d.names = x.names.take 1) :
    ∃ info, InfoFor x d 0 info ∧
      (point.firstPart heap i x.report (x.names.headD [])).Makes (joinPath d.names, info) := by
  obtain ⟨first, rest, hcons⟩ := exists_cons_of_ne_nil (h.nonempty x hx)
  have hpath : x.names.headD [] = joinPath d.names := by
    simp [hnames, hcons]
  have hone : 1 ∉ joinPath d.names := one_notMem_joinPath (h.isName d hd)
  obtain ⟨y, hy, hprops, htype, hsource⟩ :=
    properties_eq h hp hx hd (by simp [hcons]) hnames fun _ => hpath
  refine ⟨⟨heap.object i 0, point.id, y.direntType, y.attributes, y.filesize⟩, ⟨htype, ?_, ?_⟩,
    hpath, ?_, hone, ?_⟩
  · rw [hsource]
    simp only [ne_eq, not_true_eq_false, or_false]
    split <;> rfl
  · rw [hsource]
    split <;> rfl
  · rw [firstPart, hheap, append_nil, hpath, copied_eq hone]
  · simp only [firstPart, hprops, bind, Except.bind, (direntType_eq h hy).1]
    rfl

/-- What is made further down for a listed file. -/
theorem makes_laterPart (hx : x ∈ files) (hd : d ∈ files) (hj : j < x.names.length) (hpos : j ≠ 0)
    (hnames : d.names = x.names.take (j + 1)) :
    ∃ info, InfoFor x d j info ∧ (point.laterPart heap i j x.report
      (partPath heap i j x.report x.names)).Makes
      (joinPath d.names ++ replicate (if x.slashedAt j then 1 else 0) slash, info) := by
  have hpath : partPath heap i j x.report x.names =
      joinPath d.names ++ replicate (if x.slashedAt j then 1 else 0) slash := by
    unfold partPath
    split
    · rename_i hlast
      rw [hheap, hnames, take_of_length_le (by omega), ListedFile.report, ListedFile.filepath,
        copied_eq (one_notMem_append (h.isName x hx) _)]
      simp [ListedFile.slashedAt, hlast, show 2 ≤ x.names.length by omega]
    · rename_i hlast
      rw [← hnames, separated_eq (h.isName d hd)]
      simp [ListedFile.slashedAt, hlast]
  have hone := one_notMem_append (h.isName d hd) (if x.slashedAt j then 1 else 0)
  have hplain (hdir : x.isDirectory = false) :
      partPath heap i j x.report x.names = joinPath d.names := by
    have hslash : x.trailingSlash = false := Bool.eq_false_iff.2 fun ht => by
      rw [h.trailing x hx ht] at hdir
      cases hdir
    rw [hpath, ListedFile.slashedAt, hslash]
    simp
  obtain ⟨y, hy, hprops, htype, hsource⟩ := properties_eq h hp hx hd hj hnames hplain
  refine ⟨⟨heap.object i j, point.id, y.direntType, x.attributes, y.filesize⟩, ⟨htype, ?_, ?_⟩,
    hpath, hpath, hone, ?_⟩
  · rw [if_pos (.inr hpos)]
  · rw [hsource]
    split <;> rfl
  · simp only [laterPart, hprops, bind, Except.bind, (direntType_eq h hy).2]
    rfl

/-- What is made for a listed file. -/
theorem makes_partAt (hx : x ∈ files) (hd : d ∈ files) (hj : j < x.names.length)
    (hnames : d.names = x.names.take (j + 1)) :
    ∃ info, InfoFor x d j info ∧ (point.partAt heap i x.report x.names j).Makes
      (joinPath d.names ++ replicate (if x.slashedAt j then 1 else 0) slash, info) := by
  unfold partAt
  by_cases hpos : j = 0
  · subst hpos
    have hslash : x.slashedAt 0 = false := by
      simp only [ListedFile.slashedAt, Bool.and_eq_false_iff, decide_eq_false_iff_not]
      omega
    simpa [hslash] using makes_firstPart h hp hheap hx hd hnames
  · rw [if_neg hpos]
    exact makes_laterPart h hp hheap hx hd hj hpos hnames

/-- The paths of the nodes of a listed file, down to a depth. -/
theorem take_chainOf (hx : x ∈ files) (hj : j < x.names.length) :
    ((point.chainOf heap i x).map Prod.fst).take (j + 1) =
      keysOf (x.names.take (j + 1)) (x.slashedAt j) := by
  rw [chainOf_eq, keysOf, map_map, ← map_take, take_range, length_take]
  refine map_congr_left fun l hl => ?_
  rw [mem_range] at hl
  obtain ⟨d, hd, hnames, -⟩ := h.exists_above hx (show l < x.names.length by omega)
  obtain ⟨info, -, hmakes⟩ := makes_partAt (i := i) h hp hheap hx hd (by omega) hnames
  have hslash :
      x.slashedAt l = decide (x.slashedAt j = true ∧ l + 1 = min (j + 1) x.names.length) := by
    rw [Bool.eq_iff_iff]
    simp only [ListedFile.slashedAt, Bool.and_eq_true, decide_eq_true_eq]
    constructor
    · rintro ⟨⟨ht, hlast⟩, htwo⟩
      exact ⟨⟨⟨ht, by omega⟩, htwo⟩, by omega⟩
    · rintro ⟨⟨⟨ht, hlast⟩, htwo⟩, heq⟩
      exact ⟨⟨ht, by omega⟩, htwo⟩
  rw [Function.comp_apply, hmakes.made_eq, hnames, take_take, Nat.min_eq_left (by omega),
    hslash]
  simp

variable {ks : List CString} {v : EntryInfo}

/-- The nodes of a listed file. -/
theorem valueAt_chainOf (hx : x ∈ files) :
    Trie.valueAt (point.chainOf heap i x) ks = some v ↔ ∃ j < x.names.length,
      ks = keysOf (x.names.take (j + 1)) (x.slashedAt j) ∧
        (point.partAt heap i x.report x.names j).made.2 = v := by
  rw [valueAt_eq_some_iff]
  have hlen : (point.chainOf heap i x).length = x.names.length := by
    simp [chainOf_eq]
  constructor
  · rintro ⟨j, hj, rfl, hv⟩
    rw [hlen] at hj
    refine ⟨j, hj, take_chainOf h hp hheap hx hj, ?_⟩
    simpa [chainOf_eq] using hv
  · rintro ⟨j, hj, rfl, hv⟩
    refine ⟨j, hlen ▸ hj, (take_chainOf h hp hheap hx hj).symm, ?_⟩
    simpa [chainOf_eq] using hv

/-- Linking a listed file is inserting its chain. -/
theorem linkParts_listed (hx : x ∈ files) (entries : List DirectoryEntry) :
    linkParts (point.parts heap i x.report x.names) entries =
      .ok (Trie.insert (point.chainOf heap i x) entries) := by
  refine linkParts_eq_insert ?_ entries
  rw [chainOf, parts, forall₂_map_right_iff, forall₂_same]
  intro p hmem
  obtain ⟨j, hj, rfl⟩ := mem_map.1 hmem
  rw [mem_range] at hj
  obtain ⟨d, hd, hnames, -⟩ := h.exists_above hx hj
  obtain ⟨info, -, hmakes⟩ := makes_partAt (i := i) h hp hheap hx hd hj hnames
  rw [hmakes.made_eq]
  exact hmakes

/-- The chains of listed files, the first of which is the `i`-th one. -/
def NewMountPoint.chainsOf (point : NewMountPoint) (heap : Heap) (i : Nat) (xs : List ListedFile) :
    List (List (CString × EntryInfo)) :=
  (xs.zipIdx i).map fun x => point.chainOf heap x.2 x.1

/-- The loop over a listing inserts the chains of its files. -/
theorem linkFiles_listed {xs : List ListedFile} (hxs : xs ⊆ files) (entries : List DirectoryEntry) :
    point.linkFiles heap true i (xs.map ListedFile.report) entries =
      some (.ok ((point.chainsOf heap i xs).foldl (fun ts c => Trie.insert c ts) entries)) := by
  induction xs generalizing i entries with
  | nil => rfl
  | cons x xs ih =>
    obtain ⟨hx, hxs⟩ := cons_subset.1 hxs
    have hexists := h.report_exists hx
    have htokens : dividePathToTokens x.report.filepath = some x.names :=
      dividePathToTokens_join (h.nonempty x hx) (h.isName x hx) _
    rw [map_cons, linkFiles, if_neg hexists, htokens, Option.bind_some,
      linkParts_listed h hp hheap hx]
    exact ih hxs _

/-- The tree of a listing. -/
def NewMountPoint.treeOf (point : NewMountPoint) (heap : Heap) (files : List ListedFile) :
    List DirectoryEntry :=
  Trie.build (point.chainsOf heap 0 files)

theorem setupMountPointEntries_eq :
    point.setupMountPointEntries heap = some (.ok (point.treeOf heap files)) := by
  have hlink := linkFiles_listed (i := 0) h hp hheap (List.Subset.refl files) []
  simp only [setupMountPointEntries, hp.serviceType, ne_eq, not_true_eq_false,
    if_false, hp.iterator, hlink]
  rfl

/-- There is a node for a file at the end of the given paths. -/
def ListedFile.Reaches (x : ListedFile) (ks : List CString) : Prop :=
  ∃ j < x.names.length, ks = keysOf (x.names.take (j + 1)) (x.slashedAt j)

theorem valueAt_chainOf_eq_none (hx : x ∈ files) :
    Trie.valueAt (point.chainOf heap i x) ks = none ↔ ¬ x.Reaches ks := by
  rw [Option.eq_none_iff_forall_ne_some]
  constructor
  · rintro hnone ⟨j, hj, hks⟩
    exact hnone _ ((valueAt_chainOf h hp hheap hx).2 ⟨j, hj, hks, rfl⟩)
  · intro hnot v hv
    obtain ⟨j, hj, hks, -⟩ := (valueAt_chainOf h hp hheap hx).1 hv
    exact hnot ⟨j, hj, hks⟩

/-- The first file that has a node there gives it its fields. -/
theorem findSome_chainsOf :
    (point.chainsOf heap 0 files).findSome? (fun c => Trie.valueAt c ks) = some v ↔
      ∃ pre x post, files = pre ++ x :: post ∧ (∀ y ∈ pre, ¬ y.Reaches ks) ∧
        Trie.valueAt (point.chainOf heap pre.length x) ks = some v := by
  rw [chainsOf, findSome?_map, findSome?_eq_some_iff]
  constructor
  · rintro ⟨l, a, l', heq, hval, hnone⟩
    obtain ⟨pre, post, hfiles, rfl, hpost⟩ := zipIdx_eq_append_iff.1 heq
    obtain ⟨x, post, rfl, rfl, -⟩ := zipIdx_eq_cons_iff.1 hpost.symm
    refine ⟨pre, x, post, hfiles, fun y hy => ?_, by simpa using hval⟩
    rw [← zipIdx_map_fst 0 pre] at hy
    obtain ⟨⟨y, k⟩, hk, rfl⟩ := mem_map.1 hy
    exact (valueAt_chainOf_eq_none h hp hheap
      (by simp [hfiles, fst_mem_of_mem_zipIdx hk])).1 (hnone _ hk)
  · rintro ⟨pre, x, post, hfiles, hpre, hval⟩
    refine ⟨pre.zipIdx, (x, pre.length), post.zipIdx (pre.length + 1), ?_, hval, fun y hy => ?_⟩
    · simp [hfiles, zipIdx_append]
    · have hmem := fst_mem_of_mem_zipIdx hy
      exact (valueAt_chainOf_eq_none h hp hheap (by simp [hfiles, hmem])).2 (hpre _ hmem)

/-- An entry of the tree is made for the first file that has a node there. -/
theorem mem_treeOf (hmem : (ks, v) ∈ Trie.forest (point.treeOf heap files)) :
    ∃ pre x post j d, files = pre ++ x :: post ∧ (∀ y ∈ pre, ¬ y.Reaches ks) ∧ j < x.names.length ∧
      d ∈ files ∧ d.names = x.names.take (j + 1) ∧ ks = keysOf d.names (x.slashedAt j) ∧
      InfoFor x d j v := by
  rw [treeOf, mem_forest_build, findSome_chainsOf h hp hheap] at hmem
  obtain ⟨pre, x, post, heq, hpre, hval⟩ := hmem
  have hx : x ∈ files := by
    simp [heq]
  obtain ⟨j, hj, hks, hv⟩ := (valueAt_chainOf h hp hheap hx).1 hval
  obtain ⟨d, hd, hnames, -⟩ := h.exists_above hx hj
  obtain ⟨info, hinfo, hmakes⟩ := makes_partAt h hp hheap hx hd hj hnames
  rw [hmakes.made_eq] at hv
  exact ⟨pre, x, post, j, d, heq, hpre, hj, hd, hnames, hnames ▸ hks, hv ▸ hinfo⟩

/-- The first file that has a node somewhere makes an entry there. -/
theorem exists_mem_treeOf {pre post : List ListedFile} (heq : files = pre ++ x :: post)
    (hj : j < x.names.length) (hd : d ∈ files) (hnames : d.names = x.names.take (j + 1))
    (hpre : ∀ y ∈ pre, ¬ y.Reaches (keysOf d.names (x.slashedAt j))) :
    ∃ v, (keysOf d.names (x.slashedAt j), v) ∈ Trie.forest (point.treeOf heap files) ∧
      InfoFor x d j v := by
  have hx : x ∈ files := by
    simp [heq]
  obtain ⟨info, hinfo, hmakes⟩ := makes_partAt (i := pre.length) h hp hheap hx hd hj hnames
  refine ⟨info, ?_, hinfo⟩
  rw [treeOf, mem_forest_build, findSome_chainsOf h hp hheap]
  refine ⟨pre, x, post, heq, hpre, (valueAt_chainOf h hp hheap hx).2 ⟨j, hj, by rw [hnames], ?_⟩⟩
  rw [hmakes.made_eq]

end Parts

/-! ## The right tree -/

section Right

variable {point : NewMountPoint} {heap : Heap} {files : List ListedFile} {x y d : ListedFile}

/-- The entry of a file has a slash at its end. -/
def ListedFile.slashed (x : ListedFile) : Bool := x.slashedAt (x.names.length - 1)

/-- Keys that occur once are found once. -/
theorem countP_eq_one {α β : Type} [DecidableEq α] {l : List (α × β)} (hl : (l.map Prod.fst).Nodup)
    {p : α × β → Bool} {a : α} (ha : a ∈ l.map Prod.fst) (hp : ∀ e ∈ l, p e = true ↔ e.1 = a) :
    l.countP p = 1 := by
  have hcount := count_eq_one_of_mem hl ha
  rw [count, countP_map] at hcount
  rw [← hcount]
  refine countP_congr fun e he => ?_
  simpa using hp e he

/-- Elements that are found once are equal. -/
theorem eq_of_countP_eq_one {α : Type} {l : List α} {p : α → Bool} (hl : l.countP p = 1) {a b : α}
    (ha : a ∈ l) (hpa : p a = true) (hb : b ∈ l) (hpb : p b = true) : a = b := by
  rw [countP_eq_length_filter] at hl
  obtain ⟨c, hc⟩ := length_eq_one_iff.1 hl
  have hac : a ∈ l.filter p := mem_filter.2 ⟨ha, hpa⟩
  have hbc : b ∈ l.filter p := mem_filter.2 ⟨hb, hpb⟩
  rw [hc, mem_singleton] at hac hbc
  rw [hac, hbc]

theorem slashedAt_above (hlt : d.names ≠ y.names) (hle : d.names <+: y.names) :
    y.slashedAt (d.names.length - 1) = false := by
  have hlen : d.names.length ≠ y.names.length := fun heq => hlt (hle.eq_of_length heq)
  simp only [ListedFile.slashedAt, Bool.and_eq_false_iff, decide_eq_false_iff_not]
  omega

theorem slashed_iff : d.slashed = true ↔ d.trailingSlash = true ∧ 2 ≤ d.names.length := by
  simp only [ListedFile.slashed, ListedFile.slashedAt, Bool.and_eq_true, decide_eq_true_eq]
  constructor
  · rintro ⟨⟨ht, -⟩, htwo⟩
    exact ⟨ht, htwo⟩
  · rintro ⟨ht, htwo⟩
    exact ⟨⟨ht, by omega⟩, htwo⟩

variable (h : IsPlainListing files)
include h

/-- Only a file itself has its path, with a slash at the end or not. -/
theorem IsPlainListing.pathStrcmp_iff (hd : d ∈ files) (hx : x ∈ files) {b : Bool} :
    pathStrcmp (ownPath (keysOf d.names b)) (joinPath x.names) = some true ↔ d = x := by
  rw [pathStrcmp_keysOf (h.isName d hd) (h.nonempty d hd) (h.isName x hx) (h.nonempty x hx),
    Option.some.injEq, decide_eq_true_eq]
  exact ⟨h.eq_of_names hd hx, congrArg ListedFile.names⟩

/-- A file has a node where a directory or file above it has one. -/
theorem ListedFile.Reaches.isPrefix (hy : y ∈ files) (hd : d ∈ files) {b : Bool}
    (hreaches : y.Reaches (keysOf d.names b)) :
    d.names <+: y.names ∧ b = y.slashedAt (d.names.length - 1) := by
  obtain ⟨l, hl, hks⟩ := hreaches
  have hne : y.names.take (l + 1) ≠ [] := by
    simp [h.nonempty y hy]
  obtain ⟨hnames, hb⟩ := keysOf_inj (h.isName d hd) (h.nonempty d hd)
    (fun n hn => h.isName y hy n (mem_of_mem_take hn)) hne hks
  refine ⟨hnames ▸ List.take_prefix _ _, ?_⟩
  have hlen : d.names.length - 1 = l := by
    rw [hnames, length_take]
    omega
  rw [hb, hlen]

theorem take_of_isPrefix (hd : d ∈ files) (hle : d.names <+: y.names) :
    d.names.length - 1 < y.names.length ∧ d.names = y.names.take (d.names.length - 1 + 1) := by
  have hpos := length_pos_of_ne_nil (h.nonempty d hd)
  have hlen := hle.length_le
  refine ⟨by omega, ?_⟩
  rw [Nat.sub_add_cancel hpos]
  exact prefix_iff_eq_take.1 hle

/-- A file has a node wherever a directory or file above it has one, if that has no slash at its
end. -/
theorem reaches_of_isPrefix (hy : y ∈ files) (hd : d ∈ files) (hle : d.names <+: y.names)
    (hslashed : d.slashed = false) : y.Reaches (keysOf d.names false) := by
  obtain ⟨hlt, htake⟩ := take_of_isPrefix h hd hle
  refine ⟨d.names.length - 1, hlt, ?_⟩
  rw [← htake]
  by_cases heq : d.names = y.names
  · rw [← h.eq_of_names hd hy heq]
    exact congrArg _ hslashed.symm
  · rw [slashedAt_above heq hle]

/-- What is made for a file with its own names, or for one below it in an unambiguous listing, has
the properties of the file. -/
theorem Unambiguous.infoFor (hu : Unambiguous files) {pre post : List ListedFile}
    (heq : files = pre ++ x :: post) (hd : d ∈ files) {j : Nat} (hj : j < x.names.length)
    (hnames : d.names = x.names.take (j + 1))
    (hpre : ∀ y ∈ pre, ¬ y.Reaches (keysOf d.names (x.slashedAt j))) {v : EntryInfo}
    (hv : InfoFor x d j v) : v.fileAttrib = d.attributes ∧ v.filesize = d.filesize := by
  have hx : x ∈ files := by
    simp [heq]
  rw [hv.fileAttrib, hv.filesize]
  by_cases hself : d.names = x.names
  · rw [h.eq_of_names hd hx hself]
    simp
  · -- the file is the first one listed below the directory
    have hlt : j + 1 < x.names.length := by
      by_contra hge
      exact hself (by rw [hnames, take_of_length_le (by omega)])
    have hdir := h.isDirectory_above hx hd hj hnames (.inr hlt)
    have hle : d.names <+: x.names := hnames ▸ List.take_prefix _ _
    have hslashed : d.slashed = false := Bool.eq_false_iff.2 fun hs => by
      obtain ⟨ht, htwo⟩ := slashed_iff.1 hs
      exact hself ((hu d hd hdir).1 ht htwo x hx hle).symm
    have hlen : d.names.length = j + 1 := by
      rw [hnames, length_take]
      omega
    have hflag : x.slashedAt j = false := by
      have := slashedAt_above hself hle
      rwa [hlen] at this
    have hfirst : files.find? (fun y => d.names.isPrefixOf y.names) = some x := by
      refine find?_eq_some_iff_append.2 ⟨List.isPrefixOf_iff_prefix.2 hle, pre, post, heq, ?_⟩
      intro y hy
      rw [Bool.not_eq_true', ← Bool.not_eq_true, List.isPrefixOf_iff_prefix]
      intro hley
      refine hpre y hy ?_
      rw [hflag]
      exact reaches_of_isPrefix h (by simp [heq, hy]) hd hley hslashed
    rcases (hu d hd hdir).2 x hfirst with hnames' | ⟨hxdir, hattr, hsize⟩ | ⟨hxfile, hone⟩
    · exact absurd hnames'.symm hself
    · simp [hxdir, hattr, hsize]
    · have hzero : j = 0 := by omega
      simp [hxfile, hzero]

variable (hp : point.Lists files) (hheap : ∀ i j, heap.stale i j = [])
include hp hheap

/-- The tree has an entry wherever a file has a node. -/
theorem mem_chains_treeOf {ks : List CString} :
    ks ∈ Trie.chains (point.treeOf heap files) ↔ ∃ y ∈ files, y.Reaches ks := by
  classical
  constructor
  · intro hmem
    obtain ⟨v, hv⟩ := mem_chains.1 hmem
    obtain ⟨pre, x, post, j, d, heq, -, hj, -, hnames, hks, -⟩ := mem_treeOf h hp hheap hv
    exact ⟨x, by simp [heq], j, hj, hnames ▸ hks⟩
  · rintro ⟨y, hy, hreaches⟩
    -- the first file that has a node there
    have hsome : (files.find? fun z : ListedFile => decide (z.Reaches ks)).isSome :=
      find?_isSome.2 ⟨y, hy, decide_eq_true hreaches⟩
    obtain ⟨x, hfirst⟩ := Option.isSome_iff_exists.1 hsome
    obtain ⟨hx, pre, post, heq, hpre⟩ := find?_eq_some_iff_append.1 hfirst
    obtain ⟨j, hj, hks⟩ := of_decide_eq_true hx
    have hmem : x ∈ files := by
      simp [heq]
    obtain ⟨d, hd, hnames, -⟩ := h.exists_above hmem hj
    rw [← hnames] at hks
    subst hks
    obtain ⟨v, hv, -⟩ := exists_mem_treeOf h hp hheap heq hj hd hnames fun z hz => by
      simpa using hpre z hz
    exact mem_chains.2 ⟨v, hv⟩

/-- The entries with the path of a file have the paths down to it, with a slash at the end or
not. -/
theorem mem_chains_path {ks : List CString} (hks : ks ∈ Trie.chains (point.treeOf heap files)) :
    ∃ d ∈ files, ∃ b, ks = keysOf d.names b ∧
      ∀ x ∈ files, pathStrcmp (ownPath ks) (joinPath x.names) = some true ↔ d = x := by
  obtain ⟨v, hv⟩ := mem_chains.1 hks
  obtain ⟨pre, y, post, j, d, heq, -, hj, hd, hnames, rfl, -⟩ := mem_treeOf h hp hheap hv
  exact ⟨d, hd, _, rfl, fun x hx => h.pathStrcmp_iff hd hx⟩

/-- In an unambiguous listing every file has one entry. -/
theorem Unambiguous.once (hu : Unambiguous files) (hx : x ∈ files) :
    ((Trie.forest (point.treeOf heap files)).countP fun e =>
      pathStrcmp (ownPath e.1) (joinPath x.names) = some true) = 1 := by
  have hown : keysOf x.names x.slashed ∈ chains (point.treeOf heap files) := by
    refine (mem_chains_treeOf h hp hheap).2 ⟨x, hx, x.names.length - 1, ?_, ?_⟩
    · exact Nat.sub_lt (length_pos_of_ne_nil (h.nonempty x hx)) Nat.one_pos
    · rw [take_of_length_le (by omega)]
      rfl
  refine countP_eq_one (distinct_build _) hown fun e he => ?_
  obtain ⟨ks, v⟩ := e
  have hks := mem_chains.2 ⟨v, he⟩
  obtain ⟨d, hd, b, rfl, hpath⟩ := mem_chains_path h hp hheap hks
  rw [decide_eq_true_eq, hpath x hx]
  constructor
  · rintro rfl
    obtain ⟨y, hy, hreaches⟩ := (mem_chains_treeOf h hp hheap).1 hks
    obtain ⟨hle, hb⟩ := hreaches.isPrefix h hy hd
    by_cases heq : d.names = y.names
    · rw [hb, h.eq_of_names hd hy heq]
      rfl
    · -- a slash at the end would have kept it empty
      have hslashed : d.slashed = false := Bool.eq_false_iff.2 fun hs => by
        obtain ⟨ht, htwo⟩ := slashed_iff.1 hs
        exact heq ((hu d hd (h.trailing d hd ht)).1 ht htwo y hy hle).symm
      rw [hb, hslashed, slashedAt_above heq hle]
  · intro heq
    exact h.eq_of_names hd hx (keysOf_inj (h.isName d hd) (h.nonempty d hd) (h.isName x hx)
      (h.nonempty x hx) heq).1

/-- The tree of an unambiguous listing is right. -/
theorem Unambiguous.rightTree (hu : Unambiguous files) :
    RightTree files (point.treeOf heap files) := by
  refine ⟨fun x hx => hu.once h hp hheap hx, ?_⟩
  rintro ⟨ks, v⟩ hmem
  obtain ⟨pre, x, post, j, d, heq, hpre, hj, hd, hnames, rfl, hv⟩ := mem_treeOf h hp hheap hmem
  obtain ⟨hattr, hsize⟩ := hu.infoFor h heq hd hj hnames hpre hv
  have hne := h.nonempty d hd
  refine ⟨d, hd, (h.pathStrcmp_iff hd hd).2 rfl, hv.direntType, hattr, hsize, ?_⟩
  simp only [length_keysOf]
  split
  · assumption
  · have hpos := length_pos_of_ne_nil hne
    obtain ⟨e, he, hparent, -⟩ := h.parent d hd (by omega)
    rw [dropLast_keysOf, ← hparent]
    exact (h.pathStrcmp_iff he he).2 rfl

/-- In a right tree nothing is below a directory with a slash at its end that is not at the top. -/
theorem RightTree.empty_of_slashed (hr : RightTree files (point.treeOf heap files)) (hd : d ∈ files)
    (hs : d.slashed = true) (hx : x ∈ files) (hle : d.names <+: x.names) : x.names = d.names := by
  by_contra hne
  have hmem (b : Bool) (y : ListedFile) (hy : y ∈ files) (hley : d.names <+: y.names)
      (hb : b = y.slashedAt (d.names.length - 1)) :
      ∃ v, (keysOf d.names b, v) ∈ forest (point.treeOf heap files) := by
    obtain ⟨hlt, htake⟩ := take_of_isPrefix h hd hley
    refine mem_chains.1 ((mem_chains_treeOf h hp hheap).2 ⟨y, hy, _, hlt, ?_⟩)
    rw [← htake, hb]
  obtain ⟨v, hv⟩ := hmem true d hd (prefix_refl _) hs.symm
  obtain ⟨w, hw⟩ := hmem false x hx hle
    (slashedAt_above (fun heq => hne heq.symm) hle).symm
  have hpath (b : Bool) : decide (pathStrcmp (ownPath (keysOf d.names b)) (joinPath d.names) =
      some true) = true := decide_eq_true ((h.pathStrcmp_iff hd hd).2 rfl)
  have heq := eq_of_countP_eq_one (hr.once d hd) hv (hpath true) hw (hpath false)
  have hkeys := keysOf_inj (h.isName d hd) (h.nonempty d hd) (h.isName d hd) (h.nonempty d hd)
    (congrArg Prod.fst heq)
  cases hkeys.2

/-- A listing whose tree is right is unambiguous. -/
theorem RightTree.unambiguous (hr : RightTree files (point.treeOf heap files)) :
    Unambiguous files := by
  intro d hd hdir
  refine ⟨fun ht htwo x hx hle => ?_, fun x hfirst => ?_⟩
  · exact hr.empty_of_slashed h hp hheap hd (slashed_iff.2 ⟨ht, htwo⟩) hx hle
  · by_cases heq : x.names = d.names
    · exact .inl heq
    refine .inr ?_
    obtain ⟨hle, pre, post, happend, hpre⟩ := find?_eq_some_iff_append.1 hfirst
    rw [List.isPrefixOf_iff_prefix] at hle
    obtain ⟨hlt, htake⟩ := take_of_isPrefix h hd hle
    obtain ⟨v, hv, hinfo⟩ :=
      exists_mem_treeOf h hp hheap happend hlt hd htake fun y hy hreaches => by
      obtain ⟨hley, -⟩ := hreaches.isPrefix h (by simp [happend, hy]) hd
      have hnot := hpre y hy
      rw [List.isPrefixOf_iff_prefix.2 hley] at hnot
      cases hnot
    obtain ⟨e, he, hentry⟩ := hr.entries _ hv
    obtain rfl := (h.pathStrcmp_iff hd he).1 hentry.path
    have hattr := hinfo.fileAttrib.symm.trans hentry.fileAttrib
    have hsize := hinfo.filesize.symm.trans hentry.filesize
    cases hxdir : x.isDirectory with
    | true =>
      simp only [hxdir, true_or, if_true] at hattr hsize
      exact .inl ⟨rfl, hattr, hsize⟩
    | false =>
      refine .inr ⟨rfl, ?_⟩
      have hpos := length_pos_of_ne_nil (h.nonempty d hd)
      by_contra hlen
      rw [if_pos (.inr (by omega))] at hattr
      rw [ListedFile.isDirectory, hattr] at hxdir
      rw [ListedFile.isDirectory, hxdir] at hdir
      cases hdir

end Right

/-! ## Memory that is not zeroed -/

section Stale

variable {point : NewMountPoint} {heap : Heap} {files : List ListedFile} {x : ListedFile}

/-- The first entry has the given path. -/
def FirstPath (path : CString) (entries : List DirectoryEntry) : Prop :=
  ∃ info children rest, entries = .node path info children :: rest

variable {entries : List DirectoryEntry}

/-- Linking appends entries, so that the first one keeps its path. -/
theorem FirstPath.linkParts {path : CString} {entries' : List DirectoryEntry}
    (h : FirstPath path entries) {ps : List Part}
    (heq : NewMountPoint.linkParts ps entries = .ok entries') : FirstPath path entries' := by
  obtain ⟨info, children, rest, rfl⟩ := h
  cases ps with
  | nil =>
    cases heq
    exact ⟨info, children, rest, rfl⟩
  | cons p ps =>
    revert heq
    rw [linkParts, linkPart]
    split
    · cases linkParts ps children with
      | error e => nofun
      | ok cs =>
        intro heq
        cases heq
        exact ⟨info, cs, rest, rfl⟩
    · cases linkPart p.searched (linkParts ps) _ rest with
      | error e => nofun
      | ok es =>
        intro heq
        cases heq
        exact ⟨info, children, es, rfl⟩

/-- The loop over the files keeps the path of the first entry. -/
theorem FirstPath.linkFiles {path : CString} {ends : Bool} {reports : List FileReport} {i : Nat}
    {entries' : List DirectoryEntry} (h : FirstPath path entries)
    (heq : point.linkFiles heap ends i reports entries = some (.ok entries')) :
    FirstPath path entries' := by
  induction reports generalizing i entries with
  | nil =>
    rw [linkFiles] at heq
    split at heq <;> cases heq
    exact h
  | cons file reports ih =>
    rw [linkFiles] at heq
    split at heq
    · cases heq
      exact h
    · obtain ⟨tokens, -, heq⟩ := Option.bind_eq_some_iff.1 heq
      split at heq
      · rename_i hlink
        exact ih (h.linkParts hlink) heq
      · cases heq

/-- The first part of a path makes the first entry. -/
theorem firstPath_linkParts {file : FileReport} {tokens : List CString} (hne : tokens ≠ [])
    {i : Nat} (heq : linkParts (point.parts heap i file tokens) [] = .ok entries) :
    FirstPath (copied (tokens.headD []) ++ heap.stale i 0) entries := by
  obtain ⟨first, rest, rfl⟩ := exists_cons_of_ne_nil hne
  rw [parts, length_cons, range_succ_eq_map, map_cons, partAt, if_pos rfl,
    linkParts] at heq
  revert heq
  cases (point.firstPart heap i file _).info with
  | error e => nofun
  | ok info =>
    cases linkParts _ [] with
    | error e => nofun
    | ok children =>
      intro heq
      cases heq
      exact ⟨info, children, [], rfl⟩

theorem headD_take_append {names rest : List CString} (hne : names ≠ []) {n : Nat} (hn : 0 < n) :
    ((names ++ rest).take n).headD [] = names.headD [] := by
  obtain ⟨first, names, rfl⟩ := exists_cons_of_ne_nil hne
  obtain ⟨m, rfl⟩ := Nat.exists_eq_succ_of_ne_zero hn.ne'
  rfl

/-- A copy can go on. -/
theorem isName_copied_append {n : CString} (hn : IsComponent n) (k : Nat) :
    IsName (copied n ++ replicate (k + 1) 65) where
  nonempty := by
    simp
  no_slash hmem := by
    rcases mem_append.1 hmem with hmem | hmem
    · exact hn.no_slash (mem_of_mem_take hmem)
    · exact absurd (eq_of_mem_replicate hmem) (by decide)
  no_one hmem := by
    rcases mem_append.1 hmem with hmem | hmem
    · exact one_notMem_copied n hmem
    · exact absurd (eq_of_mem_replicate hmem) (by decide)

/-- The first entry has the first name of the first file, with what the memory behind it held. -/
theorem firstPath_setupMountPointEntries (h : IsListing (x :: files))
    (hp : point.Lists (x :: files)) {tree : List DirectoryEntry}
    (heq : point.setupMountPointEntries heap = some (.ok tree)) :
    FirstPath (copied (x.names.headD []) ++ heap.stale 0 0) tree := by
  have hx : x ∈ x :: files := mem_cons_self
  simp only [setupMountPointEntries, hp.serviceType, ne_eq, not_true_eq_false,
    if_false, hp.iterator] at heq
  obtain ⟨r, hlink, hr⟩ := Option.map_eq_some_iff.1 heq
  rw [map_cons, linkFiles, if_neg (h.report_exists hx)] at hlink
  obtain ⟨tokens, htokens, hlink⟩ := Option.bind_eq_some_iff.1 hlink
  obtain ⟨n, hn, rfl⟩ := dividePathToTokens_take (h.nonempty x hx) (h.isComponent x hx) htokens
  split at hlink
  · rename_i entries hfirst
    have hpath := firstPath_linkParts (by simp [h.nonempty x hx]; omega) hfirst
    rw [headD_take_append (h.nonempty x hx) hn] at hpath
    cases r with
    | error e => cases hr
    | ok es =>
      cases hr
      exact hpath.linkFiles hlink
  · cases hlink
    cases hr

/-- No listed name is as long as the path of the first entry, if enough is left in memory. -/
theorem exists_wrong (h : IsListing (x :: files)) (hp : point.Lists (x :: files)) :
    ∃ heap : Heap, ∀ tree, point.setupMountPointEntries heap = some (.ok tree) →
      ¬ RightTree (x :: files) tree := by
  let longest := ((x :: files).flatMap ListedFile.names).flatten.length
  let heap : Heap := ⟨fun _ _ => 0, fun _ _ => replicate (longest + 1) 65, fun _ _ => 0⟩
  refine ⟨heap, fun tree heq hr => ?_⟩
  obtain ⟨info, children, rest, rfl⟩ := firstPath_setupMountPointEntries h hp heq
  obtain ⟨y, hy, hentry⟩ := hr.entries ([_], info)
    (mem_forest_cons.2 (.inl (mem_entries.2 (.inl ⟨rfl, rfl⟩))))
  have hx : x ∈ x :: files := mem_cons_self
  obtain ⟨first, names, hcons⟩ := exists_cons_of_ne_nil (h.nonempty x hx)
  have hname : IsName (copied first ++ replicate (longest + 1) 65) :=
    isName_copied_append (h.isComponent x hx first (by simp [hcons])) _
  have hpath := hentry.path
  rw [hcons] at hpath
  refine pathStrcmp_ne_of_length hname (h.nonempty y hy) (h.isComponent y hy) (fun n hn => ?_) hpath
  have hlen : n.length ≤ longest :=
    (sublist_flatten_of_mem (mem_flatMap.2 ⟨y, hy, hn⟩)).length_le
  rw [length_append, length_replicate]
  omega

end Stale

/-! ## The result -/

theorem rightTree_nil : RightTree [] [] :=
  ⟨nofun, nofun⟩

/-- `setupMountPointEntries` makes the right tree out of any memory if nothing is listed, and out of
zeroed memory, for names without the byte `strlen` stops at, if the listing is unambiguous. -/
theorem mountedTree_right_iff (point : NewMountPoint) (files : List ListedFile)
    (h : IsListing files) (hp : point.Lists files) :
    ((∀ heap : Heap, ∃ tree, point.setupMountPointEntries heap = some (.ok tree) ∧
        RightTree files tree) ↔ files = []) ∧
    ∀ heap : Heap, (∀ i j, heap.stale i j = []) → (∀ x ∈ files, ∀ n ∈ x.names, 1 ∉ n) →
      ((∃ tree, point.setupMountPointEntries heap = some (.ok tree) ∧ RightTree files tree) ↔
        Unambiguous files) := by
  refine ⟨⟨fun hright => ?_, fun hnil => ?_⟩, fun heap hheap hone => ?_⟩
  · cases files with
    | nil => rfl
    | cons x files =>
      obtain ⟨heap, hwrong⟩ := exists_wrong h hp
      obtain ⟨tree, heq, hr⟩ := hright heap
      exact absurd hr (hwrong tree heq)
  · subst hnil
    intro heap
    refine ⟨[], ?_, rightTree_nil⟩
    simp only [setupMountPointEntries, hp.serviceType, ne_eq, not_true_eq_false,
      if_false, hp.iterator]
    rfl
  · have hplain : IsPlainListing files := ⟨h, hone⟩
    rw [setupMountPointEntries_eq hplain hp hheap]
    constructor
    · rintro ⟨tree, heq, hr⟩
      cases heq
      exact hr.unambiguous hplain hp hheap
    · intro hu
      exact ⟨_, rfl, hu.rightTree hplain hp hheap⟩

/-- A driver that gives the listed files and answers for their paths. -/
def listingDriver (files : List ListedFile) : FilesystemDriver where
  serviceType := .filesystem
  fileIteratorCreate _ _ := some ⟨files.map ListedFile.report, true, true⟩
  queryFileProperties path _ _ :=
    (files.find? fun x => joinPath x.names = path).map fun x => (x.filesize, x.attributes)

/-- The first partition of the first drive, mounted with such a driver. -/
def listingPoint (files : List ListedFile) : NewMountPoint := ⟨0, false, 0, 0, listingDriver files⟩

/-- Zeroed memory. -/
def zeroedHeap : Heap := ⟨fun i j => 2 ^ i * 3 ^ j, fun _ _ => [], fun _ _ => 0⟩

/-- `a`, the empty directory `a/b` with a slash at its end, and the file `a/c`. -/
def emptyDirListing : List ListedFile :=
  [⟨[[97]], false, 0, attributesDirectory⟩, ⟨[[97], [98]], true, 0, attributesDirectory⟩,
    ⟨[[97], [99]], false, 5, attributesFile⟩]

theorem isListing_emptyDirListing : IsListing emptyDirListing :=
  ⟨by decide, by decide, by decide, by decide, by decide, by decide⟩

theorem mountedTree_right_iff_emptyDirListing :
    (∃ tree, (listingPoint emptyDirListing).setupMountPointEntries zeroedHeap = some (.ok tree) ∧
      RightTree emptyDirListing tree) ↔ Unambiguous emptyDirListing :=
  (mountedTree_right_iff (listingPoint emptyDirListing) emptyDirListing isListing_emptyDirListing
    ⟨rfl, rfl, by decide⟩).2 zeroedHeap (fun _ _ => rfl) (by decide)

/-- `a`, the directory `a/b` with a slash at its end, and the file `a/b/c`. -/
def slashedListing : List ListedFile :=
  [⟨[[97]], false, 0, attributesDirectory⟩, ⟨[[97], [98]], true, 0, attributesDirectory⟩,
    ⟨[[97], [98], [99]], false, 5, attributesFile⟩]

theorem isListing_slashedListing : IsListing slashedListing :=
  ⟨by decide, by decide, by decide, by decide, by decide, by decide⟩

/-- The directory with the slash gets a second entry, without the slash, for the file in it. -/
theorem mountedTree_slashedListing_wrong :
    IsListing slashedListing ∧ (listingPoint slashedListing).Lists slashedListing ∧
    ∃ tree, (listingPoint slashedListing).setupMountPointEntries zeroedHeap = some (.ok tree) ∧
      ¬ RightTree slashedListing tree := by
  refine ⟨isListing_slashedListing, ⟨rfl, rfl, by decide⟩, _, rfl, fun hr => ?_⟩
  have honce := hr.once ⟨[[97], [98]], true, 0, attributesDirectory⟩ (by simp [slashedListing])
  revert honce
  decide

end Obos.Vfs
