import Obos.Lib.DLists
import Obos.Lib.Run
import Obos.Vfs.DriveHandle
import Obos.Vfs.DrivePath

/-!
# The handles of drives and partitions

Every drive and every partition has a list of the handles that refer to it, from which its driver
finds them when the drive goes away. A handle of a partition is on two lists, through two nodes.
`OpenDrive` puts the handle on the list of the drive before it looks for the partition, and leaves
the node of the partition without its handle: the lists are right in every run that opens no
partition, and any other call of `OpenDrive` that finds a drive breaks them
(`referenced_while_no_partition`).
-/

namespace Obos.Vfs

open Lib Function List

/-! ## The program -/

/-- `PartitionEntry`, at its address. -/
structure PartitionObject extends Volume where
  address : Nat

/-- `DriveEntry`, at its address. -/
structure DriveObject where
  address : Nat
  driveId : BitVec 32
  partitions : List PartitionObject

/-- A drive without the addresses. -/
def DriveObject.disk (drive : DriveObject) : Disk :=
  ⟨drive.driveId, drive.partitions.map PartitionObject.toVolume⟩

/-- `HandleList`. -/
structure HandleList extends Ends Nat where
  size : Nat

/-- The fields of a `DriveHandle`, with the addresses of what it points at. -/
structure HandleFields where
  node : Nat
  handleNode : Nat
  driveNode : Nat
  driveHandleNode : Nat
  flags : BitVec 32
  deriving DecidableEq

/-- `FLAGS_CAN_WRITE`. -/
def flagsCanWrite : BitVec 32 := 1

/-- `FLAGS_CLOSED`. -/
def flagsClosed : BitVec 32 := 2

/-- The fields of a new handle. -/
def HandleFields.new : HandleFields := ⟨0, 0, 0, 0, flagsClosed⟩

/-- What keeps `OpenDrive` from opening a handle. -/
def HandleFields.inUse (h : HandleFields) : Bool := h.node ≠ 0 || h.flags &&& flagsClosed = 0

/-- What the other calls ask of a handle. -/
def HandleFields.isOpen (h : HandleFields) : Bool := h.node ≠ 0 && h.flags &&& flagsClosed = 0

@[simp] theorem HandleFields.isOpen_new : HandleFields.new.isOpen = false := by decide

@[simp] theorem HandleFields.inUse_new : HandleFields.new.inUse = false := by decide

/-- The nodes of the lists with their fields, the lists of the drives and partitions, and the
handles, by their addresses. -/
structure HandleState where
  links : LinkFields Nat
  handle : Nat → Nat
  lists : Nat → HandleList
  handles : Nat → HandleFields
  allocated : Nat → Bool

namespace HandleState

/-- No handle is open. -/
def initial : HandleState where
  links := ⟨fun _ => 0, fun _ => 0⟩
  handle _ := 0
  lists _ := ⟨⟨0, 0⟩, 0⟩
  handles _ := .new
  allocated _ := false

/-- `new HandleListNode`. -/
def newNode (s : HandleState) (node : Nat) : HandleState :=
  { s with
    links := ⟨update s.links.next node 0, update s.links.prev node 0⟩
    handle := update s.handle node 0
    allocated := update s.allocated node true }

/-- A node is put at the end of the list of a drive or partition. -/
def append (s : HandleState) (device node : Nat) : HandleState :=
  let l := (s.links.through (s.lists device).toEnds).pushBack 0 node
  { s with
    links := l.links
    lists := update s.lists device ⟨l.ends, ((s.lists device).size + 1) % 2 ^ 64⟩ }

/-- A node is taken out of the list of a drive or partition, and deleted. -/
def remove (s : HandleState) (device node : Nat) : HandleState :=
  let l := (s.links.through (s.lists device).toEnds).unlink 0 node
  { s with
    links := l.links
    lists := update s.lists device ⟨l.ends, ((s.lists device).size + 2 ^ 64 - 1) % 2 ^ 64⟩
    allocated := update s.allocated node false }

/-- The handle that opens a drive is put on its list. -/
def linkDrive (s : HandleState) (hnd : Nat) (drive : DriveObject) (dnode : Nat) : HandleState :=
  let s := s.newNode dnode
  let s := { s with handle := update s.handle dnode hnd }
  let s := s.append drive.address dnode
  { s with
    handles := update s.handles hnd
      { s.handles hnd with driveHandleNode := dnode, driveNode := drive.address } }

/-- The flags of an open handle. -/
def openFlags (readOnly : Bool) : BitVec 32 := if readOnly then 0 else flagsCanWrite

/-- `DriveHandle::OpenDrive`: the error, and the state after it. The addresses are those of the
handle and of the nodes it allocates. -/
def openDrive (drives : List DriveObject) (s : HandleState) (hnd : Nat) (path : Option CString)
    (readOnly : Bool) (dnode pnode : Nat) : Option VfsError × HandleState :=
  if (s.handles hnd).inUse then (some .alreadyExists, s)
  else match path with
  | none => (some .invalidParameter, s)
  | some path =>
    if path.head? ≠ some 0x44 then (some .invalidParameter, s)
    else
      let target := driveTarget path
      match drives.find? fun drive => drive.driveId = target.driveId with
      | none => (some .fileNotFound, s)
      | some drive =>
        let s := s.linkDrive hnd drive dnode
        match target.partitionId with
        | none =>
          (none, { s with
            handles := update s.handles hnd
              { s.handles hnd with node := drive.address, flags := openFlags readOnly } })
        | some partitionId =>
          match drive.partitions.find? fun part => part.partitionId = partitionId with
          | none => (some .fileNotFound, s)
          | some part =>
            -- the source sets the handle of `dnode` once more here, not that of `pnode`
            let s := { s.newNode pnode with
              handle := update (s.newNode pnode).handle dnode hnd }
            let s := s.append part.address pnode
            (none, { s with
              handles := update s.handles hnd
                { s.handles hnd with
                  flags := openFlags readOnly
                  node := part.address
                  handleNode := pnode } })

/-- `DriveHandle::Close`. -/
def close (s : HandleState) (hnd : Nat) : Option DriveError × HandleState :=
  let h := s.handles hnd
  if !h.isOpen then (some .unopenedHandle, s)
  else
    let s := s.remove h.driveNode h.driveHandleNode
    let s := if h.node ≠ h.driveNode then s.remove h.node h.handleNode else s
    (none, { s with handles := update s.handles hnd .new })

end HandleState

/-! ## What the lists are for -/

/-- The list of a drive or partition consists of the nodes, and has their number as its size. -/
def HandleState.ListOf (s : HandleState) (device : Nat) (nodes : List Nat) : Prop :=
  (s.links.through (s.lists device).toEnds).IsList 0 nodes ∧
    (s.lists device).size = nodes.length

/-- The list has exactly one node for each of the handles, and no other. -/
def HandleState.ListsHandles (s : HandleState) (device : Nat) (refers : HandleFields → Prop) :
    Prop :=
  ∃ nodes, s.ListOf device nodes ∧ (nodes.map s.handle).Nodup ∧
    ∀ hnd, hnd ∈ nodes.map s.handle ↔ (s.handles hnd).isOpen ∧ refers (s.handles hnd)

/-- The lists of all drives and partitions consist of the handles that are open on them. -/
def HandleState.Referenced (drives : List DriveObject) (s : HandleState) : Prop :=
  ∀ drive ∈ drives,
    s.ListsHandles drive.address (fun h => h.node = drive.address ∨
      ∃ part ∈ drive.partitions, h.node = part.address) ∧
    ∀ part ∈ drive.partitions, s.ListsHandles part.address fun h => h.node = part.address

/-- The drives and partitions are at different addresses. -/
structure Apart (drives : List DriveObject) : Prop where
  ne : ∀ drive ∈ drives, ∀ drive' ∈ drives, ∀ part ∈ drive'.partitions,
    drive.address ≠ part.address
  ne_zero : ∀ drive ∈ drives, drive.address ≠ 0

/-- The calls of the interface, with the addresses of new nodes. -/
inductive HandleCall where
  | openDrive (hnd : Nat) (path : Option CString) (readOnly : Bool) (dnode pnode : Nat)
  | close (hnd : Nat)

/-- A node that is allocated now. -/
def HandleState.Fresh (s : HandleState) (node : Nat) : Prop :=
  node ≠ 0 ∧ node < 2 ^ 64 ∧ s.allocated node = false

/-- A call is made, on an object and with new nodes. -/
inductive HandleStep (drives : List DriveObject) :
    HandleState → HandleCall → HandleState → Prop where
  | openDrive {s : HandleState} {hnd dnode pnode : Nat} {path : Option CString} {readOnly : Bool}
      (hhnd : hnd ≠ 0) (hdnode : s.Fresh dnode) (hpnode : s.Fresh pnode) (hne : dnode ≠ pnode) :
      HandleStep drives s (.openDrive hnd path readOnly dnode pnode)
        (s.openDrive drives hnd path readOnly dnode pnode).2
  | close {s : HandleState} {hnd : Nat} : HandleStep drives s (.close hnd) (s.close hnd).2

/-- The call comes to look for a partition: the handle is not in use, and the path names a partition
of a drive that is there. -/
def SeeksPartition (drives : List DriveObject) (s : HandleState) : HandleCall → Prop
  | .openDrive hnd path _ _ _ => (s.handles hnd).inUse = false ∧ ∃ p ∈ path, p.head? = some 0x44 ∧
      (driveTarget p).partitionId ≠ none ∧
      ∃ drive ∈ drives, drive.driveId = (driveTarget p).driveId
  | .close _ => False

/-- The path names a partition that its drive does not have. -/
def MissingPartition (drives : List DriveObject) (path : Option CString) : Prop :=
  ∃ p ∈ path, p.head? = some 0x44 ∧ ∃ partitionId, (driveTarget p).partitionId = some partitionId ∧
    ∃ drive, drives.find? (fun drive => drive.driveId = (driveTarget p).driveId) = some drive ∧
      drive.partitions.find? (fun part => part.partitionId = partitionId) = none

namespace HandleState

/-! ## The outcomes of `OpenDrive` -/

section Outcome

variable (drives : List DriveObject) (s : HandleState) (hnd : Nat) (path : Option CString)
  (readOnly : Bool) (dnode pnode : Nat)

/-- What `OpenDrive` may come to. -/
inductive OpenOutcome : Option VfsError × HandleState → Prop where
  | refused (e : VfsError)
      (hseeks : ¬ SeeksPartition drives s (.openDrive hnd path readOnly dnode pnode)) :
      OpenOutcome (some e, s)
  | drive {drive : DriveObject} (hdrive : drive ∈ drives) (hclosed : (s.handles hnd).inUse = false)
      (hseeks : ¬ SeeksPartition drives s (.openDrive hnd path readOnly dnode pnode)) :
      OpenOutcome (none, { s.linkDrive hnd drive dnode with
        handles := update (s.linkDrive hnd drive dnode).handles hnd
          { (s.linkDrive hnd drive dnode).handles hnd with
            node := drive.address, flags := openFlags readOnly } })
  | missing {drive : DriveObject} (hdrive : drive ∈ drives)
      (hclosed : (s.handles hnd).inUse = false) (hmissing : MissingPartition drives path)
      (hseeks : SeeksPartition drives s (.openDrive hnd path readOnly dnode pnode)) :
      OpenOutcome (some .fileNotFound, s.linkDrive hnd drive dnode)
  | partition {drive : DriveObject} {part : PartitionObject} (hdrive : drive ∈ drives)
      (hpart : part ∈ drive.partitions)
      (hseeks : SeeksPartition drives s (.openDrive hnd path readOnly dnode pnode))
      {s1 s2 s3 : HandleState} (h1 : s1 = (s.linkDrive hnd drive dnode).newNode pnode)
      (h2 : s2 = { s1 with handle := update s1.handle dnode hnd })
      (h3 : s3 = s2.append part.address pnode) :
      OpenOutcome (none, { s3 with
        handles := update s3.handles hnd
          { s3.handles hnd with
            flags := openFlags readOnly, node := part.address, handleNode := pnode } })

theorem openDrive_outcome : OpenOutcome drives s hnd path readOnly dnode pnode
    (s.openDrive drives hnd path readOnly dnode pnode) := by
  unfold openDrive
  by_cases huse : (s.handles hnd).inUse = true
  · rw [if_pos huse]
    exact .refused _ fun h => by simp [h.1] at huse
  · rw [if_neg huse]
    rw [Bool.not_eq_true] at huse
    cases path with
    | none => exact .refused _ fun ⟨_, p, hp, _⟩ => by simp at hp
    | some p =>
      show OpenOutcome _ _ _ _ _ _ _ (if p.head? ≠ some 0x44 then _ else _)
      by_cases hhead : p.head? = some 0x44
      · rw [if_neg (not_not.2 hhead)]
        cases hfind : drives.find? fun drive => drive.driveId = (driveTarget p).driveId with
        | none =>
          simp only [hfind]
          refine .refused _ ?_
          rintro ⟨-, _, ⟨⟩, -, -, drive, hmem, hid⟩
          simpa [hid] using find?_eq_none.1 hfind drive hmem
        | some drive =>
          have hmem := mem_of_find?_eq_some hfind
          have hid := find?_some hfind
          simp only [hfind]
          cases hpart : (driveTarget p).partitionId with
          | none =>
            refine .drive hmem huse ?_
            rintro ⟨-, _, ⟨⟩, -, hne, -⟩
            exact hne hpart
          | some partitionId =>
            have hseeks : SeeksPartition drives s
                (.openDrive hnd (some p) readOnly dnode pnode) :=
              ⟨huse, p, rfl, hhead, by simp [hpart], drive, hmem, by simpa using hid⟩
            cases hfound : drive.partitions.find? fun part =>
                part.partitionId = partitionId with
            | none =>
              simp only [hfound]
              exact .missing hmem huse
                ⟨p, rfl, hhead, partitionId, hpart, drive, hfind, hfound⟩ hseeks
            | some part =>
              simp only [hfound]
              exact .partition hmem (mem_of_find?_eq_some hfound) hseeks rfl rfl rfl
      · rw [if_pos hhead]
        refine .refused _ ?_
        rintro ⟨-, _, ⟨⟩, hD, -⟩
        exact hhead hD

end Outcome

/-- With a handle that is not in use, `OpenDrive` fails as it does without the lists. -/
theorem openDrive_error {drives : List DriveObject} {s : HandleState} {hnd : Nat}
    (hclosed : (s.handles hnd).inUse = false) (path : CString) (readOnly : Bool)
    (dnode pnode : Nat) :
    (s.openDrive drives hnd (some path) readOnly dnode pnode).1 =
      match Vfs.openDrive (drives.map DriveObject.disk) path with
      | .error e => some e
      | .ok _ => none := by
  by_cases hhead : path.head? = some 0x44
  · rw [openDrive_eq hhead, DriveTarget.find, find?_map]
    have hcomp : ((fun drive : Disk => decide (drive.driveId = (driveTarget path).driveId)) ∘
        DriveObject.disk) = fun drive => decide (drive.driveId = (driveTarget path).driveId) := rfl
    rw [hcomp]
    cases hfind : drives.find? fun drive => drive.driveId = (driveTarget path).driveId with
    | none => simp [openDrive, hclosed, hhead, hfind]
    | some drive =>
      cases hpart : (driveTarget path).partitionId with
      | none => simp [openDrive, hclosed, hhead, hfind, hpart]
      | some partitionId =>
        cases hfound : drive.partitions.find? fun part => part.partitionId = partitionId <;>
          simp [openDrive, hclosed, hhead, hfind, hpart, hfound, DriveObject.disk, find?_map]
  · have hfails : s.openDrive drives hnd (some path) readOnly dnode pnode =
        (some .invalidParameter, s) := by
      rw [openDrive.eq_def, hclosed]
      exact if_pos hhead
    rw [hfails, Vfs.openDrive, if_pos hhead]

/-! ## Calls that fail -/

/-- The lists of the drives and partitions, with the fields of their nodes, and all handles are the
same. -/
structure Same (drives : List DriveObject) (s s' : HandleState) : Prop where
  drive : ∀ drive ∈ drives, s'.lists drive.address = s.lists drive.address
  partition : ∀ drive ∈ drives, ∀ part ∈ drive.partitions,
    s'.lists part.address = s.lists part.address
  links : s'.links = s.links
  handle : s'.handle = s.handle
  handles : s'.handles = s.handles

theorem linkDrive_size_ne (s : HandleState) (hnd : Nat) (drive : DriveObject) (dnode : Nat) :
    ((s.linkDrive hnd drive dnode).lists drive.address).size ≠ (s.lists drive.address).size := by
  show (update s.lists drive.address _ drive.address).size ≠ _
  rw [update_self]
  show ((s.lists drive.address).size + 1) % 2 ^ 64 ≠ (s.lists drive.address).size
  omega

/-- If the partition is not there, the call fails and the list of the drive is longer. -/
theorem openDrive_missing {drives : List DriveObject} {s : HandleState} {hnd : Nat}
    {path : Option CString} (hclosed : (s.handles hnd).inUse = false)
    (hmissing : MissingPartition drives path) (readOnly : Bool) (dnode pnode : Nat) :
    (s.openDrive drives hnd path readOnly dnode pnode).1 ≠ none ∧
      ¬ Same drives s (s.openDrive drives hnd path readOnly dnode pnode).2 := by
  obtain ⟨p, hp, hhead, partitionId, hpart, drive, hfind, hfound⟩ := hmissing
  obtain rfl : path = some p := hp
  have hopen : s.openDrive drives hnd (some p) readOnly dnode pnode =
      (some .fileNotFound, s.linkDrive hnd drive dnode) := by
    simp [openDrive, hclosed, hhead, hfind, hpart, hfound]
  rw [hopen]
  refine ⟨by simp, fun hsame => ?_⟩
  have hlist := hsame.drive drive (mem_of_find?_eq_some hfind)
  exact s.linkDrive_size_ne hnd drive dnode (congrArg HandleList.size hlist)

/-- A call of `OpenDrive` that fails changes nothing, if and only if the handle is in use or the
path does not name a partition that is missing on its drive. -/
theorem openDrive_failed_same_iff (drives : List DriveObject) (s : HandleState) (hnd : Nat)
    (path : Option CString) (readOnly : Bool) (dnode pnode : Nat) :
    ((s.openDrive drives hnd path readOnly dnode pnode).1 ≠ none →
      Same drives s (s.openDrive drives hnd path readOnly dnode pnode).2) ↔
      (s.handles hnd).inUse = true ∨ ¬ MissingPartition drives path := by
  constructor
  · intro hsame
    by_contra hcond
    rw [not_or, Bool.not_eq_true, not_not] at hcond
    have hmissing := openDrive_missing hcond.1 hcond.2 readOnly dnode pnode
    exact hmissing.2 (hsame hmissing.1)
  · intro hcond hfails
    have hout := openDrive_outcome drives s hnd path readOnly dnode pnode
    generalize s.openDrive drives hnd path readOnly dnode pnode = out at hout hfails
    cases hout with
    | refused e _ => exact ⟨fun _ _ => rfl, fun _ _ _ _ => rfl, rfl, rfl, rfl⟩
    | drive _ _ _ => exact absurd rfl hfails
    | partition _ _ _ _ _ _ => exact absurd rfl hfails
    | missing _ hclosed hmissing _ =>
      rcases hcond with huse | hnot
      · rw [hclosed] at huse
        exact absurd huse Bool.false_ne_true
      · exact absurd hmissing hnot

/-- A drive with one partition. -/
def oneDrive : DriveObject := ⟨0x1000, 0, [⟨⟨0, none⟩, 0x2000⟩]⟩

/-- `D0P1:/` is not found, but the handle is on the list of drive 0. -/
theorem openDrive_missing_linked :
    ¬ ((initial.openDrive [oneDrive] 0x100 (some (bytes "D0P1:/")) false 0x300 0x400).1 ≠ none →
      Same [oneDrive] initial
        (initial.openDrive [oneDrive] 0x100 (some (bytes "D0P1:/")) false 0x300 0x400).2) := by
  have hmissing : MissingPartition [oneDrive] (some (bytes "D0P1:/")) := by
    refine ⟨_, rfl, by decide, 1, by decide, oneDrive, ?_, ?_⟩
    · rw [show (driveTarget (bytes "D0P1:/")).driveId = 0 by decide]
      simp [oneDrive]
    · simp [oneDrive]
  have hfails := @openDrive_missing _ initial 0x100 _ HandleFields.inUse_new hmissing false 0x300
    0x400
  exact fun hsame => hfails.2 (hsame hfails.1)

/-! ## The invariant -/

/-- The lists of the drives and partitions consist of the nodes `xs`. -/
def Counted (s : HandleState) (xs : Nat → List Nat) : Prop :=
  CountedLists s.links (fun i => (s.lists i).toEnds) (fun i => (s.lists i).size) xs

/-- What holds while no partition is opened: the lists consist of the nodes `xs`, each of which is
the one of an open handle, and every open handle is on the list of its drive. -/
structure Inv (drives : List DriveObject) (s : HandleState) (xs : Nat → List Nat) : Prop where
  counted : s.Counted xs
  allocated : ∀ device, ∀ x ∈ xs device, s.allocated x = true
  node : ∀ device, ∀ x ∈ xs device, (s.handles (s.handle x)).isOpen = true ∧
    (s.handles (s.handle x)).node = device ∧ (s.handles (s.handle x)).driveHandleNode = x
  opened : ∀ hnd, (s.handles hnd).isOpen = true → ∃ drive ∈ drives,
    (s.handles hnd).node = drive.address ∧ (s.handles hnd).driveNode = drive.address ∧
    (s.handles hnd).driveHandleNode ∈ xs drive.address ∧
    s.handle (s.handles hnd).driveHandleNode = hnd
  inUse : ∀ hnd, (s.handles hnd).inUse = (s.handles hnd).isOpen
  null : (s.handles 0).isOpen = false

section Edits

variable {s : HandleState} {xs : Nat → List Nat} {hnd node device : Nat} {drive : DriveObject}

/-- A list of the state is the one that `xs` has. -/
theorem Counted.listOf_iff (h : s.Counted xs) {nodes : List Nat} :
    s.ListOf device nodes ↔ nodes = xs device := by
  constructor
  · intro hlist
    exact hlist.1.unique (h.lists.list device)
  · rintro rfl
    exact ⟨h.lists.list device, h.size device⟩

/-- A new node, on none of the lists, is put at the end of one. -/
theorem Counted.append (h : s.Counted xs) (hnew : ∀ j, node ∉ xs j) (hnull : node ≠ 0)
    (hbound : node < 2 ^ 64) (handle : Nat → Nat) :
    ({ s.newNode node with handle := handle }.append device node).Counted
      (update xs device (xs device ++ [node])) := by
  have hmade : (s.newNode node).Counted xs := by
    refine CountedLists.congr h fun j x hx => ?_
    have hne : x ≠ node := fun he => hnew j (he ▸ hx)
    simp [newNode, hne]
  simp only [Counted, HandleState.append, apply_update (fun _ => HandleList.toEnds),
    apply_update (fun _ => HandleList.size)]
  exact CountedLists.pushBack hmade hnew hnull hbound (update_self node 0 s.links.next)

/-- A node is taken out of its list. -/
theorem Counted.remove (h : s.Counted xs) {as bs : List Nat}
    (hsplit : xs device = as ++ node :: bs) :
    (s.remove device node).Counted (update xs device (as ++ bs)) := by
  simp only [Counted, HandleState.remove, apply_update (fun _ => HandleList.toEnds),
    apply_update (fun _ => HandleList.size)]
  exact CountedLists.unlink h hsplit

theorem Counted.linkDrive (h : s.Counted xs) (hnew : ∀ j, node ∉ xs j) (hnull : node ≠ 0)
    (hbound : node < 2 ^ 64) : (s.linkDrive hnd drive node).Counted
      (update xs drive.address (xs drive.address ++ [node])) :=
  h.append hnew hnull hbound (update (s.newNode node).handle node hnd)

@[simp] theorem linkDrive_handle :
    (s.linkDrive hnd drive node).handle = update s.handle node hnd := by
  simp [HandleState.linkDrive, HandleState.append, HandleState.newNode]

@[simp] theorem linkDrive_handles :
    (s.linkDrive hnd drive node).handles = update s.handles hnd
      { s.handles hnd with driveHandleNode := node, driveNode := drive.address } := rfl

@[simp] theorem remove_handles : (s.remove device node).handles = s.handles := rfl

end Edits

section Invariant

variable {drives : List DriveObject} {s s' : HandleState} {xs : Nat → List Nat}
  {hnd dnode pnode device : Nat} {drive : DriveObject}

variable (h : s.Inv drives xs)
include h

/-- Under the invariant the lists are right. -/
theorem Inv.referenced (hapart : Apart drives) : s.Referenced drives := by
  have hlist : ∀ device, s.ListOf device (xs device) := fun device => h.counted.listOf_iff.2 rfl
  have hnodup : ∀ device, ((xs device).map s.handle).Nodup := by
    intro device
    refine List.Nodup.map_on (fun x hx y hy he => ?_) (h.counted.lists.list device).nodup
    rw [← (h.node device x hx).2.2, he, (h.node device y hy).2.2]
  intro drive hdrive
  refine ⟨⟨xs drive.address, hlist _, hnodup _, fun hnd => ?_⟩, fun part hpart =>
    ⟨xs part.address, hlist _, hnodup _, fun hnd => ?_⟩⟩
  · rw [mem_map]
    constructor
    · rintro ⟨x, hx, rfl⟩
      obtain ⟨hopen, hnode, _⟩ := h.node _ x hx
      exact ⟨hopen, .inl hnode⟩
    · rintro ⟨hopen, hrefers⟩
      obtain ⟨drive', hdrive', hnode, _, hmem, hhandle⟩ := h.opened hnd hopen
      rcases hrefers with heq | ⟨part, hpart, heq⟩
      · rw [← hnode, heq] at hmem
        exact ⟨_, hmem, hhandle⟩
      · exact absurd (hnode.symm.trans heq) (hapart.ne _ hdrive' _ hdrive _ hpart)
  · rw [mem_map]
    constructor
    · rintro ⟨x, hx, rfl⟩
      obtain ⟨hopen, hnode, _⟩ := h.node _ x hx
      exact ⟨hopen, hnode⟩
    · rintro ⟨hopen, hrefers⟩
      obtain ⟨drive', hdrive', hnode, _⟩ := h.opened hnd hopen
      exact absurd (hnode.symm.trans hrefers) (hapart.ne _ hdrive' _ hdrive _ hpart)

/-- A fresh node is on none of the lists. -/
theorem Inv.fresh (hfresh : s.Fresh dnode) (device : Nat) : dnode ∉ xs device := by
  intro hmem
  have halloc := h.allocated device dnode hmem
  rw [hfresh.2.2] at halloc
  exact Bool.false_ne_true halloc

/-- A handle that was closed is open on a drive, with a new node on its list. -/
theorem Inv.opens (hdrive : drive ∈ drives) (hhnd : hnd ≠ 0) (hdnode : s.Fresh dnode)
    (hclosed : (s.handles hnd).isOpen = false)
    (hcounted : s'.Counted (update xs drive.address (xs drive.address ++ [dnode])))
    (hhandle : s'.handle = update s.handle dnode hnd)
    (halloc : s'.allocated = update s.allocated dnode true) {f : HandleFields}
    (hhandles : s'.handles = update s.handles hnd f) (hopen : f.isOpen = true)
    (huse : f.inUse = true) (hnode : f.node = drive.address)
    (hdrivenode : f.driveNode = drive.address) (hnew : f.driveHandleNode = dnode) :
    s'.Inv drives (update xs drive.address (xs drive.address ++ [dnode])) where
  counted := hcounted
  allocated device x hx := by
    rw [halloc]
    rcases (Lists.mem_append xs _ _ _ _).1 hx with hx | ⟨_, rfl⟩
    · have hne : x ≠ dnode := fun he => h.fresh hdnode device (he ▸ hx)
      rw [update_of_ne hne]
      exact h.allocated device x hx
    · rw [update_self]
  node device x hx := by
    rw [hhandle, hhandles]
    rcases (Lists.mem_append xs _ _ _ _).1 hx with hx | ⟨rfl, rfl⟩
    · have hne : x ≠ dnode := fun he => h.fresh hdnode device (he ▸ hx)
      have hother : s.handle x ≠ hnd := by
        intro he
        have hold := (h.node device x hx).1
        rw [he, hclosed] at hold
        exact Bool.false_ne_true hold
      rw [update_of_ne hne, update_of_ne hother]
      exact h.node device x hx
    · rw [update_self, update_self]
      exact ⟨hopen, hnode, hnew⟩
  opened k hk := by
    rw [hhandles] at hk ⊢
    by_cases hkh : k = hnd
    · subst hkh
      rw [update_self, hnode, hdrivenode, hnew, hhandle, update_self]
      exact ⟨drive, hdrive, rfl, rfl, (Lists.mem_append xs _ _ _ _).2 (.inr ⟨rfl, rfl⟩), rfl⟩
    · rw [update_of_ne hkh] at hk ⊢
      obtain ⟨drive', hdrive', hnode', hdrivenode', hmem, hback⟩ := h.opened k hk
      refine ⟨drive', hdrive', hnode', hdrivenode', (Lists.mem_append xs _ _ _ _).2 (.inl hmem), ?_⟩
      rw [hhandle, update_of_ne fun he => h.fresh hdnode _ (he ▸ hmem)]
      exact hback
  inUse k := by
    rw [hhandles]
    by_cases hkh : k = hnd
    · subst hkh
      rw [update_self, hopen, huse]
    · rw [update_of_ne hkh]
      exact h.inUse k
  null := by
    rw [hhandles, update_of_ne hhnd.symm]
    exact h.null

/-- `Close` takes the handle off the list of its drive. -/
theorem Inv.close : ∃ xs', (s.close hnd).2.Inv drives xs' := by
  by_cases hopen : (s.handles hnd).isOpen = true
  · obtain ⟨drive, hdrive, hnode, hdrivenode, hmem, hback⟩ := h.opened hnd hopen
    obtain ⟨as, bs, hsplit⟩ := append_of_mem hmem
    have hclose : (s.close hnd).2 =
        { s.remove drive.address (s.handles hnd).driveHandleNode with
          handles := update s.handles hnd .new } := by
      simp [HandleState.close, hopen, hnode, hdrivenode]
    have hmemiff := h.counted.lists.mem_unlink hsplit
    refine ⟨update xs drive.address (as ++ bs), ?_⟩
    rw [hclose]
    -- the handle of a node that is left is another one, and its node is another one too
    have hother : ∀ device, ∀ x ∈ update xs drive.address (as ++ bs) device,
        x ∈ xs device ∧ x ≠ (s.handles hnd).driveHandleNode ∧ s.handle x ≠ hnd := by
      intro device x hx
      obtain ⟨hx, hne⟩ := (hmemiff device x).1 hx
      refine ⟨hx, hne, fun he => hne ?_⟩
      rw [← (h.node device x hx).2.2, he]
    have hkept {k : Nat} (hk : k ≠ hnd) : update s.handles hnd .new k = s.handles k :=
      update_of_ne hk _ _
    refine ⟨h.counted.remove hsplit, fun device x hx => ?_, fun device x hx => ?_, ?_, ?_, ?_⟩
    · obtain ⟨hx, hne, _⟩ := hother device x hx
      exact (update_of_ne hne _ _).trans (h.allocated device x hx)
    · obtain ⟨hx, _, hne⟩ := hother device x hx
      have hnode := h.node device x hx
      rwa [← hkept hne] at hnode
    · intro k hk
      have hkh : k ≠ hnd := by
        rintro rfl
        simp at hk
      simp only [hkept hkh] at hk ⊢
      obtain ⟨drive', hdrive', hnode', hdrivenode', hmem', hback'⟩ := h.opened k hk
      refine ⟨drive', hdrive', hnode', hdrivenode', (hmemiff _ _).2 ⟨hmem', fun he => hkh ?_⟩,
        hback'⟩
      rw [← hback', he, hback]
    · intro k
      by_cases hkh : k = hnd
      · simp [hkh]
      · exact (congrArg _ (hkept hkh)).trans ((h.inUse k).trans (congrArg _ (hkept hkh).symm))
    · by_cases hkh : 0 = hnd
      · simp [hkh]
      · exact (congrArg _ (hkept hkh)).trans h.null
  · refine ⟨xs, ?_⟩
    simpa [HandleState.close, hopen] using h

omit h in
/-- No handle is open at the beginning. -/
theorem inv_initial (drives : List DriveObject) : initial.Inv drives fun _ => [] where
  counted := by
    refine ⟨⟨fun _ => ⟨?_, nodup_nil, not_mem_nil⟩, fun _ _ _ hx => ?_⟩, fun _ => rfl,
      fun _ _ hx => ?_⟩
    · exact .cons_cons ⟨rfl, rfl⟩ (.singleton _)
    · exact absurd hx not_mem_nil
    · exact absurd hx not_mem_nil
  allocated _ _ hx := absurd hx not_mem_nil
  node _ _ hx := absurd hx not_mem_nil
  opened _ hopen := absurd hopen (by simp [initial])
  inUse _ := by simp [initial]
  null := by simp [initial]

omit h in
theorem isOpen_openFlags {f : HandleFields} {readOnly : Bool} (hnode : f.node ≠ 0)
    (hflags : f.flags = openFlags readOnly) : f.isOpen = true ∧ f.inUse = true := by
  have hclosed : openFlags readOnly &&& flagsClosed = 0 := by
    cases readOnly <;> rfl
  simp [HandleFields.isOpen, HandleFields.inUse, hflags, hclosed, hnode]

/-- A call that does not come to look for a partition keeps the invariant. -/
theorem Inv.step (hapart : Apart drives) {call : HandleCall} (hstep : HandleStep drives s call s')
    (hseeks : ¬ SeeksPartition drives s call) : ∃ xs', s'.Inv drives xs' := by
  cases hstep with
  | close => exact h.close
  | @openDrive hnd dnode pnode path readOnly hhnd hdnode hpnode hne =>
    have hout := openDrive_outcome drives s hnd path readOnly dnode pnode
    generalize s.openDrive drives hnd path readOnly dnode pnode = out at hout
    cases hout with
    | refused e _ => exact ⟨xs, h⟩
    | missing _ _ _ hseeks' => exact absurd hseeks' hseeks
    | partition _ _ hseeks' => exact absurd hseeks' hseeks
    | @drive drive hdrive hclosed _ =>
      have hflags := @isOpen_openFlags
        { s.handles hnd with
          node := drive.address, driveNode := drive.address, driveHandleNode := dnode,
          flags := openFlags readOnly } readOnly (hapart.ne_zero drive hdrive) rfl
      refine ⟨_, h.opens hdrive hhnd hdnode ((h.inUse hnd).symm.trans hclosed)
        (h.counted.linkDrive (h.fresh hdnode) hdnode.1 hdnode.2.1)
        (@linkDrive_handle s hnd dnode drive) rfl ?_ hflags.1 hflags.2 rfl rfl rfl⟩
      simp

/-- A call that comes to look for a partition leaves lists that are not right: with the node of a
handle that is still closed, or with one that has no handle. -/
theorem Inv.broken {call : HandleCall} (hstep : HandleStep drives s call s')
    (hseeks : SeeksPartition drives s call) : ¬ s'.Referenced drives := by
  cases hstep with
  | close => exact absurd hseeks not_false
  | @openDrive hnd dnode pnode path readOnly hhnd hdnode hpnode hne =>
    have hout := openDrive_outcome drives s hnd path readOnly dnode pnode
    generalize s.openDrive drives hnd path readOnly dnode pnode = out at hout
    intro href
    have hlinked (drive : DriveObject) := @Counted.linkDrive s xs hnd dnode drive h.counted
      (h.fresh hdnode) hdnode.1 hdnode.2.1
    cases hout with
    | refused e hseeks' => exact hseeks' hseeks
    | drive _ _ hseeks' => exact hseeks' hseeks
    | @missing drive hdrive hclosed _ _ =>
      obtain ⟨nodes, hlist, -, hmem⟩ := (href drive hdrive).1
      rw [(hlinked drive).listOf_iff] at hlist
      have hopen := ((hmem hnd).1 (by simp [hlist])).1
      have hstill : (s.handles hnd).isOpen = true := by simpa [HandleFields.isOpen] using hopen
      rw [← h.inUse hnd, hclosed] at hstill
      exact Bool.false_ne_true hstill
    | @partition drive part hdrive hpart _ s1 s2 s3 h1 h2 h3 =>
      obtain ⟨nodes, hlist, -, hmem⟩ := (href drive hdrive).2 part hpart
      have hnew : ∀ j, pnode ∉
          update xs drive.address (xs drive.address ++ [dnode]) j := by
        intro j hj
        rcases (Lists.mem_append xs _ _ _ _).1 hj with hj | ⟨_, he⟩
        · exact h.fresh hpnode j hj
        · exact hne he.symm
      have hcounted := @Counted.append _ _ _ part.address (hlinked drive) hnew hpnode.1 hpnode.2.1
        (update s1.handle dnode hnd)
      rw [← h1, ← h2, ← h3] at hcounted
      have hnodes := hcounted.listOf_iff.1 hlist
      -- the last node of the list has no handle, and there is no handle at the null address
      have hnull : s3.handle pnode = 0 := by
        rw [h3, h2, h1]
        show update (update (s.linkDrive hnd drive dnode).handle pnode 0)
          dnode hnd pnode = 0
        rw [update_of_ne hne.symm, update_self]
      have hopen := ((hmem 0).1 (by simp [hnodes, hnull])).1
      have hzero : s3.handles 0 = s.handles 0 := by
        rw [h3, h2, h1]
        show (s.linkDrive hnd drive dnode).handles 0 = s.handles 0
        rw [linkDrive_handles, update_of_ne hhnd.symm]
      have hclosed := h.null
      rw [← hzero] at hclosed
      simp [update_of_ne hhnd.symm, hclosed] at hopen

end Invariant

/-! ## Runs -/

/-- In every run whose calls do not come to look for a partition the lists are right, and the next
call keeps them so if and only if it does not come to look for one either. -/
theorem referenced_while_no_partition {drives : List DriveObject} (hapart : Apart drives)
    {s : HandleState}
    (hrun : Reaches (fun s call => ¬ SeeksPartition drives s call) (HandleStep drives) initial s) :
    s.Referenced drives ∧ ∀ call s', HandleStep drives s call s' →
      (s'.Referenced drives ↔ ¬ SeeksPartition drives s call) := by
  obtain ⟨xs, hinv⟩ := hrun.invariant (fun s => ∃ xs, s.Inv drives xs) ⟨_, inv_initial drives⟩
    fun _ _ _ hinv hseeks hstep => hinv.elim fun _ h => h.step hapart hstep hseeks
  refine ⟨hinv.referenced hapart, fun call s' hstep => ⟨fun href hseeks => ?_, fun hseeks => ?_⟩⟩
  · exact hinv.broken hstep hseeks href
  · obtain ⟨xs', hinv'⟩ := hinv.step hapart hstep hseeks
    exact hinv'.referenced hapart

theorem apart_oneDrive : Apart [oneDrive] := ⟨by simp [oneDrive], by simp [oneDrive]⟩

theorem step_oneDrive (path : CString) : HandleStep [oneDrive] initial
    (.openDrive 0x100 (some path) false 0x300 0x400)
    (initial.openDrive [oneDrive] 0x100 (some path) false 0x300 0x400).2 :=
  .openDrive (by omega) ⟨by omega, by omega, rfl⟩ ⟨by omega, by omega, rfl⟩ (by omega)

/-- `D0:/` is opened. -/
theorem referenced_after_whole_drive :
    Referenced [oneDrive]
      (initial.openDrive [oneDrive] 0x100 (some (bytes "D0:/")) false 0x300 0x400).2 := by
  have hnone : (driveTarget (bytes "D0:/")).partitionId = none := by decide
  refine (referenced_while_no_partition apart_oneDrive (.single ⟨_, ?_, step_oneDrive _⟩)).1
  rintro ⟨-, _, ⟨⟩, -, hne, -⟩
  exact hne hnone

/-- After `D0P0:/` has been opened, the list of the partition has a node without a handle. -/
theorem not_referenced_after_partition :
    ∃ s, Reaches (fun _ _ => True) (HandleStep [oneDrive]) initial s ∧
      ¬ s.Referenced [oneDrive] := by
  have hstep := step_oneDrive (bytes "D0P0:/")
  refine ⟨_, .single ⟨_, trivial, hstep⟩, (inv_initial _).broken hstep ?_⟩
  refine ⟨rfl, bytes "D0P0:/", rfl, by decide, by decide, oneDrive, by simp, by decide⟩

end HandleState

end Obos.Vfs
