import Obos.Lib.Run
import Obos.Vfs.MountTree

/-!
# Mounting

`mount` takes the id of the new mount point from its caller, or chooses one: the number
of mount points there are. A given id is compared with the ids that are taken, a chosen
one is not. A partition that is mounted already shares its entries with the new mount
point; otherwise the driver is asked for its files.

A call that fails changes nothing. `mounted_ids_distinct` says that the ids stay distinct
as long as no id is chosen that was given before.
-/

namespace Obos.Vfs

open Lib Option

/-! ## The program -/

/-- A partition, as far as `mount` reads it. -/
structure Volume where
  partitionId : BitVec 32
  filesystemDriver : Option FilesystemDriver

/-- A drive with its partitions. -/
structure Disk where
  driveId : BitVec 32
  partitions : List Volume

/-- `DriveHandle::OpenDrive`: the drive, and the partition if the path names one. -/
def openDrive (drives : List Disk) (path : CString) : Except VfsError (Disk × Option Volume) :=
  if path.head? ≠ some 0x44 then .error .invalidParameter
  else
    let openPartition := path.contains capitalP
    let sizeDID := strCountToChar (path.drop 1) (if openPartition then capitalP else colon)
    let driveId := getMountId (path.drop 1) sizeDID
    match drives.find? fun drive => drive.driveId = driveId with
    | none => .error .fileNotFound
    | some drive =>
      if !openPartition then .ok (drive, none)
      else
        let rest := path.drop (1 + sizeDID + 1)
        let partitionId := getMountId rest (strCountToChar rest colon)
        match drive.partitions.find? fun part => part.partitionId = partitionId with
        | none => .error .fileNotFound
        | some part => .ok (drive, some part)

/-- `MountPoint`; of its partition the ids of the drive and of the partition. -/
structure MountPoint where
  id : BitVec 32
  isInitrd : Bool
  partition : Option (BitVec 32 × BitVec 32)
  filesystemDriver : FilesystemDriver
  children : List DirectoryEntry
  otherMountPointsReferencing : BitVec 32

/-- The arguments of a call, the drives and the driver with id 0 at that time, and what the
allocators give. -/
structure MountCall where
  point : BitVec 32
  driveId : BitVec 32
  partitionId : BitVec 32
  isInitrd : Bool
  failIfPartitionHasMountPoint : Bool
  drives : List Disk
  initrdDriver : Option FilesystemDriver
  heap : Heap

/-- What a call leaves: the id it gives its caller, its error, and the mount points. -/
structure MountResult where
  point : BitVec 32
  error : Option VfsError
  mountPoints : List MountPoint

/-- The id that stands for a choice of `mount`. -/
def automatic : BitVec 32 := 0xffffffff

/-- The id of the new mount point. -/
def MountCall.newId (call : MountCall) (mountPoints : List MountPoint) : BitVec 32 :=
  if call.point = automatic then BitVec.ofNat 32 mountPoints.length else call.point

/-- The mount point is one of the partition that is to be mounted. -/
def MountPoint.isOf (point : MountPoint) (call : MountCall) : Bool :=
  point.isInitrd = call.isInitrd && point.partition.getD (0, 0) = (call.driveId, call.partitionId)

/-- `"D%dP%d://"`. -/
def drivePath (driveId partitionId : BitVec 32) : CString :=
  [0x44] ++ printDecimal driveId ++ [capitalP] ++ printDecimal partitionId ++ [colon, slash, slash]

/-- A mount point that is set up with a driver. -/
def mountWith (mountPoints : List MountPoint) (call : MountCall)
    (partition : Option (BitVec 32 × BitVec 32)) (driver : FilesystemDriver) : Option MountResult :=
  let point := call.newId mountPoints
  let new : NewMountPoint := {
    id := point
    isInitrd := call.isInitrd
    driveId := (partition.getD (0, 0)).1
    partitionId := (partition.getD (0, 0)).2.setWidth 8
    filesystemDriver := driver }
  (new.setupMountPointEntries call.heap).map fun
    | .ok children =>
      ⟨point, none, mountPoints ++ [⟨point, call.isInitrd, partition, driver, children, 0⟩]⟩
    | .error e => ⟨point, some e, mountPoints⟩

/-- `mount`. -/
def mount (mountPoints : List MountPoint) (call : MountCall) : Option MountResult :=
  if call.point ≠ automatic ∧ ∃ p ∈ mountPoints, p.id = call.point then
    some ⟨call.point, some .alreadyMounted, mountPoints⟩
  else
    let point := call.newId mountPoints
    match mountPoints.find? fun p => p.isOf call with
    | some existing =>
      if call.failIfPartitionHasMountPoint then
        some ⟨existing.id, some .partitionAlreadyMounted, mountPoints⟩
      else
        let new := { existing with
          id := point, isInitrd := call.isInitrd, otherMountPointsReferencing := 1 }
        some ⟨point, none, mountPoints ++ [new]⟩
    | none =>
      if call.isInitrd then call.initrdDriver.bind (mountWith mountPoints call none)
      else
        match openDrive call.drives (drivePath call.driveId call.partitionId) with
        | .error e => some ⟨point, some e, mountPoints⟩
        | .ok (_, none) => none
        | .ok (drive, some part) =>
          match part.filesystemDriver with
          | none => some ⟨point, some .unrecognizedPartitionFs, mountPoints⟩
          | some driver =>
            mountWith mountPoints call (some (drive.driveId, part.partitionId)) driver

/-! ## Sequences of calls -/

/-- A call that returns. -/
def MountStep (mountPoints : List MountPoint) (call : MountCall) (mountPoints' : List MountPoint) :
    Prop :=
  ∃ r, mount mountPoints call = some r ∧ r.mountPoints = mountPoints'

/-- No id is chosen that is taken. -/
def MountCall.Safe (mountPoints : List MountPoint) (call : MountCall) : Prop :=
  call.point = automatic → ∀ p ∈ mountPoints, p.id ≠ BitVec.ofNat 32 mountPoints.length

section Calls

variable {mountPoints : List MountPoint} {call : MountCall} {r : MountResult}

/-- What a call can do: fail and change nothing, or append a mount point with the new id. -/
inductive MountResult.Effect (mountPoints : List MountPoint) (call : MountCall) :
    MountResult → Prop where
  | failed (point : BitVec 32) (e : VfsError) : Effect mountPoints call ⟨point, some e, mountPoints⟩
  | mounted (new : MountPoint) (hid : new.id = call.newId mountPoints)
      (hfree : call.point ≠ automatic → ∀ p ∈ mountPoints, p.id ≠ call.point) :
      Effect mountPoints call ⟨call.newId mountPoints, none, mountPoints ++ [new]⟩

theorem mountWith_effect {partition : Option (BitVec 32 × BitVec 32)} {driver : FilesystemDriver}
    (hfree : call.point ≠ automatic → ∀ p ∈ mountPoints, p.id ≠ call.point)
    (h : mountWith mountPoints call partition driver = some r) : r.Effect mountPoints call := by
  obtain ⟨outcome, -, rfl⟩ := map_eq_some_iff.1 h
  cases outcome with
  | error e => exact .failed _ e
  | ok children => exact .mounted _ rfl hfree

theorem mount_effect (h : mount mountPoints call = some r) : r.Effect mountPoints call := by
  rw [mount] at h
  split at h
  · cases h
    exact .failed _ _
  rename_i htaken
  have hfree : call.point ≠ automatic → ∀ p ∈ mountPoints, p.id ≠ call.point :=
    fun hne p hp heq => htaken ⟨hne, p, hp, heq⟩
  split at h
  · -- the partition is mounted already
    split at h <;> cases h
    · exact .failed _ _
    · exact .mounted _ rfl hfree
  · split at h
    · obtain ⟨driver, -, h⟩ := bind_eq_some_iff.1 h
      exact mountWith_effect hfree h
    · split at h
      · cases h
        exact .failed _ _
      · cases h
      · split at h
        · cases h
          exact .failed _ _
        · exact mountWith_effect hfree h

theorem mount_failed (h : mount mountPoints call = some r) (herror : r.error ≠ none) :
    r.mountPoints = mountPoints := by
  cases mount_effect h with
  | failed => rfl
  | mounted => exact absurd rfl herror

/-- A call that succeeds keeps the ids distinct exactly if the id it chooses is not taken. -/
theorem mount_distinct_iff (hdistinct : (mountPoints.map MountPoint.id).Nodup)
    (h : mount mountPoints call = some r) (hok : r.error = none) :
    (r.mountPoints.map MountPoint.id).Nodup ↔ call.Safe mountPoints := by
  cases mount_effect h with
  | failed point e => cases hok
  | mounted new hid hfree =>
    rw [List.map_append, List.map_singleton, List.nodup_append_comm, List.singleton_append, hid,
      MountCall.newId, MountCall.Safe]
    by_cases hauto : call.point = automatic
    · simp [hauto, hdistinct]
    · simpa [hauto, hdistinct] using hfree hauto

end Calls

/-- In every sequence of calls that choose no id that is taken, the ids of the mount points are
distinct, and a call that fails leaves the mount points as they are. -/
theorem mounted_ids_distinct (mountPoints : List MountPoint)
    (hrun : Reaches (fun ms call => call.Safe ms) MountStep [] mountPoints) :
    (mountPoints.map MountPoint.id).Nodup ∧
      ∀ call r, mount mountPoints call = some r → r.error ≠ none → r.mountPoints = mountPoints := by
  refine ⟨?_, fun call r h herror => mount_failed h herror⟩
  refine hrun.invariant (fun ms => (ms.map MountPoint.id).Nodup) List.nodup_nil ?_
  rintro ms call ms' hdistinct hsafe ⟨r, h, rfl⟩
  by_cases hok : r.error = none
  · exact (mount_distinct_iff hdistinct h hok).2 hsafe
  · rw [mount_failed h hok]
    exact hdistinct

/-- An initrd without files. -/
def emptyInitrd : FilesystemDriver where
  serviceType := .initrdFilesystem
  fileIteratorCreate _ _ := some ⟨[], true, true⟩
  queryFileProperties _ _ _ := none

/-- A call that mounts the initrd. -/
def mountInitrd (point : BitVec 32) : MountCall :=
  ⟨point, 0, 0, true, false, [], some emptyInitrd, zeroedHeap⟩

/-- The mount points of the initrd, with the given ids. -/
def initrdPoints : List (BitVec 32) → List MountPoint
  | [] => []
  | id :: ids => ⟨id, true, none, emptyInitrd, [], 0⟩ ::
      ids.map fun id => ⟨id, true, none, emptyInitrd, [], 1⟩

/-- The initrd is mounted with the id 5, and then with a chosen one. -/
theorem mounted_ids_distinct_initrd : ((initrdPoints [5, 1]).map MountPoint.id).Nodup := by
  refine (mounted_ids_distinct _ ?_).1
  refine Relation.ReflTransGen.tail (.single ⟨mountInitrd 5, nofun, _, rfl, rfl⟩) ?_
  refine ⟨mountInitrd automatic, fun _ => ?_, _, rfl, rfl⟩
  decide

/-- The id that is chosen is the one that was given before. -/
theorem mount_automatic_id_taken :
    ∃ mountPoints, Reaches (fun _ _ => True) MountStep [] mountPoints ∧
      ¬ (mountPoints.map MountPoint.id).Nodup := by
  refine ⟨initrdPoints [1, 1], ?_, by decide⟩
  refine Relation.ReflTransGen.tail (.single ⟨mountInitrd 1, trivial, _, rfl, rfl⟩) ?_
  exact ⟨mountInitrd automatic, trivial, _, rfl, rfl⟩

end Obos.Vfs
