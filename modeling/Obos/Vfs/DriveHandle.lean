import Mathlib.Algebra.Group.Nat.Defs
import Mathlib.Data.Nat.Basic

/-!
# Reading and writing sectors

A drive handle is open on a whole drive or on one of its partitions. `ReadSectors`
and `WriteSectors` move the request into the partition, compare its end with the
size of the drive and of the partition, and call the storage driver. All numbers are
64-bit words and wrap around; the calls to the driver are kept in `Outcome.calls`.

The callers rely on every sector asked for lying in the handle's range. Both limits
are one past the end, and the end of the request may have wrapped around:
`sectors_inside_iff` says for which requests no sector outside is asked for.
-/

namespace Obos.Vfs

open Option

/-! ## The program -/

/-- What the driver interface knows of a storage driver. A query that fails leaves its outputs as
they are. -/
structure StorageDriver where
  queryDiskInfo : UInt32 → Option (UInt64 × UInt64)
  readSectors : UInt32 → UInt64 → UInt64 → Option (List (BitVec 8) × UInt64)
  writeSectors : UInt32 → UInt64 → UInt64 → List (BitVec 8) → Option UInt64

/-- `PartitionEntry`. -/
structure PartitionEntry where
  lbaOffset : UInt64
  sizeSectors : UInt64

/-- `DriveEntry`. -/
structure DriveEntry where
  driveId : UInt32
  storageDriver : StorageDriver

/-- What a handle is open on, `m_node` in the source: its drive itself, or a partition. -/
inductive DriveNode where
  | drive
  | partition (part : PartitionEntry)

/-- `DriveHandle`, with its flags. -/
structure DriveHandle where
  node : Option DriveNode
  driveNode : DriveEntry
  canWrite : Bool
  closed : Bool

/-- The errors these functions set. -/
inductive DriveError where
  | unopenedHandle
  | invalidParameter
  | vfsReadOnly
  | vfsReadAborted
  | vfsWriteAborted
  deriving DecidableEq

/-- A request to the storage driver. -/
structure SectorRequest where
  driveId : UInt32
  lbaOffset : UInt64
  nSectors : UInt64

/-- The requests made to the storage driver, and the result. -/
structure Outcome (α : Type) where
  calls : List SectorRequest
  result : Except DriveError α

/-- A call that fails before the driver is asked. -/
def Outcome.fail {α : Type} (e : DriveError) : Outcome α := ⟨[], .error e⟩

open Outcome (fail)

/-- The first sector of the request on the drive. -/
def DriveNode.lbaOffset (node : DriveNode) (lbaOffset : UInt64) : UInt64 :=
  match node with
  | .drive => lbaOffset
  | .partition part => lbaOffset + part.lbaOffset

/-- The check against the limit of the partition. -/
def DriveNode.exceeds (node : DriveNode) (lbaOffset nSectors : UInt64) : Bool :=
  match node with
  | .drive => false
  | .partition part => part.lbaOffset + part.sizeSectors + 1 < lbaOffset + nSectors

/-- `DriveHandle::ReadSectors`: the bytes copied to the buffer, and the number of sectors read. The
vectorized copy moves whole blocks of 64 bytes. -/
def DriveHandle.readSectors (vectorized : Bool) (h : DriveHandle) (obuff : Nat)
    (lbaOffset nSectorsToRead : UInt64) : Outcome (List (BitVec 8) × UInt64) :=
  match h.node, h.closed with
  | none, _ => .fail .unopenedHandle
  | some _, true => .fail .unopenedHandle
  | some node, false =>
    if obuff = 0 ∨ nSectorsToRead = 0 then .fail .invalidParameter
    else
      let drive := h.driveNode
      let lbaOffset := node.lbaOffset lbaOffset
      let info := (drive.storageDriver.queryDiskInfo drive.driveId).getD (0, 0)
      if info.1 + 1 < lbaOffset + nSectorsToRead then .fail .vfsReadAborted
      else if node.exceeds lbaOffset nSectorsToRead then .fail .vfsReadAborted
      else
        let calls := [⟨drive.driveId, lbaOffset, nSectorsToRead⟩]
        match drive.storageDriver.readSectors drive.driveId lbaOffset nSectorsToRead with
        | none => ⟨calls, .error .vfsReadAborted⟩
        | some (buff, nSectorsRead) =>
          let size := (nSectorsRead * info.2).toNat
          ⟨calls, .ok (buff.take (if vectorized then size / 64 * 64 else size), nSectorsRead)⟩

/-- `DriveHandle::WriteSectors`: the number of sectors written. If the drive cannot be queried, the
size of the partition is taken for its size; the limit of the partition is reported as a failed
read. -/
def DriveHandle.writeSectors (h : DriveHandle) (buff : Nat) (data : List (BitVec 8))
    (lbaOffset nSectorsToWrite : UInt64) : Outcome UInt64 :=
  match h.node, h.closed with
  | none, _ => .fail .unopenedHandle
  | some _, true => .fail .unopenedHandle
  | some node, false =>
    if buff = 0 then .fail .invalidParameter
    else if !h.canWrite then .fail .vfsReadOnly
    else
      let drive := h.driveNode
      let lbaOffset := node.lbaOffset lbaOffset
      let partitionSizeSectors := match node with
        | .drive => 0
        | .partition part => part.sizeSectors
      let nSectors := ((drive.storageDriver.queryDiskInfo drive.driveId).map Prod.fst).getD
        partitionSizeSectors
      if nSectors + 1 < lbaOffset + nSectorsToWrite then .fail .vfsWriteAborted
      else if node.exceeds lbaOffset nSectorsToWrite then .fail .vfsReadAborted
      else
        let calls := [⟨drive.driveId, lbaOffset, nSectorsToWrite⟩]
        match drive.storageDriver.writeSectors drive.driveId lbaOffset nSectorsToWrite data with
        | none => ⟨calls, .error .vfsWriteAborted⟩
        | some nSectorsWrote => ⟨calls, .ok nSectorsWrote⟩

/-! ## The sectors of a handle -/

/-- The number of sectors of a drive, as its driver reports it. -/
def DriveEntry.nSectors (drive : DriveEntry) : Nat :=
  (((drive.storageDriver.queryDiskInfo drive.driveId).map Prod.fst).getD 0).toNat

/-- The first sector a handle is for, and their number. -/
def DriveHandle.range (h : DriveHandle) (node : DriveNode) : Nat × Nat :=
  match node with
  | .drive => (0, h.driveNode.nSectors)
  | .partition part => (part.lbaOffset.toNat, part.sizeSectors.toNat)

/-- All sectors asked for, over the integers, are in the range. -/
def SectorRequest.Inside (r : SectorRequest) (range : Nat × Nat) : Prop :=
  ∀ i < r.nSectors.toNat, range.1 ≤ r.lbaOffset.toNat + i ∧
    r.lbaOffset.toNat + i < range.1 + range.2

/-- No call to the storage driver leaves the range of the handle. -/
def DriveHandle.Confined {α : Type} (h : DriveHandle) (o : Outcome α) : Prop :=
  ∀ node, h.node = some node → ∀ r ∈ o.calls, r.Inside (h.range node)

/-- The largest end of a request that passes the checks, for the size the drive is taken to have. -/
def DriveNode.limit (node : DriveNode) (nSectors : UInt64) : Nat :=
  match node with
  | .drive => (nSectors + 1).toNat
  | .partition part =>
    min (nSectors + 1).toNat (part.lbaOffset + part.sizeSectors + 1).toNat

/-- The size `ReadSectors` takes the drive to have. -/
def DriveHandle.readSize (h : DriveHandle) : UInt64 :=
  ((h.driveNode.storageDriver.queryDiskInfo h.driveNode.driveId).getD (0, 0)).1

/-- The size `WriteSectors` takes the drive to have. -/
def DriveHandle.writeSize (h : DriveHandle) (node : DriveNode) : UInt64 :=
  ((h.driveNode.storageDriver.queryDiskInfo h.driveNode.driveId).map Prod.fst).getD (match node with
    | .drive => 0
    | .partition part => part.sizeSectors)

/-- A request that is confined: it is empty, ends in the range without wrapping around, or its
wrapped end is beyond a limit that is one past the end. -/
def SafeRequest (range : Nat × Nat) (limit lbaOffset nSectors : Nat) : Prop :=
  nSectors = 0 ∨ (range.1 + lbaOffset < 2 ^ 64 ∧ lbaOffset + nSectors ≤ range.2) ∨
    limit < (range.1 + lbaOffset + nSectors) % 2 ^ 64

section Confinement

variable {h : DriveHandle} {node : DriveNode} {lbaOffset nSectors : UInt64}

/-- The end of a request, wrapped around. -/
theorem toNat_end (h : DriveHandle) (node : DriveNode) (lbaOffset nSectors : UInt64) :
    (node.lbaOffset lbaOffset + nSectors).toNat =
      ((h.range node).1 + lbaOffset.toNat + nSectors.toNat) % 2 ^ 64 := by
  cases node with
  | drive => simp [DriveNode.lbaOffset, DriveHandle.range]
  | partition part =>
    simp only [DriveNode.lbaOffset, DriveHandle.range, UInt64.toNat_add]
    omega

/-- A request passes the checks if its end is within the limit. -/
theorem passes_iff (h : DriveHandle) (size : UInt64) :
    (¬ size + 1 < node.lbaOffset lbaOffset + nSectors ∧
        node.exceeds (node.lbaOffset lbaOffset) nSectors = false) ↔
      ((h.range node).1 + lbaOffset.toNat + nSectors.toNat) % 2 ^ 64 ≤ node.limit size := by
  rw [← toNat_end h node lbaOffset nSectors]
  cases node with
  | drive => simp [DriveNode.exceeds, DriveNode.limit, UInt64.lt_iff_toNat_lt]
  | partition part =>
    simp only [DriveNode.limit, Nat.le_min]
    simp [DriveNode.exceeds, UInt64.lt_iff_toNat_lt]

/-- When the sectors of a request are in the range. -/
theorem inside_iff (h : DriveHandle) (driveId : UInt32) :
    (SectorRequest.mk driveId (node.lbaOffset lbaOffset) nSectors).Inside (h.range node) ↔
      nSectors.toNat = 0 ∨ ((h.range node).1 + lbaOffset.toNat < 2 ^ 64 ∧
        lbaOffset.toNat + nSectors.toNat ≤ (h.range node).2) := by
  have hlba := lbaOffset.toNat_lt
  -- the first sector on the drive
  have hfirst :
      (node.lbaOffset lbaOffset).toNat = ((h.range node).1 + lbaOffset.toNat) % 2 ^ 64 := by
    have hzero := toNat_end h node lbaOffset 0
    simpa using hzero
  unfold SectorRequest.Inside
  simp only [hfirst]
  constructor
  · intro hin
    by_cases hempty : nSectors.toNat = 0
    · exact .inl hempty
    · have hlow := (hin 0 (by omega)).1
      have hhigh := (hin (nSectors.toNat - 1) (by omega)).2
      refine .inr ?_
      omega
  · rintro (hempty | ⟨hwrap, hend⟩) i hi
    · omega
    · omega

/-- The requests of a call that asks the driver once if `guard` holds and the end of the request
passes the checks. -/
def Asks {α : Type} (h : DriveHandle) (o : Outcome α) (guard : Prop) (size : DriveNode → UInt64)
    (lbaOffset nSectors : UInt64) : Prop :=
  ∀ r, r ∈ o.calls ↔ ∃ node, h.node = some node ∧ guard ∧
    (¬ size node + 1 < node.lbaOffset lbaOffset + nSectors ∧
      node.exceeds (node.lbaOffset lbaOffset) nSectors = false) ∧
    r = ⟨h.driveNode.driveId, node.lbaOffset lbaOffset, nSectors⟩

/-- `ReadSectors` asks the driver exactly if the request passes the checks. -/
theorem readSectors_asks (h : DriveHandle) (vectorized : Bool) (obuff : Nat)
    (lbaOffset nSectors : UInt64) :
    Asks h (h.readSectors vectorized obuff lbaOffset nSectors)
      (h.closed = false ∧ obuff ≠ 0 ∧ nSectors ≠ 0) (fun _ => h.readSize) lbaOffset nSectors := by
  intro r
  unfold DriveHandle.readSectors DriveHandle.readSize
  split
  · rename_i hnode
    simp [fail, hnode]
  · rename_i hclosed
    simp [fail, hclosed]
  · rename_i node hnode hclosed
    simp only [hnode, hclosed, some.injEq, true_and, exists_eq_left']
    split
    · rename_i hpar
      rcases hpar with hbuff | hn
      · simp [fail, hbuff]
      · simp [fail, hn]
    · rename_i hpar
      rw [not_or] at hpar
      by_cases hdrive : ((h.driveNode.storageDriver.queryDiskInfo h.driveNode.driveId).getD
          (0, 0)).1 + 1 < node.lbaOffset lbaOffset + nSectors
      · simp [fail, hdrive]
      · by_cases hpart : node.exceeds (node.lbaOffset lbaOffset) nSectors = true
        · simp [fail, hdrive, hpart]
        · simp only [hdrive, hpart, Bool.false_eq_true, if_false]
          split <;> simp [hpar]

/-- `WriteSectors` asks the driver exactly if the request passes the checks. -/
theorem writeSectors_asks (h : DriveHandle) (buff : Nat) (data : List (BitVec 8))
    (lbaOffset nSectors : UInt64) :
    Asks h (h.writeSectors buff data lbaOffset nSectors)
      (h.closed = false ∧ buff ≠ 0 ∧ h.canWrite = true) h.writeSize lbaOffset nSectors := by
  intro r
  unfold DriveHandle.writeSectors DriveHandle.writeSize
  split
  · rename_i hnode
    simp [fail, hnode]
  · rename_i hclosed
    simp [fail, hclosed]
  · rename_i node hnode hclosed
    simp only [hnode, hclosed, some.injEq, true_and, exists_eq_left']
    split
    · rename_i hbuff
      simp [fail, hbuff]
    · rename_i hbuff
      by_cases hwrite : h.canWrite = true
      · simp only [hwrite, Bool.not_true, Bool.false_eq_true, if_false]
        generalize ((h.driveNode.storageDriver.queryDiskInfo h.driveNode.driveId).map
          Prod.fst).getD _ = size
        by_cases hdrive : size + 1 < node.lbaOffset lbaOffset + nSectors
        · simp [fail, hdrive]
        · by_cases hpart : node.exceeds (node.lbaOffset lbaOffset) nSectors = true
          · simp [fail, hdrive, hpart]
          · simp only [hdrive, hpart, Bool.false_eq_true, if_false]
            split <;> simp [hbuff]
      · simp [fail, hwrite]

/-- A call that asks for what passes the checks is confined exactly if the request is safe. -/
theorem Asks.confined_iff {α : Type} {o : Outcome α} {guard : Prop} {size : DriveNode → UInt64}
    (hasks : Asks h o guard size lbaOffset nSectors) :
    h.Confined o ↔ ∀ node, h.node = some node → guard →
      SafeRequest (h.range node) (node.limit (size node)) lbaOffset.toNat nSectors.toNat := by
  constructor
  · intro hconfined node hnode hguard
    by_cases hle : ((h.range node).1 + lbaOffset.toNat + nSectors.toNat) % 2 ^ 64 ≤
        node.limit (size node)
    · have hpass := (passes_iff h (size node)).2 hle
      have hin := hconfined node hnode _ ((hasks _).2 ⟨node, hnode, hguard, hpass, rfl⟩)
      rcases (inside_iff h _).1 hin with hempty | hrange
      · exact .inl hempty
      · exact .inr (.inl hrange)
    · exact .inr (.inr (Nat.not_le.1 hle))
  · intro hsafe node hnode r hr
    obtain ⟨node', hnode', hguard, hpass, rfl⟩ := (hasks r).1 hr
    rw [hnode] at hnode'
    cases hnode'
    rw [inside_iff]
    rcases hsafe node hnode hguard with hempty | hrange | hbeyond
    · exact .inl hempty
    · exact .inr hrange
    · exact absurd ((passes_iff h (size node)).1 hpass) (Nat.not_le.2 hbeyond)

end Confinement

/-- Neither `ReadSectors` nor `WriteSectors` asks the storage driver for a sector outside the
partition or drive of the handle exactly when the request, if it comes to the checks, is safe. -/
theorem sectors_inside_iff (h : DriveHandle) (vectorized : Bool) (buff : Nat)
    (data : List (BitVec 8)) (lbaOffset nSectors : UInt64) :
    (h.Confined (h.readSectors vectorized buff lbaOffset nSectors) ↔
      ∀ node, h.node = some node → h.closed = false ∧ buff ≠ 0 ∧ nSectors ≠ 0 →
        SafeRequest (h.range node) (node.limit h.readSize) lbaOffset.toNat nSectors.toNat) ∧
    (h.Confined (h.writeSectors buff data lbaOffset nSectors) ↔
      ∀ node, h.node = some node → h.closed = false ∧ buff ≠ 0 ∧ h.canWrite = true →
        SafeRequest (h.range node) (node.limit (h.writeSize node)) lbaOffset.toNat
          nSectors.toNat) := by
  constructor
  · exact (readSectors_asks h vectorized buff lbaOffset nSectors).confined_iff
  · exact (writeSectors_asks h buff data lbaOffset nSectors).confined_iff

/-- A drive of ten sectors, and a handle on its partition of the sectors 2 to 5. -/
def smallPartition : DriveHandle where
  node := some (.partition ⟨2, 4⟩)
  driveNode := ⟨0, ⟨fun _ => some (10, 512), fun _ _ n => some ([], n), fun _ _ n _ => some n⟩⟩
  canWrite := false
  closed := false

/-- Reading five sectors of that partition asks for the sector after it. -/
theorem readSectors_past_end :
    ¬ smallPartition.Confined (smallPartition.readSectors false 0x1000 0 5) := by
  intro hconfined
  have hasked : ⟨0, 2, 5⟩ ∈ (smallPartition.readSectors false 0x1000 0 5).calls :=
    List.mem_singleton.2 rfl
  exact absurd (hconfined (.partition ⟨2, 4⟩) rfl _ hasked 4 (by decide)).2 (by decide)

end Obos.Vfs
