import Obos.Vfs.OpenPath

/-!
# Paths of drives

`OpenDrive` takes a path `D<d>:/` for a drive and `D<d>P<p>:/` for a partition of it. What follows
is documented to be ignored, but a `P` is searched for in the whole path, so that a path of a drive
with a `P` behind the slash is taken for one of a partition (`drivePaths_right_iff`). -/

namespace Obos.Vfs

/-! ## The ids in a path -/

/-- What `OpenDrive` looks for: the drive, and the partition if the path names one. -/
structure DriveTarget where
  driveId : BitVec 32
  partitionId : Option (BitVec 32)
  deriving DecidableEq

/-- The part of `OpenDrive` that reads the path. -/
def driveTarget (path : CString) : DriveTarget :=
  let openPartition := path.contains capitalP
  let sizeDID := strCountToChar (path.drop 1) (if openPartition then capitalP else colon)
  let driveId := getMountId (path.drop 1) sizeDID
  let rest := path.drop (1 + sizeDID + 1)
  ⟨driveId, if openPartition then some (getMountId rest (strCountToChar rest colon)) else none⟩

/-- The drive and the partition with the ids looked for. -/
def DriveTarget.find (target : DriveTarget) (drives : List Disk) :
    Except VfsError (Disk × Option Volume) :=
  match drives.find? fun drive => drive.driveId = target.driveId with
  | none => .error .fileNotFound
  | some drive =>
    match target.partitionId with
    | none => .ok (drive, none)
    | some partitionId =>
      match drive.partitions.find? fun part => part.partitionId = partitionId with
      | none => .error .fileNotFound
      | some part => .ok (drive, some part)

theorem openDrive_eq {path : CString} (hpath : path.head? = some 0x44) (drives : List Disk) :
    openDrive drives path = (driveTarget path).find drives := by
  rw [openDrive, if_neg (not_not.2 hpath)]
  unfold DriveTarget.find driveTarget
  cases path.contains capitalP with
  | true => rfl
  | false => rfl

/-- A partition is not found on a drive that has none. -/
theorem DriveTarget.find_bare {target : DriveTarget} (h : target.partitionId ≠ none)
    (d : BitVec 32) : target.find [⟨d, []⟩] = .error .fileNotFound := by
  obtain ⟨p, hp⟩ := Option.ne_none_iff_exists'.1 h
  rw [DriveTarget.find, hp]
  by_cases hd : d = target.driveId
  · simp [hd]
  · simp [hd]

open DriveTarget (find find_bare)

/-! ## The documented paths -/

/-- The string that begins with some bytes, which ends at the first zero. -/
def cString (bs : List (BitVec 8)) : CString := bs.takeWhile (· ≠ 0)

/-- `D<d>:/`, and what follows. -/
def wholeDrivePath (d : BitVec 32) (suffix : List (BitVec 8)) : CString :=
  cString ([0x44] ++ decimalDigits d.toNat ++ [colon, slash] ++ suffix)

/-- `D<d>P<p>:/`, and what follows. -/
def partitionPath (d p : BitVec 32) (suffix : List (BitVec 8)) : CString :=
  cString ([0x44] ++ decimalDigits d.toNat ++ [capitalP] ++ decimalDigits
    p.toNat ++ [colon, slash] ++ suffix)

/-- The target of a path with a `P` behind the number of the drive. -/
theorem driveTarget_partition (d : BitVec 32) {t : CString} :
    driveTarget ([0x44] ++ decimalDigits d.toNat ++ capitalP :: t) =
      ⟨d, some (getMountId t (strCountToChar t colon))⟩ := by
  have hdigits : capitalP ∉ decimalDigits d.toNat := notMem_decimalDigits (by decide)
  have hpath : [0x44] ++ decimalDigits d.toNat ++ capitalP :: t =
      0x44 :: (decimalDigits d.toNat ++ capitalP :: t) := by simp
  have hcontains : ([0x44] ++ decimalDigits d.toNat ++ capitalP :: t).contains capitalP = true := by
    simp
  have hsize : strCountToChar (decimalDigits d.toNat ++ capitalP :: t) capitalP =
      (decimalDigits d.toNat).length := strCountToChar_append hdigits
  have hrest : (0x44 :: (decimalDigits d.toNat ++ capitalP :: t)).drop
      (1 + (decimalDigits d.toNat).length + 1) = t := by
    rw [show 1 + (decimalDigits d.toNat).length + 1 =
      (decimalDigits d.toNat).length + 1 + 1 by omega,
      List.drop_succ_cons, List.drop_length_add_append]
    rfl
  simp only [driveTarget, hcontains, if_true]
  rw [hpath, List.drop_succ_cons, List.drop_zero, hsize, hrest, getMountId_decimalDigits,
    BitVec.ofNat_toNat, BitVec.setWidth_eq]

/-- The target of a path without one. -/
theorem driveTarget_whole (d : BitVec 32) {t : CString} (ht : capitalP ∉ t) :
    driveTarget ([0x44] ++ decimalDigits d.toNat ++ colon :: t) = ⟨d, none⟩ := by
  have hdigits : capitalP ∉ decimalDigits d.toNat := notMem_decimalDigits (by decide)
  have hcolon : colon ∉ decimalDigits d.toNat := notMem_decimalDigits (by decide)
  have hpath : [0x44] ++ decimalDigits d.toNat ++ colon :: t =
      0x44 :: (decimalDigits d.toNat ++ colon :: t) := by simp
  have hcontains : ([0x44] ++ decimalDigits d.toNat ++ colon :: t).contains capitalP = false := by
    have hD : capitalP ≠ 68#8 := by decide
    have hP : capitalP ≠ colon := by decide
    simp [hdigits, ht, hD, hP]
  have hsize : strCountToChar (decimalDigits d.toNat ++ colon :: t) colon =
      (decimalDigits d.toNat).length := strCountToChar_append hcolon
  simp only [driveTarget, hcontains, Bool.false_eq_true, if_false]
  rw [hpath, List.drop_succ_cons, List.drop_zero, hsize, getMountId_decimalDigits,
    BitVec.ofNat_toNat, BitVec.setWidth_eq]

theorem cString_append {s : CString} (hs : 0 ∉ s) (suffix : List (BitVec 8)) :
    cString (s ++ suffix) = s ++ cString suffix := by
  rw [cString, List.takeWhile_append_of_pos, cString]
  intro b hb
  have hne : b ≠ 0 := fun he => hs (he ▸ hb)
  simpa using hne

theorem wholeDrivePath_eq (d : BitVec 32) (suffix : List (BitVec 8)) :
    wholeDrivePath d suffix =
      [0x44] ++ decimalDigits d.toNat ++ colon :: slash :: cString suffix := by
  have hdigits : 0#8 ∉ decimalDigits d.toNat := notMem_decimalDigits (by decide)
  rw [wholeDrivePath, cString_append (by simp [hdigits, colon, slash])]
  simp

theorem partitionPath_eq (d p : BitVec 32) (suffix : List (BitVec 8)) :
    partitionPath d p suffix = [0x44] ++ decimalDigits d.toNat ++ capitalP ::
      (decimalDigits p.toNat ++ colon :: slash :: cString suffix) := by
  have hd : 0#8 ∉ decimalDigits d.toNat := notMem_decimalDigits (by decide)
  have hp : 0#8 ∉ decimalDigits p.toNat := notMem_decimalDigits (by decide)
  rw [partitionPath, cString_append (by simp [hd, hp, colon, slash, capitalP])]
  simp

/-- Whatever follows a documented path, `OpenDrive` looks for the drive or the partition that it
names, if and only if there is no `P` in what follows. -/
theorem drivePaths_right_iff (d p : BitVec 32) (suffix : List (BitVec 8)) :
    ((∀ drives, openDrive drives (wholeDrivePath d suffix) = DriveTarget.find ⟨d, none⟩ drives) ∧
      ∀ drives, openDrive drives (partitionPath d p suffix) = DriveTarget.find ⟨d, some p⟩ drives) ↔
      capitalP ∉ cString suffix := by
  constructor
  · rintro ⟨hwhole, -⟩ hmem
    -- the drive is there, but a partition is looked for
    have hfound := hwhole [⟨d, []⟩]
    rw [wholeDrivePath_eq, openDrive_eq (by simp),
      find_bare (by simp [driveTarget, hmem])] at hfound
    simp [find] at hfound
  · intro hsuffix
    constructor
    · intro drives
      have hne : capitalP ≠ slash := by decide
      have hslash : capitalP ∉ slash :: cString suffix := by simp [hsuffix, hne]
      rw [wholeDrivePath_eq, openDrive_eq (by simp), driveTarget_whole d hslash]
    · intro drives
      have hcolon : colon ∉ decimalDigits p.toNat := notMem_decimalDigits (by decide)
      rw [partitionPath_eq, openDrive_eq (by simp), driveTarget_partition,
        strCountToChar_append hcolon, getMountId_decimalDigits, BitVec.ofNat_toNat,
        BitVec.setWidth_eq]

/-- With `Pictures` behind it the path of drive 0 is not found, though the drive is there. -/
theorem openDrive_pictures : openDrive [⟨0, []⟩] (wholeDrivePath 0 (bytes "Pictures")) ≠
    DriveTarget.find ⟨0, none⟩ [⟨0, []⟩] := by
  rw [wholeDrivePath_eq, openDrive_eq (by simp), find_bare]
  · simp [find]
  · have hmem : capitalP ∈ cString (bytes "Pictures") := by decide
    simp [driveTarget, hmem]

end Obos.Vfs
