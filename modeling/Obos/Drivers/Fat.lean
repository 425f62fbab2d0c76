import Mathlib.Data.Nat.Basic
import Mathlib.Tactic.Ring

/-!
# Reading files of a FAT volume

The driver keeps a cache of the files of a volume, with the clusters of each. `ReadFile` reads
clusters into a buffer of the kernel and copies the bytes asked for out of it.

It counts the clusters by the number of bytes, without those skipped in the first cluster, and
takes that number for the end of the range of clusters, not for its length; the end of the range of
bytes is computed in 64 bits. `readFile_correct_iff` says for which ranges this makes no
difference: those that start in the first cluster and do not need one more cluster because of
their start. Files of volumes that are not FAT32 are not in the cache.
-/

namespace Obos.Drivers.Fat

open Option

/-! ## The program -/

/-- The two fields of the boot sector that give the size of a cluster. -/
structure Bpb where
  sectorsPerCluster : Nat
  bytesPerSector : Nat

/-- `bytesPerCluster`. -/
def Bpb.bytesPerCluster (b : Bpb) : Nat := b.sectorsPerCluster * b.bytesPerSector

/-- `fatType`, without `INVALID`. -/
inductive FatType where
  | fat12
  | fat16
  | fat32
  deriving DecidableEq

/-- A file or directory, as found in a directory. -/
structure DirEntry where
  path : String
  directory : Bool
  cluster0to15 : Nat
  cluster16to31 : Nat
  filesize : Nat

/-- The first cluster of a file. -/
def DirEntry.baseCluster (d : DirEntry) : Nat := d.cluster0to15 + d.cluster16to31 * 2 ^ 16

/-- The number of clusters that a number of bytes takes. -/
def Bpb.clustersFor (b : Bpb) (n : Nat) : Nat :=
  n / b.bytesPerCluster + if n % b.bytesPerCluster ≠ 0 then 1 else 0

/-- `cacheEntry`. -/
structure CacheEntry where
  path : String
  filesize : Nat
  clusters : List Nat

/-- The cache entry `FAT32LookForEntriesInDirectory` makes of a directory entry. -/
def cacheEntry (b : Bpb) (d : DirEntry) : CacheEntry :=
  let lastCluster := (d.baseCluster + b.clustersFor d.filesize) % 2 ^ 32
  let lastCluster := if d.directory then (lastCluster + 1) % 2 ^ 32 else lastCluster
  ⟨d.path, d.filesize, List.range' d.baseCluster (lastCluster - d.baseCluster)⟩

/-- `partition`. -/
structure Partition where
  fatType : FatType
  bpb : Bpb
  firstDataSec : Nat
  entries : List CacheEntry

/-- What is on a volume. -/
structure Volume where
  fatType : FatType
  bpb : Bpb
  firstDataSec : Nat
  files : List DirEntry

/-- `InitializeCacheForPartition`: what is registered for a volume. -/
def initializeCacheForPartition (v : Volume) : Option Partition :=
  match v.fatType with
  | .fat32 => some ⟨v.fatType, v.bpb, v.firstDataSec, v.files.map (cacheEntry v.bpb)⟩
  | .fat12 | .fat16 => none

/-- `fat32FirstSectorOfCluster`. -/
def fat32FirstSectorOfCluster (cluster : Nat) (b : Bpb) (firstDataSec : Nat) : Nat :=
  ((cluster + 2 ^ 64 - 2) % 2 ^ 64 * b.sectorsPerCluster + firstDataSec) % 2 ^ 32

/-- The body of the loop over the clusters: the buffer, and how much of it is filled. Reading past
the list of clusters is not defined. -/
def readCluster (p : Partition) (clusters : List Nat) (disk : Nat → BitVec 8)
    (st : (Nat → BitVec 8) × Nat) (i : Nat) : Option ((Nat → BitVec 8) × Nat) :=
  (clusters[i]?).map fun cluster =>
    let sector := fat32FirstSectorOfCluster cluster p.bpb p.firstDataSec
    let (fbuffer, currentCluster) := st
    (fun x =>
      if currentCluster ≤ x ∧ x < currentCluster + p.bpb.sectorsPerCluster * p.bpb.bytesPerSector
      then disk (sector * p.bpb.bytesPerSector + (x - currentCluster)) else fbuffer x,
      currentCluster + p.bpb.bytesPerCluster)

/-- The buffer after the clusters were read. -/
def readClusters (p : Partition) (clusters : List Nat) (disk heap : Nat → BitVec 8)
    (clusterIndex nClusters : Nat) : Option (Nat → BitVec 8) :=
  match p.fatType with
  | .fat32 => ((List.range' clusterIndex (nClusters - clusterIndex)).foldlM
      (readCluster p clusters disk) (heap, 0)).map Prod.fst
  | .fat12 | .fat16 => some heap

section ReadFile

variable (pathStrcmp : String → String → Bool) (partitions : Nat → Nat → Option Partition)
  (disk heap : Nat → BitVec 8)

/-- `FindCacheEntry`. -/
def findCacheEntry (entries : List CacheEntry) (path : String) : Option CacheEntry :=
  entries.find? fun e => pathStrcmp e.path path

/-- `ReadFile`: `some none` for a return value of `false`, and otherwise the bytes that are copied
to the caller. `disk` has the bytes of the partition, and `heap` those that are found where the
buffer is made. -/
def readFile (driveId partitionIdOnDrive : Nat) (path : String) (nToSkip nToRead : Nat) :
    Option (Option (Nat → BitVec 8)) :=
  match partitions driveId (partitionIdOnDrive % 2 ^ 8) with
  | none => some none
  | some p =>
    match findCacheEntry pathStrcmp p.entries path with
    | none => some none
    | some entry =>
      if entry.filesize ≤ nToSkip then some none
      else if entry.filesize < (nToSkip + nToRead) % 2 ^ 64 then some none
      else
        let clusterIndex := nToSkip / p.bpb.bytesPerCluster % 2 ^ 32
        (readClusters p entry.clusters disk heap clusterIndex
          (p.bpb.clustersFor nToRead)).map fun fbuffer =>
            some fun j => fbuffer (nToSkip % p.bpb.bytesPerCluster + j)

end ReadFile

/-! ## What a file is -/

/-- A file that lies in consecutive clusters of a volume whose sectors have numbers of 32 bits. -/
structure Stored (v : Volume) (d : DirEntry) : Prop where
  bytesPerCluster_pos : 0 < v.bpb.bytesPerCluster
  isFile : d.directory = false
  filesize_lt : d.filesize < 2 ^ 32
  cluster_ge : 2 ≤ d.baseCluster
  cluster_lt : d.baseCluster + v.bpb.clustersFor d.filesize < 2 ^ 32
  sector_le : v.firstDataSec +
    (d.baseCluster - 2 + v.bpb.clustersFor d.filesize) * v.bpb.sectorsPerCluster ≤ 2 ^ 32

/-- A byte of a file. -/
def fileByte (v : Volume) (disk : Nat → BitVec 8) (d : DirEntry) (i : Nat) : BitVec 8 :=
  disk ((v.firstDataSec + (d.baseCluster - 2) * v.bpb.sectorsPerCluster) * v.bpb.bytesPerSector + i)

/-- Whatever is on the heap, the call succeeds exactly if the range is in the file, and then the
caller gets the bytes of the file. -/
def ReadCorrect (pathStrcmp : String → String → Bool) (partitions : Nat → Nat → Option Partition)
    (disk : Nat → BitVec 8) (v : Volume) (d : DirEntry) (driveId partitionIdOnDrive : Nat)
    (path : String) (nToSkip nToRead : Nat) : Prop :=
  ∀ heap, if nToSkip + nToRead ≤ d.filesize then
    ∃ out, readFile pathStrcmp partitions disk heap driveId partitionIdOnDrive path nToSkip
      nToRead =
      some (some out) ∧ ∀ j < nToRead, out j = fileByte v disk d (nToSkip + j)
  else
    readFile pathStrcmp partitions disk heap driveId partitionIdOnDrive path nToSkip nToRead =
      some none

/-- A range inside the file does not reach over the clusters its length takes, and the end of any
other range does not come out too small. -/
def Aligned (v : Volume) (d : DirEntry) (nToSkip nToRead : Nat) : Prop :=
  if nToSkip + nToRead ≤ d.filesize then
    v.fatType = .fat32 ∧ nToSkip + nToRead ≤ v.bpb.clustersFor nToRead * v.bpb.bytesPerCluster
  else v.fatType ≠ .fat32 ∨ d.filesize ≤ nToSkip ∨ nToSkip + nToRead < 2 ^ 64

/-! ## The clusters -/

section Clusters

variable {v : Volume} {d : DirEntry} {b : Bpb} {disk : Nat → BitVec 8}

theorem Bpb.le_clustersFor (hpos : 0 < b.bytesPerCluster) (n : Nat) :
    n ≤ b.clustersFor n * b.bytesPerCluster := by
  have hdiv := Nat.div_add_mod n b.bytesPerCluster
  have hlt := Nat.mod_lt n hpos
  unfold Bpb.clustersFor
  rw [Nat.add_mul, Nat.mul_comm (n / _)]
  split <;> omega

theorem Bpb.clustersFor_lt (hpos : 0 < b.bytesPerCluster) (n : Nat) :
    b.clustersFor n * b.bytesPerCluster < n + b.bytesPerCluster := by
  have hdiv := Nat.div_add_mod n b.bytesPerCluster
  unfold Bpb.clustersFor
  rw [Nat.add_mul, Nat.mul_comm (n / _)]
  split <;> omega

/-- More bytes take more clusters. -/
theorem Bpb.clustersFor_mono (hpos : 0 < b.bytesPerCluster) {n m : Nat} (h : n ≤ m) :
    b.clustersFor n ≤ b.clustersFor m := by
  have hlt := Bpb.clustersFor_lt hpos n
  have hle := Bpb.le_clustersFor hpos m
  by_contra hcon
  have hmul := Nat.mul_le_mul_right b.bytesPerCluster (Nat.lt_of_not_le hcon)
  rw [Nat.succ_mul] at hmul
  omega

theorem Stored.clusters (h : Stored v d) : (cacheEntry v.bpb d).clusters =
    List.range' d.baseCluster (v.bpb.clustersFor d.filesize) := by
  have hlt := h.cluster_lt
  simp only [cacheEntry, h.isFile, Bool.false_eq_true, if_false, Nat.mod_eq_of_lt hlt,
    Nat.add_sub_cancel_left]

/-- A cluster of the file has no truncated sector number. -/
theorem Stored.firstSector (h : Stored v d) {i : Nat} (hi : i < v.bpb.clustersFor d.filesize) :
    fat32FirstSectorOfCluster (d.baseCluster + i) v.bpb v.firstDataSec =
      v.firstDataSec + (d.baseCluster - 2 + i) * v.bpb.sectorsPerCluster := by
  have hcluster := h.cluster_lt
  have hge := h.cluster_ge
  have hsectors := Nat.pos_of_mul_pos_right h.bytesPerCluster_pos
  have hnext : (d.baseCluster - 2 + i + 1) * v.bpb.sectorsPerCluster ≤
      (d.baseCluster - 2 + v.bpb.clustersFor d.filesize) * v.bpb.sectorsPerCluster :=
    Nat.mul_le_mul_right _ (by omega)
  have hle := h.sector_le
  rw [Nat.succ_mul] at hnext
  unfold fat32FirstSectorOfCluster
  rw [show (d.baseCluster + i + 2 ^ 64 - 2) % 2 ^ 64 = d.baseCluster - 2 + i by omega,
    Nat.mod_eq_of_lt (by omega), Nat.add_comm]

/-- A cluster of the file holds the bytes of the file that come after those of the clusters before
it. -/
theorem Stored.cluster_bytes (h : Stored v d) {i : Nat} (hi : i < v.bpb.clustersFor d.filesize)
    (x : Nat) :
    disk (fat32FirstSectorOfCluster (d.baseCluster + i) v.bpb v.firstDataSec *
      v.bpb.bytesPerSector + x) = fileByte v disk d (i * v.bpb.bytesPerCluster + x) := by
  rw [h.firstSector hi, Bpb.bytesPerCluster]
  congr 1
  ring

/-- The loop fills the buffer with the bytes of the clusters it reads. -/
theorem Stored.readLoop (h : Stored v d) {p : Partition} (hbpb : p.bpb = v.bpb)
    (hfirst : p.firstDataSec = v.firstDataSec) {m k : Nat}
    (hlast : k + m ≤ v.bpb.clustersFor d.filesize) (fbuffer : Nat → BitVec 8) (cur : Nat) :
    (List.range' k m).foldlM (readCluster p (cacheEntry v.bpb d).clusters disk) (fbuffer, cur) =
      some (fun x => if cur ≤ x ∧ x < cur + m * v.bpb.bytesPerCluster then
        fileByte v disk d (k * v.bpb.bytesPerCluster + (x - cur)) else fbuffer x,
        cur + m * v.bpb.bytesPerCluster) := by
  induction m generalizing k fbuffer cur with
  | zero =>
    simp only [List.range'_zero, List.foldlM_nil, Nat.zero_mul, Nat.add_zero]
    congr 2
    funext x
    rw [if_neg (by omega)]
  | succ m ih =>
    have hk : k < v.bpb.clustersFor d.filesize := by omega
    have hcluster : (cacheEntry v.bpb d).clusters[k]? = some (d.baseCluster + k) := by
      rw [h.clusters, List.getElem?_range' hk, Nat.one_mul]
    rw [List.range'_succ, List.foldlM_cons]
    simp only [readCluster, hcluster, map_some, bind, bind_some, hbpb, hfirst]
    rw [ih (by omega)]
    simp only [h.cluster_bytes hk, Nat.succ_mul, some.injEq, Prod.mk.injEq]
    refine ⟨?_, by omega⟩
    funext x
    have hB : v.bpb.sectorsPerCluster * v.bpb.bytesPerSector = v.bpb.bytesPerCluster := rfl
    rw [hB]
    by_cases hnew : cur + v.bpb.bytesPerCluster ≤ x ∧
        x < cur + v.bpb.bytesPerCluster + m * v.bpb.bytesPerCluster
    · rw [if_pos hnew, if_pos (by omega)]
      congr 1
      omega
    · rw [if_neg hnew]
      by_cases hold : cur ≤ x ∧ x < cur + v.bpb.bytesPerCluster
      · rw [if_pos hold, if_pos (by omega)]
      · rw [if_neg hold, if_neg (by omega)]

end Clusters

/-! ## The call -/

section Call

variable {pathStrcmp : String → String → Bool} {partitions : Nat → Nat → Option Partition}
  {disk heap : Nat → BitVec 8} {v : Volume} {d : DirEntry} {driveId partitionIdOnDrive : Nat}
  {path : String} {nToSkip nToRead : Nat}

section

variable (hcached : partitions driveId (partitionIdOnDrive % 2 ^ 8) = initializeCacheForPartition v)
include hcached

/-- On a FAT32 volume the entry of the file is found. -/
theorem readFile_fat32 (hfound : v.files.find? (fun d => pathStrcmp d.path path) = some d)
    (htype : v.fatType = .fat32) :
    readFile pathStrcmp partitions disk heap driveId partitionIdOnDrive path nToSkip nToRead =
      if d.filesize ≤ nToSkip ∨ d.filesize < (nToSkip + nToRead) % 2 ^ 64 then some none
      else (readClusters ⟨v.fatType, v.bpb, v.firstDataSec, v.files.map (cacheEntry v.bpb)⟩
        (cacheEntry v.bpb d).clusters disk heap (nToSkip / v.bpb.bytesPerCluster % 2 ^ 32)
        (v.bpb.clustersFor nToRead)).map fun fbuffer =>
          some fun j => fbuffer (nToSkip % v.bpb.bytesPerCluster + j) := by
  have hentry : findCacheEntry pathStrcmp (v.files.map (cacheEntry v.bpb)) path =
      some (cacheEntry v.bpb d) := by
    unfold findCacheEntry
    rw [List.find?_map]
    exact congrArg (Option.map _) hfound
  have hsize : (cacheEntry v.bpb d).filesize = d.filesize := rfl
  simp only [readFile, hcached, initializeCacheForPartition, htype, hentry, hsize]
  by_cases hskip : d.filesize ≤ nToSkip
  · simp only [hskip, if_true, true_or]
  · simp only [hskip, if_false, false_or]

/-- On another volume no entry is found. -/
theorem readFile_other (htype : v.fatType ≠ .fat32) :
    readFile pathStrcmp partitions disk heap driveId partitionIdOnDrive path nToSkip nToRead =
      some none := by
  have hnone : initializeCacheForPartition v = none := by
    unfold initializeCacheForPartition
    cases ht : v.fatType with
    | fat32 => exact absurd ht htype
    | fat12 => rfl
    | fat16 => rfl
  simp only [readFile, hcached, hnone]

end

/-- The bytes the caller gets for a range inside the file: those of the file as far as clusters were
read, and then what was on the heap. -/
theorem readFile_inside (h : Stored v d)
    (hcached : partitions driveId (partitionIdOnDrive % 2 ^ 8) = initializeCacheForPartition v)
    (hfound : v.files.find? (fun d => pathStrcmp d.path path) = some d) (htype : v.fatType = .fat32)
    (hread : 1 ≤ nToRead) (hinside : nToSkip + nToRead ≤ d.filesize) :
    readFile pathStrcmp partitions disk heap driveId partitionIdOnDrive path nToSkip nToRead =
      some (some fun j =>
        if nToSkip % v.bpb.bytesPerCluster + j < (v.bpb.clustersFor nToRead -
          nToSkip / v.bpb.bytesPerCluster) * v.bpb.bytesPerCluster
        then fileByte v disk d (nToSkip + j)
        else heap (nToSkip % v.bpb.bytesPerCluster + j)) := by
  have hlt := h.filesize_lt
  have hpos := h.bytesPerCluster_pos
  have hindex : nToSkip / v.bpb.bytesPerCluster ≤ nToSkip := Nat.div_le_self _ _
  have hmono := Bpb.clustersFor_mono (b := v.bpb) hpos (show nToRead ≤ d.filesize by omega)
  rw [readFile_fat32 hcached hfound htype, if_neg (by omega),
    Nat.mod_eq_of_lt (show nToSkip / v.bpb.bytesPerCluster < 2 ^ 32 by omega)]
  generalize hk : nToSkip / v.bpb.bytesPerCluster = k
  have hsplit : nToSkip = k * v.bpb.bytesPerCluster + nToSkip % v.bpb.bytesPerCluster := by
    rw [← hk, Nat.mul_comm]
    exact (Nat.div_add_mod ..).symm
  by_cases hkn : k ≤ v.bpb.clustersFor nToRead
  · simp only [readClusters, htype]
    rw [h.readLoop rfl rfl (by omega)]
    simp only [map_some, Nat.zero_le, true_and, Nat.zero_add, Nat.sub_zero]
    congr 2
    funext j
    split
    · congr 1
      omega
    · rfl
  · have hzero : v.bpb.clustersFor nToRead - k = 0 := by omega
    simp only [readClusters, htype, hzero, List.range'_zero, List.foldlM_nil, Nat.zero_mul,
      Nat.not_lt_zero, if_false]
    rfl

/-- The call is right exactly for the ranges that the clusters counted for their length hold, and
for those outside the file whose end is not truncated. -/
theorem readFile_correct_iff (h : Stored v d)
    (hcached : partitions driveId (partitionIdOnDrive % 2 ^ 8) = initializeCacheForPartition v)
    (hfound : v.files.find? (fun d => pathStrcmp d.path path) = some d) (hread : 1 ≤ nToRead)
    (hlt : nToRead < 2 ^ 64) :
    ReadCorrect pathStrcmp partitions disk v d driveId partitionIdOnDrive path nToSkip nToRead ↔
      Aligned v d nToSkip nToRead := by
  have hpos := h.bytesPerCluster_pos
  unfold ReadCorrect Aligned
  by_cases hinside : nToSkip + nToRead ≤ d.filesize
  · simp only [hinside, if_true]
    by_cases htype : v.fatType = .fat32
    · simp only [htype, true_and]
      have hmod := Nat.div_add_mod nToSkip v.bpb.bytesPerCluster
      rw [Nat.mul_comm] at hmod
      constructor
      · intro hall
        by_contra hover
        -- the last byte asked for is one of the heap, which may be any
        obtain ⟨out, hout, hbytes⟩ := hall fun _ => fileByte v disk d (nToSkip + (nToRead - 1)) + 1
        rw [readFile_inside h hcached hfound htype hread hinside] at hout
        cases hout
        have hlast := hbytes (nToRead - 1) (by omega)
        have hbeyond : ¬ nToSkip % v.bpb.bytesPerCluster + (nToRead - 1) <
            (v.bpb.clustersFor nToRead - nToSkip / v.bpb.bytesPerCluster) *
              v.bpb.bytesPerCluster := by
          rw [Nat.sub_mul]
          omega
        simp only [hbeyond, if_false] at hlast
        exact absurd hlast (by bv_omega)
      · intro hheld heap
        have hless := Bpb.clustersFor_lt hpos nToRead
        have hfirst : nToSkip / v.bpb.bytesPerCluster = 0 := Nat.div_eq_of_lt (by omega)
        refine ⟨_, readFile_inside h hcached hfound htype hread hinside, fun j hj => ?_⟩
        simp only [hfirst, Nat.sub_zero]
        rw [if_pos (by omega)]
    · simp only [htype, false_and, iff_false]
      intro hcon
      obtain ⟨out, hout, -⟩ := hcon fun _ => 0
      rw [readFile_other hcached htype] at hout
      cases hout
  · simp only [hinside, if_false]
    by_cases htype : v.fatType = .fat32
    · simp only [htype, ne_eq, not_true, false_or]
      constructor
      · intro hall
        by_contra hpass
        have hfalse := hall fun _ => 0
        rw [readFile_fat32 hcached hfound htype, if_neg (by omega)] at hfalse
        obtain ⟨fbuffer, -, hsome⟩ := map_eq_some_iff.1 hfalse
        cases hsome
      · intro hout heap
        rw [readFile_fat32 hcached hfound htype, if_pos (by omega)]
    · exact iff_of_true (fun _ => readFile_other hcached htype) (.inl htype)

end Call

/-- A volume with clusters of two bytes and a file of six, from its third cluster on. -/
def smallVolume : Volume := ⟨.fat32, ⟨1, 2⟩, 4, [⟨"a", false, 5, 0, 6⟩]⟩

/-- The byte with number `i` of the partition is `i`. -/
def smallDisk (i : Nat) : BitVec 8 := BitVec.ofNat 8 i

theorem stored_smallVolume : Stored smallVolume ⟨"a", false, 5, 0, 6⟩ :=
  ⟨by decide, rfl, by decide, by decide, by decide, by decide⟩

/-- The first three bytes are read as they are. -/
theorem readFile_correct_iff_start :
    ReadCorrect (· == ·) (fun _ _ => initializeCacheForPartition smallVolume) smallDisk smallVolume
      ⟨"a", false, 5, 0, 6⟩ 0 0 "a" 0 3 :=
  (readFile_correct_iff stored_smallVolume rfl rfl (by decide) (by decide)).2
    ⟨rfl, by decide⟩

/-- The bytes 2 and 3 are asked for: no cluster is read, and the caller gets what is on the heap. -/
theorem readFile_returns_heap :
    ¬ ReadCorrect (· == ·) (fun _ _ => initializeCacheForPartition smallVolume) smallDisk
      smallVolume
      ⟨"a", false, 5, 0, 6⟩ 0 0 "a" 2 2 := by
  intro h
  obtain ⟨out, hout, hbytes⟩ := h fun _ => 0xff
  have hheap : readFile (· == ·) (fun _ _ => initializeCacheForPartition smallVolume) smallDisk
      (fun _ => 0xff) 0 0 "a" 2 2 = some (some fun _ => 0xff) := rfl
  cases hout.symm.trans hheap
  exact absurd (hbytes 0 (by decide)) (by decide)

end Obos.Drivers.Fat
