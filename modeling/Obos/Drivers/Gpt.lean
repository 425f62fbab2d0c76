import Obos.Lib.Memory
import Obos.Lib.Run
import Obos.Vfs.DriveHandle

/-!
# The partitions of a GPT disk

`RegisterGPTPartitionsOnDrive` looks for the partitions of a drive: it verifies the header in
sector 1, or else the one it calls its alternate, verifies the table of partition entries, and goes
through the table sector by sector. In each sector it stops at the first unused entry, it takes the
entries of the sector to have 128 bytes, and it leaves the last sector out of the size of a
partition. `registers_right_iff` says for which valid disks this makes no difference: those that
have no partition.
-/

namespace Obos.Drivers.Gpt

open Lib Vfs List
open BitVec (getLsbD_and getLsbD_not getLsbD_xor)

/-! ## The program -/

/-- `GPT_HEADER_SIGNATURE`. -/
def gptHeaderSignature : Nat := 0x5452415020494645

/-- `gpt_header`, without `resv1` and `diskGUID`. -/
structure GptHeader where
  signature : Nat
  revision : Nat
  sizeofHeader : Nat
  headerCRC32 : Nat
  myLBA : Nat
  alternateLBA : Nat
  firstUsableLBA : Nat
  lastUsableLBA : Nat
  partitionEntryLBA : Nat
  nPartitionEntries : Nat
  szPartitionEntry : Nat
  partitionTableCRC32 : Nat
  deriving DecidableEq

/-- `sizeof(gpt_header)`. -/
def sizeofGptHeader : Nat := 92

/-- A field of 32 bits. -/
def load32 (m : Memory) (a : Nat) : Nat := m.loadNat a % 2 ^ 32

/-- The header in front of a sector. -/
def GptHeader.read (m : Memory) : GptHeader where
  signature := m.loadNat 0
  revision := load32 m 8
  sizeofHeader := load32 m 12
  headerCRC32 := load32 m 16
  myLBA := m.loadNat 24
  alternateLBA := m.loadNat 32
  firstUsableLBA := m.loadNat 40
  lastUsableLBA := m.loadNat 48
  partitionEntryLBA := m.loadNat 72
  nPartitionEntries := load32 m 80
  szPartitionEntry := load32 m 84
  partitionTableCRC32 := load32 m 88

/-- `gpt_partition`, without what the driver does not use. -/
structure GptPartition where
  partGUID : List (BitVec 8)
  startLBA : Nat
  endLBA : Nat
  deriving DecidableEq

/-- `sizeof(gpt_partition)`. -/
def sizeofGptPartition : Nat := 128

/-- The entry at an address. -/
def GptPartition.read (m : Memory) (a : Nat) : GptPartition where
  partGUID := (List.range 16).map fun i => m (a + i)
  startLBA := m.loadNat (a + 32)
  endLBA := m.loadNat (a + 40)

/-- An entry is used if its type is not zero. -/
def GptPartition.used (e : GptPartition) : Bool := !e.partGUID.all (· == 0)

/-- The body of the inner loop of `crcInit`. -/
def crcRound (crc : BitVec 32) : BitVec 32 :=
  (crc >>> 1) ^^^ (0xEDB88320#32 &&& -(crc &&& 1))

/-- `crctab`, as `crcInit` fills it. -/
def crctab (i : BitVec 32) : BitVec 32 := crcRound^[8] i

/-- The body of the loop of `crc`. -/
def crcByte (data : Memory) (result : BitVec 32) (i : Nat) : BitVec 32 :=
  (result >>> 8) ^^^ crctab ((result ^^^ (data i).signExtend 32) &&& 0xFF)

/-- `crc`. -/
def crc (data : Memory) (len : Nat) (result : BitVec 32) : BitVec 32 :=
  ~~~ (List.range len).foldl (crcByte data) result

/-- `crc32_bytes`. -/
def crc32Bytes (data : Memory) (sz : Nat) : Nat := (crc data sz (~~~ 0)).toNat

/-- `crc32_bytes_from_previous`. -/
def crc32BytesFromPrevious (data : Memory) (sz : Nat) (previousChecksum : BitVec 32) : Nat :=
  (crc data sz (~~~ previousChecksum)).toNat

/-- The bytes of a list in memory. -/
def memoryOf (a : List (BitVec 8)) : Memory := fun i => a.getD i 0

/-- One bit of the reflected CRC-32. -/
def crcBit (c : BitVec 32) : BitVec 32 :=
  if c.getLsbD 0 then (c >>> 1) ^^^ 0xEDB88320#32 else c >>> 1

/-- The reflected CRC-32, bit by bit. -/
def crcBitwise (a : List (BitVec 8)) : BitVec 32 :=
  ~~~ a.foldl (fun c x => crcBit^[8] (c ^^^ x.setWidth 32)) (~~~ 0)

section Checksum

theorem crcRound_eq_crcBit : crcRound = crcBit := by
  funext c
  have h : c &&& 1 = (BitVec.ofBool (c.getLsbD 0)).setWidth 32 :=
    BitVec.and_one_eq_setWidth_ofBool_getLsbD
  rw [crcRound, crcBit, h]
  cases c.getLsbD 0 <;> simp

theorem crcBit_xor (c c' : BitVec 32) : crcBit (c ^^^ c') = crcBit c ^^^ crcBit c' := by
  have hcancel (a b p : BitVec 32) : a ^^^ b = a ^^^ p ^^^ (b ^^^ p) := by
    rw [BitVec.xor_comm b p, BitVec.xor_assoc, ← BitVec.xor_assoc p, BitVec.xor_self,
      BitVec.zero_xor]
  simp only [crcBit, getLsbD_xor, BitVec.ushiftRight_xor_distrib]
  cases c.getLsbD 0 <;> cases c'.getLsbD 0
  · rfl
  · exact BitVec.xor_assoc _ _ _
  · simp only [Bool.xor_false, if_true, Bool.false_eq_true, if_false]
    ac_rfl
  · exact hcancel _ _ _

theorem iterate_crcBit_xor (k : Nat) (c c' : BitVec 32) :
    crcBit^[k] (c ^^^ c') = crcBit^[k] c ^^^ crcBit^[k] c' := by
  induction k generalizing c c' with
  | zero => rfl
  | succ k ih => rw [Function.iterate_succ_apply, crcBit_xor, ih, ← Function.iterate_succ_apply,
      ← Function.iterate_succ_apply]

/-- Low bits that are zero are shifted out. -/
theorem iterate_crcBit_eq_shift {c : BitVec 32} {k : Nat} (h : ∀ i < k, c.getLsbD i = false) :
    crcBit^[k] c = c >>> k := by
  induction k with
  | zero => simp
  | succ k ih =>
    rw [Function.iterate_succ_apply', ih fun i hi => h i (by omega), crcBit,
      BitVec.getLsbD_ushiftRight, Nat.add_zero, h k (by omega), if_neg Bool.false_ne_true,
      BitVec.shiftRight_add]

/-- The table deals with the eight bits of a byte at once. -/
theorem crcByte_eq (data : Memory) (c : BitVec 32) (i : Nat) :
    crcByte data c i = crcBit^[8] (c ^^^ (data i).setWidth 32) := by
  have hlow (j : Nat) : (0xFF#32).getLsbD j = decide (j < 8) := by
    have h : 0xFF#32 = BitVec.ofNat 32 (2 ^ 8 - 1) := rfl
    rw [h, BitVec.getLsbD_ofNat, Nat.testBit_two_pow_sub_one]
    grind
  have hsplit : c ^^^ (data i).setWidth 32 = (c &&& ~~~0xFF#32) ^^^
      ((c ^^^ (data i).signExtend 32) &&& 0xFF#32) := by
    ext j hj
    simp only [← BitVec.getLsbD_eq_getElem, getLsbD_xor, getLsbD_and,
      getLsbD_not, BitVec.getLsbD_setWidth, BitVec.getLsbD_signExtend, hlow]
    by_cases h : j < 8
    · simp [h, hj]
    · simp [h, hj, BitVec.getLsbD_of_ge (data i) j (by omega)]
  rw [hsplit, iterate_crcBit_xor, iterate_crcBit_eq_shift, crcByte, crctab, crcRound_eq_crcBit]
  · congr 1
    ext j hj
    simp only [← BitVec.getLsbD_eq_getElem, BitVec.getLsbD_ushiftRight, getLsbD_and,
      getLsbD_not, hlow]
    by_cases h : 8 + j < 32
    · simp [h]
    · simp [BitVec.getLsbD_of_ge c (8 + j) (by omega)]
  · intro j hj
    simp only [getLsbD_and, getLsbD_not, hlow, hj]
    simp

/-- The checksum of the bytes of a list, starting at any value. -/
theorem crc_memoryOf (a : List (BitVec 8)) (c : BitVec 32) : crc (memoryOf a) a.length c =
    ~~~ a.foldl (fun c x => crcBit^[8] (c ^^^ x.setWidth 32)) c := by
  have hbytes : (range a.length).map (memoryOf a) = a :=
    ext_getElem (by simp) fun i h h' => by simp [memoryOf, getElem?_eq_getElem h']
  conv_rhs => rw [← hbytes]
  rw [crc, foldl_map]
  congr 1
  exact foldl_ext _ _ _ fun c i _ => crcByte_eq _ c i

/-- **The table checksum is the bitwise one**, and it continues from a previous checksum. -/
theorem checksum_bitwise (a b : List (BitVec 8)) :
    crc32Bytes (memoryOf a) a.length = (crcBitwise a).toNat ∧
    crc32BytesFromPrevious (memoryOf b) b.length
        (BitVec.ofNat 32 (crc32Bytes (memoryOf a) a.length)) =
      crc32Bytes (memoryOf (a ++ b)) (a ++ b).length := by
  constructor
  · rw [crc32Bytes, crc_memoryOf, crcBitwise]
  · simp only [crc32BytesFromPrevious, crc32Bytes, BitVec.ofNat_toNat, BitVec.setWidth_eq,
      crc_memoryOf, BitVec.not_not, foldl_append]

end Checksum

/-- The header while its checksum is computed. -/
def withoutChecksum (m : Memory) : Memory := m.fill 16 4 0

/-- The check of the header: its first bytes have the checksum it gives. -/
def intact (m : Memory) : Bool :=
  crc32Bytes (withoutChecksum m) sizeofGptHeader == (GptHeader.read m).headerCRC32

/-- A disk. -/
structure Disk where
  sizeofSector : UInt64
  nSectors : UInt64
  bytes : Memory

/-- The driver of a disk. It reads the sectors of the disk and no others. -/
def Disk.storageDriver (d : Disk) : StorageDriver where
  queryDiskInfo _ := some (d.nSectors, d.sizeofSector)
  readSectors _ lbaOffset nSectors :=
    if lbaOffset.toNat + nSectors.toNat ≤ d.nSectors.toNat then
      some ((List.range (nSectors.toNat * d.sizeofSector.toNat)).map
        fun x => d.bytes (lbaOffset.toNat * d.sizeofSector.toNat + x), nSectors)
    else none
  writeSectors _ _ _ _ := none

/-- `OpenDrive`, with `OPTIONS_READ_ONLY`. -/
def Disk.openDrive (d : Disk) (driveId : UInt32) : DriveHandle where
  node := some .drive
  driveNode := ⟨driveId, d.storageDriver⟩
  canWrite := false
  closed := false

/-- Memory of the driver's allocator. -/
structure Buffer where
  address : Nat
  allocated : address ≠ 0
  bytes : Memory

/-- `partitionInfo`. -/
structure PartitionInfo where
  id : Nat
  lbaOffset : Nat
  sizeSectors : Nat
  deriving DecidableEq

section Register

variable (vectorized : Bool) (d : Disk) (driveId : UInt32)

/-- `ReadSectors` into a buffer. -/
def Disk.readSectors (buff : Buffer) (lbaOffset nSectors : Nat) : Option Buffer :=
  match ((d.openDrive driveId).readSectors vectorized buff.address (UInt64.ofNat lbaOffset)
    (UInt64.ofNat nSectors)).result with
  | .error _ => none
  | .ok (read, _) => some { buff with bytes := fun x => read.getD x (buff.bytes x) }

/-- The header that is used, if there is one. -/
def verifiedHeader (firstSector : Buffer) : Option Buffer := do
  let firstSector ← d.readSectors vectorized driveId firstSector 1 1
  if (GptHeader.read firstSector.bytes).signature ≠ gptHeaderSignature then none
  else if intact firstSector.bytes then some firstSector
  else do
    let firstSector ← d.readSectors vectorized driveId firstSector
      (GptHeader.read firstSector.bytes).alternateLBA 1
    if intact firstSector.bytes then some firstSector else none

/-- The loop that counts the entries in front of the first unused one of a sector. -/
def countUsed (sector : Memory) (sizeofSector szPartitionEntry : Nat) : Nat → Nat → Nat
  | 0, _ => 0
  | fuel + 1, iter =>
    if iter < sizeofSector ∧ (GptPartition.read sector iter).used then
      countUsed sector sizeofSector szPartitionEntry fuel (iter + szPartitionEntry) + 1
    else 0

/-- What is registered for an entry of `table`. -/
def partitionInfo (table : Memory) (id partEntry : Nat) : PartitionInfo :=
  let e := GptPartition.read table (partEntry * sizeofGptPartition)
  ⟨id % 2 ^ 32, e.startLBA, (e.endLBA + 2 ^ 64 - e.startLBA) % 2 ^ 64⟩

/-- The body of the loop over the sectors of the table. -/
def registerSector (h : GptHeader) (st : Buffer × List PartitionInfo) (i : Nat) :
    Option (Buffer × List PartitionInfo) := do
  let currentSector ← d.readSectors vectorized driveId st.1 (h.partitionEntryLBA + i) 1
  let sizeofSector := d.sizeofSector.toNat
  let nPartitionEntriesOnSector :=
    countUsed currentSector.bytes sizeofSector h.szPartitionEntry sizeofSector 0
  return (currentSector, st.2 ++ (List.range nPartitionEntriesOnSector).map fun partEntry =>
    partitionInfo currentSector.bytes (st.2.length + partEntry) partEntry)

/-- `nSectorsForPartitionTable`. -/
def nSectorsForPartitionTable (h : GptHeader) : Nat :=
  let nPartitionEntriesPerSector := d.sizeofSector.toNat / h.szPartitionEntry
  h.nPartitionEntries / nPartitionEntriesPerSector +
    if h.nPartitionEntries % nPartitionEntriesPerSector ≠ 0 then 1 else 0

/-- The part of `RegisterGPTPartitionsOnDrive` that verifies the table and goes through it. -/
def registerTable (h : GptHeader) (currentSector : Buffer) : Option (List PartitionInfo) := do
  let n := nSectorsForPartitionTable d h
  let currentSector ← d.readSectors vectorized driveId currentSector h.partitionEntryLBA n
  if crc32Bytes currentSector.bytes (d.sizeofSector.toNat * n % 2 ^ 64) ≠ h.partitionTableCRC32 then
    none
  else do
    let st ← (List.range n).foldlM (registerSector vectorized d driveId h) (currentSector, [])
    return st.2

/-- `RegisterGPTPartitionsOnDrive`: `some none` for a return value of `false`. It divides by the
number of entries in a sector. -/
def registerGPTPartitionsOnDrive (firstSector currentSector : Buffer) :
    Option (Option (List PartitionInfo)) :=
  match verifiedHeader vectorized d driveId firstSector with
  | none => some none
  | some firstSector =>
    let gptHeader := GptHeader.read firstSector.bytes
    if gptHeader.szPartitionEntry = 0 ∨ d.sizeofSector.toNat / gptHeader.szPartitionEntry = 0 then
      none
    else some (registerTable vectorized d driveId gptHeader currentSector)

end Register

/-! ## Valid disks -/

/-- The bytes of the disk from a sector on. -/
def Disk.sector (d : Disk) (lba : Nat) : Memory := fun x => d.bytes (lba * d.sizeofSector.toNat + x)

/-- The entries of the table. -/
def Disk.entries (d : Disk) (h : GptHeader) : List GptPartition :=
  (List.range h.nPartitionEntries).map fun i =>
    GptPartition.read (d.sector h.partitionEntryLBA) (i * h.szPartitionEntry)

/-- The entries that are used. -/
def Disk.usedEntries (d : Disk) (h : GptHeader) : List GptPartition :=
  (d.entries h).filter GptPartition.used

/-- Two partitions have no sector in common. -/
def GptPartition.Apart (e e' : GptPartition) : Prop :=
  e.endLBA < e'.startLBA ∨ e'.endLBA < e.startLBA

instance (e e' : GptPartition) : Decidable (e.Apart e') := inferInstanceAs (Decidable (_ ∨ _))

/-- The header in a sector is valid, and so is the table it points at. -/
structure Disk.ValidHeader (d : Disk) (lba : Nat) (h : GptHeader) : Prop where
  header : h = GptHeader.read (d.sector lba)
  onDisk : lba < d.nSectors.toNat
  signature : h.signature = gptHeaderSignature
  revision : h.revision = 0x10000
  sizeofHeader : sizeofGptHeader ≤ h.sizeofHeader ∧ h.sizeofHeader ≤ d.sizeofSector.toNat
  headerCRC32 : crc32Bytes (withoutChecksum (d.sector lba)) h.sizeofHeader = h.headerCRC32
  myLBA : h.myLBA = lba
  szPartitionEntry : ∃ k, h.szPartitionEntry = 128 * 2 ^ k
  table : h.partitionEntryLBA * d.sizeofSector.toNat + h.nPartitionEntries * h.szPartitionEntry ≤
    d.nSectors.toNat * d.sizeofSector.toNat
  partitionTableCRC32 : crc32Bytes (d.sector h.partitionEntryLBA)
    (h.nPartitionEntries * h.szPartitionEntry) = h.partitionTableCRC32
  usable : ∀ e ∈ d.usedEntries h, h.firstUsableLBA ≤ e.startLBA ∧ e.startLBA ≤ e.endLBA ∧
    e.endLBA ≤ h.lastUsableLBA
  apart : (d.usedEntries h).Pairwise GptPartition.Apart

/-- The header in sector 1 and its alternate are valid, and have the same entries. A sector holds
whole entries, or is smaller than one. -/
structure Disk.ValidGpt (d : Disk) (h : GptHeader) : Prop where
  sizeofSector : 512 ≤ d.sizeofSector.toNat
  nSectors : d.nSectors.toNat + 1 < 2 ^ 64
  whole : h.szPartitionEntry ∣ d.sizeofSector.toNat ∨ d.sizeofSector.toNat < h.szPartitionEntry
  primary : d.ValidHeader 1 h
  alternate : ∃ h', d.ValidHeader h.alternateLBA h' ∧ h'.nPartitionEntries = h.nPartitionEntries ∧
    h'.szPartitionEntry = h.szPartitionEntry ∧ d.entries h' = d.entries h

/-- What is to be registered for an entry. -/
def GptPartition.place (e : GptPartition) : Nat × Nat :=
  (e.startLBA, e.endLBA - e.startLBA + 1)

/-- The driver registers the used entries, in the order of the table, with their places. If it
returns `false`, nothing is registered. -/
def RegistersRight (vectorized : Bool) (d : Disk) (driveId : UInt32)
    (firstSector currentSector : Buffer) (h : GptHeader) : Prop :=
  ∃ r, registerGPTPartitionsOnDrive vectorized d driveId firstSector currentSector = some r ∧
    (r.getD []).map (fun p => (p.lbaOffset, p.sizeSectors)) =
      (d.usedEntries h).map GptPartition.place

/-! ## Reading sectors -/

section Reading

variable {vectorized : Bool} {d : Disk} {driveId : UInt32} {buff buff' : Buffer} {lba n : Nat}

/-- The number of bytes that are copied to the buffer. -/
def copiedBytes (vectorized : Bool) (d : Disk) (n : Nat) : Nat :=
  let size := n * d.sizeofSector.toNat % 2 ^ 64
  if vectorized then size / 64 * 64 else size

theorem copiedBytes_le (vectorized : Bool) (d : Disk) (n : Nat) :
    copiedBytes vectorized d n ≤ n * d.sizeofSector.toNat := by
  simp only [copiedBytes]
  split <;> omega

theorem getD_take_map_range (f : Nat → BitVec 8) {m k : Nat} (h : m ≤ k) (x : Nat) (b : BitVec 8) :
    (((range k).map f).take m).getD x b = if x < m then f x else b := by
  by_cases hx : x < m
  · have hk : x < k := by omega
    simp [getD_eq_getElem?_getD, hx, hk]
  · simp [getD_eq_getElem?_getD, hx]

/-- `ReadSectors` reads the sectors of the disk. The end of the request is compared with one past
the end of the disk, modulo the size of a word. -/
theorem readSectors_eq (vectorized : Bool) (d : Disk) (driveId : UInt32) (buff : Buffer)
    (hlba : lba < 2 ^ 64) (hn : n < 2 ^ 64) :
    d.readSectors vectorized driveId buff lba n =
      if n = 0 ∨ (d.nSectors.toNat + 1) % 2 ^ 64 < (lba + n) % 2 ^ 64 ∨
        d.nSectors.toNat < lba + n then none
      else some { buff with
        bytes := fun x => if x < copiedBytes vectorized d n then d.sector lba x
          else buff.bytes x } := by
  have hlba' := UInt64.toNat_ofNat_of_lt' hlba
  have hn' := UInt64.toNat_ofNat_of_lt' hn
  have hzero : UInt64.ofNat n = 0 ↔ n = 0 := by
    rw [← UInt64.toNat_inj, hn']
    rfl
  have hlimit : d.nSectors + 1 < UInt64.ofNat lba + UInt64.ofNat n ↔
      (d.nSectors.toNat + 1) % 2 ^ 64 < (lba + n) % 2 ^ 64 := by
    rw [UInt64.lt_iff_toNat_lt, UInt64.toNat_add, UInt64.toNat_add, hlba', hn']
    rfl
  simp only [Disk.readSectors, DriveHandle.readSectors, Disk.openDrive, Disk.storageDriver,
    DriveNode.lbaOffset, DriveNode.exceeds, buff.allocated, hzero, false_or, Option.getD_some,
    hlimit, hlba', hn', Bool.false_eq_true, if_false]
  by_cases h1 : n = 0
  · rw [if_pos h1, if_pos (.inl h1)]
    rfl
  by_cases h2 : (d.nSectors.toNat + 1) % 2 ^ 64 < (lba + n) % 2 ^ 64
  · rw [if_neg h1, if_pos h2, if_pos (.inr (.inl h2))]
    rfl
  by_cases h3 : d.nSectors.toNat < lba + n
  · rw [if_neg h1, if_neg h2, if_neg (Nat.not_le.2 h3), if_pos (.inr (.inr h3))]
  rw [if_neg h1, if_neg h2, if_pos (Nat.not_lt.1 h3), if_neg (by simp only [h1, h2, h3, or_self,
    not_false_eq_true])]
  have hsize : (UInt64.ofNat n * d.sizeofSector).toNat = n * d.sizeofSector.toNat % 2 ^ 64 := by
    rw [UInt64.toNat_mul, hn']
  simp only [hsize]
  congr 2
  funext x
  exact getD_take_map_range _ (copiedBytes_le vectorized d n) x _

theorem readSectors_onDisk (hlba : lba < 2 ^ 64) (hn : n < 2 ^ 64)
    (hread : d.readSectors vectorized driveId buff lba n = some buff') :
    lba + n ≤ d.nSectors.toNat := by
  rw [readSectors_eq vectorized d driveId buff hlba hn] at hread
  split at hread
  · cases hread
  · omega

/-- The bytes of a sector up to the last whole block of the vectorized copy. -/
theorem readSectors_holds (hlba : lba < 2 ^ 64)
    (hread : d.readSectors vectorized driveId buff lba 1 = some buff') {x : Nat}
    (hx : x < d.sizeofSector.toNat / 64 * 64) : buff'.bytes x = d.sector lba x := by
  have hsize := d.sizeofSector.toNat_lt
  have hcopied : x < copiedBytes vectorized d 1 := by
    simp only [copiedBytes]
    split <;> omega
  rw [readSectors_eq vectorized d driveId buff hlba (by decide)] at hread
  split at hread
  · cases hread
  · obtain rfl := Option.some.inj hread
    exact if_pos hcopied

/-- A sector of the disk can be read. -/
theorem exists_readSectors (vectorized : Bool) (driveId : UInt32) (buff : Buffer)
    (hn : d.nSectors.toNat + 1 < 2 ^ 64) (hlba : lba < d.nSectors.toNat) :
    ∃ buff', d.readSectors vectorized driveId buff lba 1 = some buff' := by
  refine ⟨_, (readSectors_eq vectorized d driveId buff (by omega) (by decide)).trans (if_neg ?_)⟩
  omega

end Reading

/-! ## The header -/

section Header

variable {m m' : Memory} {a : Nat}

/-- A checksum depends on the bytes it is for. -/
theorem crc32Bytes_congr {sz : Nat} (h : ∀ x < sz, m' x = m x) :
    crc32Bytes m' sz = crc32Bytes m sz := by
  have hfold : (range sz).foldl (crcByte m') (~~~ 0) = (range sz).foldl (crcByte m) (~~~ 0) :=
    foldl_ext _ _ _ fun c i hi => by rw [crcByte, crcByte, h i (mem_range.1 hi)]
  rw [crc32Bytes, crc, hfold, crc32Bytes, crc]

theorem loadNat_front {b : Nat} (h : ∀ x < b, m' x = m x) (ha : a + 8 ≤ b) :
    m'.loadNat a = m.loadNat a :=
  Memory.loadNat_congr fun x _ hx => h x (by omega)

/-- A header depends on the first bytes of its sector. -/
theorem GptHeader.read_congr (h : ∀ x < 96, m' x = m x) : GptHeader.read m' = GptHeader.read m := by
  simp (disch := decide) only [GptHeader.read, load32, loadNat_front h]

theorem intact_congr (h : ∀ x < 96, m' x = m x) : intact m' = intact m := by
  have hcrc : crc32Bytes (withoutChecksum m') sizeofGptHeader =
      crc32Bytes (withoutChecksum m) sizeofGptHeader := by
    refine crc32Bytes_congr fun x hx => ?_
    simp only [sizeofGptHeader] at hx
    simp only [withoutChecksum, Memory.fill, h x (by omega)]
  rw [intact, intact, hcrc, GptHeader.read_congr h]

variable {vectorized : Bool} {d : Disk} {driveId : UInt32} {h : GptHeader} {firstSector : Buffer}

/-- Two headers have the same entries. -/
structure SameEntries (d : Disk) (h h' : GptHeader) : Prop where
  szPartitionEntry : h'.szPartitionEntry = h.szPartitionEntry
  entries : d.entries h' = d.entries h

theorem read_header (hsize : 512 ≤ d.sizeofSector.toNat) {lba : Nat} (hlba : lba < 2 ^ 64)
    {buff buff' : Buffer} (hread : d.readSectors vectorized driveId buff lba 1 = some buff') :
    GptHeader.read buff'.bytes = GptHeader.read (d.sector lba) ∧
      intact buff'.bytes = intact (d.sector lba) := by
  have hsame : ∀ x < 96, buff'.bytes x = d.sector lba x :=
    fun x hx => readSectors_holds hlba hread (by omega)
  exact ⟨GptHeader.read_congr hsame, intact_congr hsame⟩

/-- The header of a valid disk that is used: the first one that passes the check. -/
theorem verifiedHeader_cases (vectorized : Bool) (driveId : UInt32) (firstSector : Buffer)
    (hvalid : d.ValidGpt h) :
    (verifiedHeader vectorized d driveId firstSector = none ∧ ¬ intact (d.sector 1) ∧
      ¬ intact (d.sector h.alternateLBA)) ∨
    ∃ buff, verifiedHeader vectorized d driveId firstSector = some buff ∧
      (intact (d.sector 1) ∨ intact (d.sector h.alternateLBA)) ∧
      SameEntries d h (GptHeader.read buff.bytes) := by
  have hlimit := hvalid.nSectors
  obtain ⟨buff, hread⟩ := exists_readSectors vectorized driveId firstSector hlimit
    hvalid.primary.onDisk
  obtain ⟨hheader, hintact⟩ := read_header hvalid.sizeofSector (by decide) hread
  rw [← hvalid.primary.header] at hheader
  rw [verifiedHeader, hread, Option.bind_eq_bind, Option.bind_some, hheader, hintact,
    if_neg (not_not.2 hvalid.primary.signature)]
  by_cases hfirst : intact (d.sector 1) = true
  · rw [if_pos hfirst]
    refine .inr ⟨buff, rfl, .inl hfirst, ?_⟩
    rw [hheader]
    exact ⟨rfl, rfl⟩
  rw [if_neg hfirst]
  obtain ⟨h', hvalid', -, hsz, hentries⟩ := hvalid.alternate
  have honDisk := hvalid'.onDisk
  obtain ⟨buff', hread'⟩ := exists_readSectors vectorized driveId buff hlimit honDisk
  obtain ⟨hheader', hintact'⟩ := read_header hvalid.sizeofSector (by omega) hread'
  rw [← hvalid'.header] at hheader'
  rw [hread', Option.bind_some, hintact']
  by_cases hsecond : intact (d.sector h.alternateLBA) = true
  · rw [if_pos hsecond]
    refine .inr ⟨buff', rfl, .inr hsecond, ?_⟩
    rw [hheader']
    exact ⟨hsz, hentries⟩
  · rw [if_neg hsecond]
    exact .inl ⟨rfl, hfirst, hsecond⟩

end Header

/-! ## The table -/

section Table

variable {m m' : Memory} {d : Disk} {g : GptHeader} {size sz : Nat}

theorem GptPartition.read_congr {a : Nat} (h : ∀ x, a ≤ x → x < a + 48 → m' x = m x) :
    GptPartition.read m' a = GptPartition.read m a := by
  have hguid : (range 16).map (fun i => m' (a + i)) = (range 16).map fun i => m (a + i) :=
    map_congr_left fun i hi => h (a + i) (by omega) (by have := mem_range.1 hi; omega)
  simp only [GptPartition.read, hguid,
    Memory.loadNat_congr (fun x hlo hhi => h x (by omega) (by omega) : m.SameOn m' (a + 32) _),
    Memory.loadNat_congr (fun x hlo hhi => h x (by omega) (by omega) : m.SameOn m' (a + 40) _)]

/-- In a sector of whole entries there is room for an entry in front of which there is another. -/
theorem add_le_of_dvd {iter : Nat} (hsize : sz ∣ size) (hiter : sz ∣ iter) (hlt : iter < size) :
    iter + sz ≤ size := by
  obtain ⟨b, rfl⟩ := hsize
  obtain ⟨a, rfl⟩ := hiter
  have hab : a < b := Nat.lt_of_mul_lt_mul_left hlt
  calc sz * a + sz = sz * (a + 1) := (Nat.mul_succ sz a).symm
    _ ≤ sz * b := Nat.mul_le_mul_left sz hab

/-- The entries that are counted are in the sector. -/
theorem countUsed_le (hsize : sz ∣ size) {iter : Nat} (hiter : sz ∣ iter) (hle : iter ≤ size)
    (fuel : Nat) : iter + countUsed m size sz fuel iter * sz ≤ size := by
  induction fuel generalizing iter with
  | zero => simpa [countUsed] using hle
  | succ fuel ih =>
    rw [countUsed]
    split
    · rename_i hused
      have hnext := ih (Nat.dvd_add hiter (dvd_refl sz)) (add_le_of_dvd hsize hiter hused.1)
      rw [Nat.add_mul]
      omega
    · simpa using hle

/-- The count depends on the bytes of the sector. -/
theorem countUsed_congr (hsame : ∀ x < size, m' x = m x) (hsize : sz ∣ size) (hsz : 48 ≤ sz)
    {iter : Nat} (hiter : sz ∣ iter) (fuel : Nat) :
    countUsed m' size sz fuel iter = countUsed m size sz fuel iter := by
  induction fuel generalizing iter with
  | zero => rfl
  | succ fuel ih =>
    rw [countUsed, countUsed, ih (Nat.dvd_add hiter (dvd_refl sz))]
    by_cases hlt : iter < size
    · have hroom := add_le_of_dvd hsize hiter hlt
      rw [GptPartition.read_congr fun x _ hx => hsame x (by omega)]
    · simp [hlt]

/-- The places that are registered for a sector. -/
def sectorPlaces (d : Disk) (g : GptHeader) (i : Nat) : List (Nat × Nat) :=
  let sector := d.sector (g.partitionEntryLBA + i)
  (List.range (countUsed sector d.sizeofSector.toNat g.szPartitionEntry
    d.sizeofSector.toNat 0)).map fun partEntry =>
      ((partitionInfo sector 0 partEntry).lbaOffset, (partitionInfo sector 0 partEntry).sizeSectors)

/-- What is registered for a table that is verified. -/
theorem registerTable_places {vectorized : Bool} {driveId : UInt32} {currentSector : Buffer}
    {partitions : List PartitionInfo} (hlba : g.partitionEntryLBA < 2 ^ 64)
    (hn : nSectorsForPartitionTable d g < 2 ^ 64)
    (hwhole : g.szPartitionEntry ∣ d.sizeofSector.toNat) (hsz : 128 ∣ g.szPartitionEntry)
    (hpos : 0 < g.szPartitionEntry)
    (hregister : registerTable vectorized d driveId g currentSector = some partitions) :
    partitions.map (fun p => (p.lbaOffset, p.sizeSectors)) =
      (range (nSectorsForPartitionTable d g)).flatMap (sectorPlaces d g) := by
  have hlarge := Nat.le_of_dvd hpos hsz
  have hblocks := Nat.div_mul_cancel ((by decide : 64 ∣ 128).trans (hsz.trans hwhole))
  simp only [registerTable, Option.bind_eq_bind, Option.bind_eq_some_iff, Option.pure_def]
    at hregister
  obtain ⟨buff, hread, hregister⟩ := hregister
  have honDisk := readSectors_onDisk hlba hn hread
  split at hregister
  · cases hregister
  obtain ⟨st, hloop, hst⟩ := Option.bind_eq_some_iff.1 hregister
  obtain rfl := Option.some.inj hst
  refine foldlM_range_invariant hloop
    (fun k st => st.2.map (fun p => (p.lbaOffset, p.sizeSectors)) =
    (range k).flatMap (sectorPlaces d g)) rfl fun i hi st st' hinv hsector => ?_
  simp only [registerSector, Option.bind_eq_bind, Option.bind_eq_some_iff, Option.pure_def,
    Option.some.injEq] at hsector
  obtain ⟨sector, hread', rfl⟩ := hsector
  have hlimit := d.nSectors.toNat_lt
  have hsame : ∀ x < d.sizeofSector.toNat, sector.bytes x = d.sector (g.partitionEntryLBA + i) x :=
    fun x hx => readSectors_holds (by omega) hread' (by omega)
  have hcount := countUsed_congr hsame hwhole (by omega) (dvd_zero _) d.sizeofSector.toNat
  have hroom := countUsed_le (m := d.sector (g.partitionEntryLBA + i)) hwhole (dvd_zero _)
    (Nat.zero_le _) d.sizeofSector.toNat
  rw [range_succ, flatMap_append, flatMap_singleton, map_append, hcount,
    map_map]
  congr 1
  refine map_congr_left fun partEntry hentry => ?_
  -- the entries counted are at least as large as those that are read
  have hread'' : GptPartition.read sector.bytes (partEntry * sizeofGptPartition) =
      GptPartition.read (d.sector (g.partitionEntryLBA + i)) (partEntry * sizeofGptPartition) := by
    refine GptPartition.read_congr fun x _ hx => hsame x ?_
    have hlt := mem_range.1 hentry
    have hmul := Nat.mul_le_mul (Nat.succ_le_of_lt hlt) hlarge
    simp only [sizeofGptPartition] at hx
    omega
  simp only [Function.comp_apply, partitionInfo, hread'']

theorem sector_add (d : Disk) (lba i x : Nat) :
    d.sector (lba + i) x = d.sector lba (i * d.sizeofSector.toNat + x) := by
  rw [Disk.sector, Disk.sector, Nat.add_mul, Nat.add_assoc]

theorem read_sector_add (d : Disk) (lba i : Nat) : GptPartition.read (d.sector (lba + i)) 0 =
    GptPartition.read (d.sector lba) (i * d.sizeofSector.toNat) := by
  simp only [GptPartition.read, Memory.loadNat, Memory.load64, sector_add, Nat.zero_add,
    Nat.add_assoc]

/-- A sector of the table holds an entry of the table. -/
theorem mul_lt_of_lt_nSectors {i : Nat} (hi : i < nSectorsForPartitionTable d g) :
    i * (d.sizeofSector.toNat / g.szPartitionEntry) < g.nPartitionEntries := by
  simp only [nSectorsForPartitionTable] at hi
  generalize d.sizeofSector.toNat / g.szPartitionEntry = per at hi ⊢
  have hdiv := Nat.div_add_mod g.nPartitionEntries per
  generalize hq : g.nPartitionEntries / per = q at hi hdiv
  generalize g.nPartitionEntries % per = r at hi hdiv
  rw [Nat.mul_comm] at hdiv
  split at hi
  · have hle : i * per ≤ q * per := Nat.mul_le_mul_right per (by omega)
    omega
  · have hlt : (i + 1) * per ≤ q * per := Nat.mul_le_mul_right per (by omega)
    have hper : per ≠ 0 := by
      rintro rfl
      omega
    rw [Nat.add_mul] at hlt
    omega

theorem first_mem_entries (hwhole : g.szPartitionEntry ∣ d.sizeofSector.toNat) {i : Nat}
    (hi : i < nSectorsForPartitionTable d g) :
    GptPartition.read (d.sector (g.partitionEntryLBA + i)) 0 ∈ d.entries g := by
  refine mem_map.2 ⟨_, mem_range.2 (mul_lt_of_lt_nSectors hi), ?_⟩
  rw [read_sector_add, Nat.mul_assoc, Nat.div_mul_cancel hwhole]

/-- A sector whose first entry is unused has nothing registered. -/
theorem sectorPlaces_eq_nil {i : Nat}
    (hunused : (GptPartition.read (d.sector (g.partitionEntryLBA + i)) 0).used = false) :
    sectorPlaces d g i = [] := by
  simp only [sectorPlaces]
  cases d.sizeofSector.toNat with
  | zero => rfl
  | succ size => simp [countUsed, hunused]

/-- What is registered first for a sector is its first entry, less its last sector. -/
theorem head?_sectorPlaces {i : Nat} {place : Nat × Nat}
    (hhead : (sectorPlaces d g i).head? = some place) :
    let e := GptPartition.read (d.sector (g.partitionEntryLBA + i)) 0
    e.used = true ∧ place = (e.startLBA, (e.endLBA + 2 ^ 64 - e.startLBA) % 2 ^ 64) := by
  intro e
  have hused : e.used = true := by
    by_contra hunused
    rw [sectorPlaces_eq_nil (by simpa using hunused)] at hhead
    cases hhead
  refine ⟨hused, ?_⟩
  simp only [sectorPlaces, head?_map, head?_range] at hhead
  split at hhead
  · cases hhead
  · simpa [partitionInfo, e] using hhead.symm

end Table

/-! ## The partitions registered -/

section Register

variable {vectorized : Bool} {d : Disk} {driveId : UInt32} {firstSector currentSector : Buffer}
  {h : GptHeader}

theorem GptHeader.read_lt (m : Memory) : (GptHeader.read m).partitionEntryLBA < 2 ^ 64 ∧
    (GptHeader.read m).nPartitionEntries < 2 ^ 32 :=
  ⟨Memory.loadNat_lt m 72, Nat.mod_lt _ (by decide)⟩

theorem nSectorsForPartitionTable_le (d : Disk) (g : GptHeader) :
    nSectorsForPartitionTable d g ≤ g.nPartitionEntries + 1 := by
  simp only [nSectorsForPartitionTable]
  have hdiv := Nat.div_le_self g.nPartitionEntries (d.sizeofSector.toNat / g.szPartitionEntry)
  split <;> omega

/-- What the driver does on a valid disk: without a header it returns `false`, it divides by zero if
an entry is larger than a sector, and otherwise it registers the places of sectors of the table. -/
theorem register_cases (vectorized : Bool) (driveId : UInt32) (firstSector currentSector : Buffer)
    (hvalid : d.ValidGpt h) :
    (¬ (intact (d.sector 1) ∨ intact (d.sector h.alternateLBA)) ∧
      registerGPTPartitionsOnDrive vectorized d driveId firstSector currentSector = some none) ∨
    (intact (d.sector 1) ∨ intact (d.sector h.alternateLBA)) ∧
      (d.sizeofSector.toNat < h.szPartitionEntry ∧
        registerGPTPartitionsOnDrive vectorized d driveId firstSector currentSector = none ∨
      h.szPartitionEntry ≤ d.sizeofSector.toNat ∧ ∃ r g n,
        registerGPTPartitionsOnDrive vectorized d driveId firstSector currentSector = some r ∧
        (r.getD []).map (fun p => (p.lbaOffset, p.sizeSectors)) =
          (range n).flatMap (sectorPlaces d g) ∧
        ∀ i < n, GptPartition.read (d.sector (g.partitionEntryLBA + i)) 0 ∈ d.entries h) := by
  simp only [registerGPTPartitionsOnDrive]
  rcases verifiedHeader_cases vectorized driveId firstSector hvalid with
    ⟨hnone, hnot⟩ | ⟨buff, hsome, hintact, hsame⟩
  · exact .inl ⟨not_or.2 hnot, by rw [hnone]⟩
  refine .inr ⟨hintact, ?_⟩
  obtain ⟨k, hsz⟩ := hvalid.primary.szPartitionEntry
  have hpos : 0 < h.szPartitionEntry := by
    rw [hsz]
    positivity
  rw [hsome]
  simp only [hsame.szPartitionEntry]
  rcases Nat.lt_or_ge d.sizeofSector.toNat h.szPartitionEntry with hlarge | hfits
  · exact .inl ⟨hlarge, if_pos (.inr (Nat.div_eq_of_lt hlarge))⟩
  have hquot := (Nat.div_pos hfits hpos).ne'
  rw [if_neg (by omega)]
  refine .inr ⟨hfits, ?_⟩
  cases htable : registerTable vectorized d driveId (GptHeader.read buff.bytes) currentSector with
  | none => exact ⟨none, h, 0, rfl, rfl, fun _ hi => absurd hi (Nat.not_lt_zero _)⟩
  | some partitions =>
    have hwhole := hvalid.whole.resolve_right (Nat.not_lt.2 hfits)
    obtain ⟨hlba, hn⟩ := GptHeader.read_lt buff.bytes
    have hle := nSectorsForPartitionTable_le d (GptHeader.read buff.bytes)
    rw [← hsame.szPartitionEntry] at hwhole hpos hsz
    exact ⟨_, _, _, rfl, registerTable_places hlba (by omega) hwhole (hsz ▸ Dvd.intro _ rfl) hpos
      htable, fun i hi => hsame.entries ▸ first_mem_entries hwhole hi⟩

/-- A partition is never registered with its size. -/
theorem not_registersRight (hvalid : d.ValidGpt h) (hused : d.usedEntries h ≠ []) :
    ¬ RegistersRight vectorized d driveId firstSector currentSector h := by
  rintro ⟨r, hregister, hplaces⟩
  obtain ⟨e, rest, hcons⟩ := exists_cons_of_ne_nil hused
  rw [hcons, map_cons] at hplaces
  rcases register_cases vectorized driveId firstSector currentSector hvalid with
    ⟨-, hr⟩ | ⟨-, ⟨-, hr⟩ | ⟨-, r', g, n, hr, hall, hentry⟩⟩
  · cases hregister.symm.trans hr
    cases hplaces
  · cases hregister.symm.trans hr
  cases hregister.symm.trans hr
  rw [hall] at hplaces
  -- the first place registered is that of the first entry of a sector
  have hhead := congrArg head? hplaces
  rw [head?_flatMap] at hhead
  obtain ⟨i, hi, hplace⟩ := exists_of_findSome?_eq_some hhead
  obtain ⟨hfirst, hplace⟩ := head?_sectorPlaces hplace
  have hmem := hentry i (mem_range.1 hi)
  generalize GptPartition.read _ 0 = e' at hfirst hplace hmem
  have hmem' : e' ∈ d.usedEntries h := mem_filter.2 ⟨hmem, hfirst⟩
  have hin : e ∈ d.usedEntries h := by simp [hcons]
  obtain ⟨-, horder', -⟩ := hvalid.primary.usable e' hmem'
  obtain ⟨-, horder, -⟩ := hvalid.primary.usable e hin
  obtain ⟨hstart, hsize⟩ := Prod.mk.inj hplace
  by_cases hsame' : e = e'
  · subst hsame'
    omega
  · -- another partition starts elsewhere
    have : Std.Symm GptPartition.Apart := ⟨fun _ _ hxy => Or.symm hxy⟩
    have hapart := hvalid.primary.apart.forall hin hmem' hsame'
    simp only [GptPartition.Apart] at hapart
    omega

/-- Without partitions, nothing is registered. -/
theorem registersRight_of_unused (hvalid : d.ValidGpt h) (hunused : d.usedEntries h = [])
    (hheader : h.szPartitionEntry ≤ d.sizeofSector.toNat ∨
      ¬ intact (d.sector 1) ∧ ¬ intact (d.sector h.alternateLBA)) :
    RegistersRight vectorized d driveId firstSector currentSector h := by
  rw [RegistersRight, hunused]
  rcases register_cases vectorized driveId firstSector currentSector hvalid with
    ⟨-, hr⟩ | ⟨hintact, ⟨hlarge, -⟩ | ⟨-, r, g, n, hr, hall, hentry⟩⟩
  · exact ⟨none, hr, rfl⟩
  · exact absurd hintact (not_or.2 (hheader.resolve_left (Nat.not_le.2 hlarge)))
  · refine ⟨r, hr, ?_⟩
    rw [hall, map_nil, flatMap_eq_nil_iff]
    intro i hi
    refine sectorPlaces_eq_nil (Bool.eq_false_iff.2 fun hfirst => ?_)
    have hin : _ ∈ d.usedEntries h := mem_filter.2 ⟨hentry i (mem_range.1 hi), hfirst⟩
    rw [hunused] at hin
    cases hin

/-- The table of a header is on the disk and fills its sectors, which hold whole entries. The
vectorized copy copies blocks of 64 bytes. -/
structure WholeTable (vectorized : Bool) (d : Disk) (h : GptHeader) : Prop where
  entry : h.szPartitionEntry ∣ d.sizeofSector.toNat
  sector : 0 < d.sizeofSector.toNat
  nonempty : 0 < h.nPartitionEntries
  sectors : d.sizeofSector.toNat ∣ h.nPartitionEntries * h.szPartitionEntry
  onDisk : h.partitionEntryLBA + h.nPartitionEntries * h.szPartitionEntry / d.sizeofSector.toNat ≤
    d.nSectors.toNat
  size : h.nPartitionEntries * h.szPartitionEntry < 2 ^ 64
  blocks : vectorized = true → 64 ∣ h.nPartitionEntries * h.szPartitionEntry

/-- The number of sectors of a table that fills them. -/
theorem WholeTable.nSectors_eq (hwhole : WholeTable vectorized d h) :
    0 < d.sizeofSector.toNat / h.szPartitionEntry ∧ 0 < h.szPartitionEntry ∧
      nSectorsForPartitionTable d h =
        h.nPartitionEntries * h.szPartitionEntry / d.sizeofSector.toNat := by
  have hsector := hwhole.sector
  obtain ⟨k, hk⟩ := hwhole.entry
  have hpos : 0 < h.szPartitionEntry := Nat.pos_of_ne_zero fun hzero => by simp [hzero] at hk; omega
  have hquot : d.sizeofSector.toNat / h.szPartitionEntry = k := by
    rw [hk, Nat.mul_div_cancel_left k hpos]
  have hkpos : 0 < k := Nat.pos_of_ne_zero fun hzero => by simp [hzero] at hk; omega
  obtain ⟨n, hn⟩ := hwhole.sectors
  have hentries : h.nPartitionEntries = k * n := by
    refine Nat.eq_of_mul_eq_mul_right hpos (hn.trans ?_)
    rw [hk]
    ac_rfl
  refine ⟨hquot ▸ hkpos, hpos, ?_⟩
  rw [nSectorsForPartitionTable, hquot, hn, Nat.mul_div_cancel_left n hsector, hentries,
    Nat.mul_mod_right, Nat.mul_div_cancel_left n hkpos]
  rfl

/-- The sectors of a table can be counted in a `size_t`, also one past the end. -/
theorem nSectors_lt {buff : Buffer}
    (hheader : verifiedHeader vectorized d driveId firstSector = some buff) :
    d.nSectors.toNat + 1 < 2 ^ 64 := by
  have hlt := d.nSectors.toNat_lt
  simp only [verifiedHeader, readSectors_eq vectorized d driveId firstSector
    (show 1 < _ by decide) (show 1 < _ by decide)] at hheader
  split at hheader
  · cases hheader
  · omega

end Register

/-! ## Small disks -/

/-- The bytes of a number, the lowest first. -/
def littleEndian (count n : Nat) : List (BitVec 8) :=
  (List.range count).map fun i => BitVec.ofNat 8 (n / 256 ^ i)

/-- The bytes of a header. -/
def GptHeader.toBytes (h : GptHeader) : List (BitVec 8) :=
  littleEndian 8 h.signature ++ littleEndian 4 h.revision ++ littleEndian 4 h.sizeofHeader ++
    littleEndian 8 h.headerCRC32 ++ littleEndian 8 h.myLBA ++ littleEndian 8 h.alternateLBA ++
    littleEndian 8 h.firstUsableLBA ++ littleEndian 24 h.lastUsableLBA ++
    littleEndian 8 h.partitionEntryLBA ++ littleEndian 4 h.nPartitionEntries ++
    littleEndian 4 h.szPartitionEntry ++ littleEndian 4 h.partitionTableCRC32

/-- The header of a disk of 64 sectors whose table has four entries. -/
def smallHeader (myLBA alternateLBA partitionEntryLBA headerCRC32 partitionTableCRC32 : Nat) :
    GptHeader :=
  ⟨gptHeaderSignature, 0x10000, 92, headerCRC32, myLBA, alternateLBA, 34, 61, partitionEntryLBA, 4,
    128, partitionTableCRC32⟩

/-- A disk of 64 sectors, with the table behind the first header and in front of the last one. -/
def smallDisk (h h' : GptHeader) (table : Memory) : Disk where
  sizeofSector := 512
  nSectors := 64
  bytes x := match x / 512 with
    | 1 => h.toBytes.getD (x % 512) 0
    | 63 => h'.toBytes.getD (x % 512) 0
    | 2 | 62 => table (x % 512)
    | _ => 0

/-- A small disk without partitions. -/
def emptyDisk : Disk :=
  smallDisk (smallHeader 1 63 2 0x95cad289 0xb2aa7578) (smallHeader 63 1 62 0x4cc7182c 0xb2aa7578)
    fun _ => 0

/-- A table with a partition of the sectors 34 to 43. -/
def onePartitionTable : Memory := fun x =>
  if x < 16 then 1 else if x = 32 then 34 else if x = 40 then 43 else 0

/-- A small disk with that partition. -/
def onePartitionDisk : Disk :=
  smallDisk (smallHeader 1 63 2 0x236e406e 0xfb40cea5) (smallHeader 63 1 62 0xfa638acb 0xfb40cea5)
    onePartitionTable

/-- The numbers, the checksums and the entries of the small disks are right. -/
theorem smallDisk_valid {d : Disk} (hd : d = emptyDisk ∨ d = onePartitionDisk) :
    d.ValidGpt (GptHeader.read (d.sector 1)) := by
  have hheader : ∀ lba, lba = 1 ∨ lba = 63 →
      d.ValidHeader lba (GptHeader.read (d.sector lba)) := by
    intro lba hlba
    rcases hd with rfl | rfl <;> rcases hlba with rfl | rfl <;>
      refine ⟨rfl, ?_, ?_, ?_, ?_, ?_, ?_, ⟨0, ?_⟩, ?_, ?_, ?_, ?_⟩ <;> decide +kernel
  have halternate := hheader 63 (.inr rfl)
  rcases hd with rfl | rfl <;>
    exact ⟨by decide, by decide, .inl (by decide +kernel), hheader 1 (.inl rfl), _, halternate,
      by decide +kernel⟩

/-- The partitions of a valid disk are registered with their places if and only if there is none,
and an entry is not larger than a sector or no header passes the check. -/
theorem registers_right_iff (vectorized : Bool) (driveId : UInt32)
    (firstSector currentSector : Buffer) {d : Disk} {h : GptHeader} (hvalid : d.ValidGpt h) :
    RegistersRight vectorized d driveId firstSector currentSector h ↔
      (∀ e ∈ d.entries h, e.used = false) ∧ (h.szPartitionEntry ≤ d.sizeofSector.toNat ∨
        ¬ intact (d.sector 1) ∧ ¬ intact (d.sector h.alternateLBA)) := by
  have hunused : d.usedEntries h = [] ↔ ∀ e ∈ d.entries h, e.used = false := by
    simp [Disk.usedEntries, filter_eq_nil_iff]
  rw [← hunused]
  refine ⟨fun hright => ?_, fun hcond => registersRight_of_unused hvalid hcond.1 hcond.2⟩
  constructor
  · by_contra hused
    exact not_registersRight hvalid hused hright
  · obtain ⟨r, hregister, -⟩ := hright
    rcases register_cases vectorized driveId firstSector currentSector hvalid with
      ⟨hnot, -⟩ | ⟨-, ⟨-, hr⟩ | ⟨hfits, -⟩⟩
    · exact .inr (not_or.1 hnot)
    · cases hregister.symm.trans hr
    · exact .inl hfits

theorem registers_right_iff_emptyDisk : RegistersRight true emptyDisk 0
    ⟨0x1000, by decide, fun _ => 0⟩ ⟨0x2000, by decide, fun _ => 0⟩
    (GptHeader.read (emptyDisk.sector 1)) :=
  (registers_right_iff true 0 _ _ (smallDisk_valid (.inl rfl))).2
    ⟨by decide +kernel, by decide +kernel⟩

/-- The partition of the sectors 34 to 43. -/
theorem onePartitionDisk_not_right :
    onePartitionDisk.ValidGpt (GptHeader.read (onePartitionDisk.sector 1)) ∧
    ¬ RegistersRight true onePartitionDisk 0 ⟨0x1000, by decide, fun _ => 0⟩
      ⟨0x2000, by decide, fun _ => 0⟩ (GptHeader.read (onePartitionDisk.sector 1)) :=
  ⟨smallDisk_valid (.inr rfl),
    not_registersRight (smallDisk_valid (.inr rfl)) (by decide +kernel)⟩

end Obos.Drivers.Gpt
