import Obos.Drivers.Sata
import Obos.Vfs.DriveHandle

/-!
# Reading through a handle

`DriveHandle::ReadSectors` over the SATA driver. The two layers do not agree on the end of a drive:
a request that ends one sector behind it passes the checks of the handle, and the driver answers it
with success and no sectors. `read_right_iff` says for which requests a successful read has read
what was asked for and one that is not on the device fails.
-/

namespace Obos.Drivers.Sata

open Vfs List

/-! ## The driver below a handle -/

/-- The SATA driver in the table of the driver interface. What it reads goes to the physical pages
at `base`, which are mapped for its caller and hold `memory` afterwards. -/
def storageDriver (ports : List Port) (base : Nat) (memory : Nat → BitVec 8) : StorageDriver where
  queryDiskInfo driveId := (getPortDescriptorFromKernelDriveID ports driveId.toNat).map fun port =>
    (UInt64.ofNat port.nSectors, UInt64.ofNat port.sectorSize)
  readSectors driveId lbaOffset n :=
    match getPortDescriptorFromKernelDriveID ports driveId.toNat with
    | none => none
    | some port =>
      if port.nSectors < (lbaOffset.toNat + n.toNat) % 2 ^ 64 then some ([], 0)
      else some ((List.range (pagesFor port.sectorSize n.toNat * 4096)).map fun i =>
        memory (base + i), n)
  writeSectors driveId lbaOffset n _ :=
    match getPortDescriptorFromKernelDriveID ports driveId.toNat with
    | none => none
    | some port => some (if port.nSectors < (lbaOffset.toNat + n.toNat) % 2 ^ 64 then 0 else n)

section Reads

variable (ports : List Port) (s64a : Bool) (base : Nat) (memory : Nat → BitVec 8) (h : DriveHandle)
  (node : DriveNode) (vectorized : Bool) (lbaOffset n : UInt64)

/-- The driver returns from all calls it gets. -/
def Returns (calls : List SectorRequest) : Prop :=
  ∀ r ∈ calls, (driveReadSectors ports s64a base r.driveId.toNat r.lbaOffset.toNat
    r.nSectors.toNat).isSome

/-- The request is in the drive or partition of the handle, and on the drive. -/
def OnDevice : Prop :=
  lbaOffset.toNat + n.toNat ≤ (h.range node).2 ∧
    (h.range node).1 + lbaOffset.toNat + n.toNat ≤ h.driveNode.nSectors

/-- The sectors asked for have been read to the pages of the driver, and the buffer holds all of
them. -/
def HasRead (bytes : List (BitVec 8)) (nSectorsRead : UInt64) : Prop :=
  nSectorsRead = n ∧
    ∃ port, getPortDescriptorFromKernelDriveID ports h.driveNode.driveId.toNat = some port ∧
      ReadsRight ports s64a base h.driveNode.driveId.toNat ((h.range node).1 + lbaOffset.toNat)
        n.toNat port ∧
      bytes = (List.range (n.toNat * port.sectorSize)).map fun i => memory (base + i)

/-- A read that succeeds has read what it was asked for, and one that is not on the device fails. -/
def ReadRight (o : Outcome (List (BitVec 8) × UInt64)) : Prop :=
  (Returns ports s64a base o.calls → ∀ bytes nSectorsRead, o.result = .ok (bytes, nSectorsRead) →
    HasRead ports s64a base memory h node lbaOffset n bytes nSectorsRead) ∧
  (¬ OnDevice h node lbaOffset n → Returns ports s64a base o.calls ∧ ∃ e, o.result = .error e)

/-- The controller can use the addresses of all blocks. -/
def Addressable (sectorSize nSectors : Nat) : Prop :=
  ∀ i < blocksFor sectorSize nSectors, s64a = true ∨ (base + i * 1024) % 2 ^ 64 < 2 ^ 32

/-- The requests that come out right: those that the handle rejects, and those on the device that
make the driver panic or are of one block, and of whole blocks of 64 bytes if the copy is
vectorized. -/
def Readable : Prop :=
  node.limit h.readSize < ((h.range node).1 + lbaOffset.toNat + n.toNat) % 2 ^ 64 ∨
    ∀ port, getPortDescriptorFromKernelDriveID ports h.driveNode.driveId.toNat = some port →
      OnDevice h node lbaOffset n ∧ (¬ Addressable s64a base port.sectorSize n.toNat ∨
        OneBlock s64a port.sectorSize base ((h.range node).1 + lbaOffset.toNat) n.toNat ∧
          (vectorized = true → 64 ∣ n.toNat * port.sectorSize))

end Reads

/-! ## Commands -/

section Commands

variable {dir : Direction} {s64a : Bool} {base size n lba : Nat}

/-- The command of a block is issued unless the controller cannot use its address. -/
theorem blockCommand_isSome_iff {i : Nat} {last : Bool} {st : Progress} :
    (blockCommand dir s64a base i last st).isSome ↔
      s64a = true ∨ (base + i * 1024) % 2 ^ 64 < 2 ^ 32 := by
  by_cases hpanic : s64a = false ∧ (base + i * 1024) % 2 ^ 64 / 2 ^ 32 ≠ 0
  · refine iff_of_false (by simp only [blockCommand, if_pos hpanic, Option.isSome_none]; simp) ?_
    rintro (htrue | hlow)
    · exact Bool.false_ne_true (hpanic.1.symm.trans htrue)
    · exact hpanic.2 (Nat.div_eq_of_lt hlow)
  · refine iff_of_true (by simp only [blockCommand, if_neg hpanic, Option.isSome_some]) ?_
    cases s64a with
    | true => exact .inl rfl
    | false => exact .inr (Nat.lt_of_div_eq_zero (by omega) (by simpa using hpanic))

/-- The loop over the blocks panics at the first address that the controller cannot use. -/
theorem blockCommands_isSome_iff {rest i : Nat} {st : Progress} :
    (blockCommands dir s64a base size n rest i st).isSome ↔
      ∀ j < rest, s64a = true ∨ (base + (i + j) * 1024) % 2 ^ 64 < 2 ^ 32 := by
  induction rest generalizing i st with
  | zero => simp [blockCommands]
  | succ rest ih =>
    have hstep : (blockCommands dir s64a base size n (rest + 1) i st).isSome ↔
        (blockCommand dir s64a base i (rest = 0) st).isSome ∧
          (blockCommands dir s64a base size n rest (i + 1) (st.next size n)).isSome := by
      rw [blockCommands]
      cases blockCommand dir s64a base i (rest = 0) st with
      | none => simp
      | some c =>
        cases blockCommands dir s64a base size n rest (i + 1) (st.next size n) with
        | none => simp
        | some commands => simp
    rw [hstep, blockCommand_isSome_iff, ih]
    constructor
    · rintro ⟨hfirst, hrest⟩ j hj
      cases j with
      | zero => exact hfirst
      | succ j =>
        rw [show i + (j + 1) = i + 1 + j by omega]
        exact hrest j (by omega)
    · intro hall
      refine ⟨hall 0 (by omega), fun j hj => ?_⟩
      rw [show i + 1 + j = i + (j + 1) by omega]
      exact hall (j + 1) (by omega)

/-- A transfer that is right is one of the sectors a command can name. -/
theorem TransfersRight.lba_lt {commands : List IssuedCommand}
    (h : TransfersRight size base lba n commands) (hn : 0 < n) : lba < 2 ^ 48 := by
  cases commands with
  | nil =>
    have hcount := h.count_eq
    simp only [map_nil, sum_nil] at hcount
    omega
  | cons c commands =>
    obtain ⟨j, _, hlba, _⟩ := h.first (mem_cons_self (a := c) (l := commands))
    have hlt : c.lba < 2 ^ 48 := by
      simp only [IssuedCommand.lba]
      omega
    omega

/-- The commands of a transfer are right if and only if it is one of one block, wherever it
starts. -/
theorem right_iff_oneBlock (hbase : base < 2 ^ 64) (hsize : size < 2 ^ 32) (hn : 0 < n) :
    (∃ commands, transferCommands dir s64a base size n lba = some commands ∧
      TransfersRight size base lba n commands) ↔ OneBlock s64a size base lba n := by
  constructor
  · rintro ⟨commands, hcommands, hright⟩
    exact (transfersRight_iff dir hbase hsize (hright.lba_lt hn)).1 ⟨commands, hcommands, hright⟩
  · exact right_of_oneBlock dir hbase

end Commands

/-! ## Requests -/

section Requests

variable {ports : List Port} {s64a : Bool} {base : Nat} {memory : Nat → BitVec 8} {h : DriveHandle}
  {node : DriveNode} {vectorized : Bool} {obuff : Nat} {lbaOffset n : UInt64}

/-- A request that is rejected does not come to the driver. -/
theorem readSectors_rejected (hnode : h.node = some node) (hclosed : h.closed = false)
    (hbuff : obuff ≠ 0) (hn : n ≠ 0)
    (hend : node.limit h.readSize < ((h.range node).1 + lbaOffset.toNat + n.toNat) % 2 ^ 64) :
    h.readSectors vectorized obuff lbaOffset n = .fail .vfsReadAborted := by
  have hchecks := mt (passes_iff h h.readSize).1 (Nat.not_le.2 hend)
  rw [not_and, Bool.not_eq_false] at hchecks
  simp only [DriveHandle.readSectors, hnode, hclosed, hbuff, hn, or_self, if_false]
  by_cases hdrive : h.readSize + 1 < node.lbaOffset lbaOffset + n
  · exact if_pos hdrive
  · exact (if_neg hdrive).trans (if_pos (hchecks hdrive))

/-- A request that passes the checks goes to the driver. -/
theorem readSectors_passed (hnode : h.node = some node) (hclosed : h.closed = false)
    (hbuff : obuff ≠ 0) (hn : n ≠ 0)
    (hend : ((h.range node).1 + lbaOffset.toNat + n.toNat) % 2 ^ 64 ≤ node.limit h.readSize) :
    h.readSectors vectorized obuff lbaOffset n =
      let drive := h.driveNode
      let calls := [⟨drive.driveId, node.lbaOffset lbaOffset, n⟩]
      match drive.storageDriver.readSectors drive.driveId (node.lbaOffset lbaOffset) n with
      | none => ⟨calls, .error .vfsReadAborted⟩
      | some (buff, nSectorsRead) =>
        let size := (nSectorsRead *
          ((drive.storageDriver.queryDiskInfo drive.driveId).getD (0, 0)).2).toNat
        ⟨calls, .ok (buff.take (if vectorized then size / 64 * 64 else size), nSectorsRead)⟩ := by
  obtain ⟨hdrive, hpart⟩ := (passes_iff h h.readSize).2 hend
  simp only [DriveHandle.readSectors, hnode, hclosed, hbuff, hn, or_self, if_false]
  refine (if_neg hdrive).trans ?_
  rw [hpart]
  rfl

/-- The bytes that are copied are those that were read, unless the vectorized copy leaves some
out. -/
theorem copied_eq_iff {size count : Nat} (f : Nat → BitVec 8) (hsmall : count * size < 2 ^ 64) :
    ((range (pagesFor size count * 4096)).map f).take
        (if vectorized then count * size / 64 * 64 else count * size) =
      (range (count * size)).map f ↔ (vectorized = true → 64 ∣ count * size) := by
  have hpages := (pagesFor_bounds size count).1
  rw [Nat.mod_eq_of_lt hsmall] at hpages
  constructor
  · intro heq hvectorized
    have hlength := congrArg length heq
    simp only [hvectorized, if_true, length_take, length_map, length_range]
      at hlength
    omega
  · intro hdvd
    have hsize : (if vectorized then count * size / 64 * 64 else count * size) = count * size := by
      cases hvectorized : vectorized with
      | false => rfl
      | true => exact Nat.div_mul_cancel (hdvd hvectorized)
    rw [hsize, ← map_take, take_range, Nat.min_eq_left hpages]

/-- The sectors of a request on the device, for the driver. -/
theorem OnDevice.sectors (hon : OnDevice h node lbaOffset n) :
    (node.lbaOffset lbaOffset).toNat = (h.range node).1 + lbaOffset.toNat ∧
      (h.range node).1 + lbaOffset.toNat + n.toNat < 2 ^ 64 := by
  have hdrive : h.driveNode.nSectors < 2 ^ 64 := UInt64.toNat_lt _
  have hfirst := toNat_end h node lbaOffset 0
  have hon := hon.2
  rw [UInt64.add_zero] at hfirst
  rw [hfirst]
  constructor
  · rw [UInt64.toNat_zero]
    omega
  · omega

end Requests

/-! ## The result -/

section Result

variable {ports : List Port} {base : Nat} {memory : Nat → BitVec 8} {h : DriveHandle}
  {node : DriveNode} {lbaOffset n : UInt64} {port : Port}

section

variable (hport : getPortDescriptorFromKernelDriveID ports h.driveNode.driveId.toNat = some port)
include hport

theorem nSectors_eq (hdriver : h.driveNode.storageDriver = storageDriver ports base memory) :
    h.driveNode.nSectors = port.nSectors := by
  simp only [DriveEntry.nSectors, hdriver, storageDriver, hport, Option.map_some, Option.getD_some,
    UInt64.toNat_ofNat', Nat.mod_eq_of_lt port.nSectors_lt]

/-- Where the driver returns from the request of a handle. -/
theorem returns_iff {s64a : Bool} :
    Returns ports s64a base [⟨h.driveNode.driveId, node.lbaOffset lbaOffset, n⟩] ↔
      port.nSectors < ((node.lbaOffset lbaOffset).toNat + n.toNat) % 2 ^ 64 ∨
        Addressable s64a base port.sectorSize n.toNat := by
  simp only [Returns, mem_singleton, forall_eq, driveReadSectors, driveCommands, hport]
  by_cases hbehind : port.nSectors < ((node.lbaOffset lbaOffset).toNat + n.toNat) % 2 ^ 64
  · rw [if_pos hbehind]
    exact iff_of_true rfl (.inl hbehind)
  · rw [if_neg hbehind, transferCommands, blockCommands_isSome_iff, or_iff_right hbehind]
    simp only [Addressable, Nat.zero_add]

/-- What a request on the device has to be to be read. -/
theorem hasRead_iff {s64a vectorized : Bool} (hbase : base < 2 ^ 64) (hn : n ≠ 0)
    (hdriver : h.driveNode.storageDriver = storageDriver ports base memory)
    (hon : OnDevice h node lbaOffset n) {bytes : List (BitVec 8)}
    (hbytes : bytes = ((range (pagesFor port.sectorSize n.toNat * 4096)).map fun i =>
      memory (base + i)).take (if vectorized then n.toNat * port.sectorSize % 2 ^ 64 / 64 * 64
        else n.toNat * port.sectorSize % 2 ^ 64)) :
    HasRead ports s64a base memory h node lbaOffset n bytes n ↔
      OneBlock s64a port.sectorSize base ((h.range node).1 + lbaOffset.toNat) n.toNat ∧
        (vectorized = true → 64 ∣ n.toNat * port.sectorSize) := by
  have hpos : 0 < n.toNat := Nat.pos_of_ne_zero fun hzero => hn (UInt64.toNat_inj.1 hzero)
  have hfits := hon.2
  rw [nSectors_eq hport hdriver] at hfits
  have hreads : ReadsRight ports s64a base h.driveNode.driveId.toNat
      ((h.range node).1 + lbaOffset.toNat) n.toNat port ↔
      OneBlock s64a port.sectorSize base ((h.range node).1 + lbaOffset.toNat) n.toNat := by
    rw [ReadsRight, driveReadSectors, driveCommands_eq hport hfits]
    exact right_iff_oneBlock hbase port.sectorSize_lt hpos
  have hcopied : OneBlock s64a port.sectorSize base ((h.range node).1 + lbaOffset.toNat) n.toNat →
      (bytes = (range (n.toNat * port.sectorSize)).map (fun i => memory (base + i)) ↔
        (vectorized = true → 64 ∣ n.toNat * port.sectorSize)) := by
    intro hone
    have hsmall : n.toNat * port.sectorSize < 2 ^ 64 := by
      rcases hone with hzero | hone
      · omega
      · omega
    rw [hbytes, Nat.mod_eq_of_lt hsmall]
    exact copied_eq_iff _ hsmall
  constructor
  · rintro ⟨-, port', hport', hright, heq⟩
    obtain rfl : port = port' := Option.some.inj (hport.symm.trans hport')
    have hone := hreads.1 hright
    exact ⟨hone, (hcopied hone).1 heq⟩
  · rintro ⟨hone, hdvd⟩
    exact ⟨rfl, port, hport, hreads.2 hone, (hcopied hone).2 hdvd⟩

end

theorem readRight_error {s64a : Bool} {calls : List SectorRequest} {e : DriveError}
    (hreturns : Returns ports s64a base calls) :
    ReadRight ports s64a base memory h node lbaOffset n ⟨calls, .error e⟩ :=
  ⟨fun _ _ _ hok => (nomatch hok), fun _ => ⟨hreturns, e, rfl⟩⟩

/-- Through an open handle, a read that succeeds has read what it was asked for and one that is not
on the device fails, if and only if the request is readable. -/
theorem read_right_iff (s64a vectorized : Bool) {obuff : Nat} (hbase : base < 2 ^ 64)
    (hdriver : h.driveNode.storageDriver = storageDriver ports base memory)
    (hnode : h.node = some node) (hclosed : h.closed = false) (hbuff : obuff ≠ 0) (hn : n ≠ 0) :
    ReadRight ports s64a base memory h node lbaOffset n
        (h.readSectors vectorized obuff lbaOffset n) ↔
      Readable ports s64a base h node vectorized lbaOffset n := by
  by_cases hend : node.limit h.readSize < ((h.range node).1 + lbaOffset.toNat + n.toNat) % 2 ^ 64
  · rw [readSectors_rejected hnode hclosed hbuff hn hend]
    exact iff_of_true (readRight_error fun r hr => absurd hr not_mem_nil) (.inl hend)
  rw [readSectors_passed hnode hclosed hbuff hn (Nat.not_lt.1 hend)]
  cases hport : getPortDescriptorFromKernelDriveID ports h.driveNode.driveId.toNat with
  | none =>
    simp only [hdriver, storageDriver, hport]
    refine iff_of_true (readRight_error ?_) (.inr ?_)
    · intro r hr
      obtain rfl := mem_singleton.1 hr
      simp [driveReadSectors, driveCommands, hport]
    · intro port hsome
      cases hport.symm.trans hsome
  | some port =>
    have hreadable : Readable ports s64a base h node vectorized lbaOffset n ↔
        OnDevice h node lbaOffset n ∧ (¬ Addressable s64a base port.sectorSize n.toNat ∨
          OneBlock s64a port.sectorSize base ((h.range node).1 + lbaOffset.toNat) n.toNat ∧
            (vectorized = true → 64 ∣ n.toNat * port.sectorSize)) := by
      simp only [Readable, hport, Option.some.injEq, forall_eq', or_iff_right hend]
    have hreturns := @returns_iff ports base h node lbaOffset n port hport s64a
    rw [hreadable]
    by_cases hbehind : port.nSectors < ((node.lbaOffset lbaOffset).toNat + n.toNat) % 2 ^ 64
    · -- the driver answers that it has read no sector
      simp only [hdriver, storageDriver, hport, if_pos hbehind]
      refine iff_of_false (fun hright => ?_) fun hcond => ?_
      · exact hn (hright.1 (hreturns.2 (.inl hbehind)) _ _ rfl).1.symm
      · have hsectors := hcond.1.sectors
        have hon := hcond.1.2
        rw [nSectors_eq hport hdriver] at hon
        omega
    · simp only [hdriver, storageDriver, hport, if_neg hbehind]
      by_cases hon : OnDevice h node lbaOffset n
      · have hsize : (n * UInt64.ofNat port.sectorSize).toNat =
            n.toNat * port.sectorSize % 2 ^ 64 := by
          have hlt : port.sectorSize < 2 ^ 64 := by
            have hsize := port.sectorSize_lt
            omega
          rw [UInt64.toNat_mul, UInt64.toNat_ofNat', Nat.mod_eq_of_lt hlt]
        simp only [Option.map_some, Option.getD_some, hsize]
        rw [or_iff_right hbehind] at hreturns
        have hread := @hasRead_iff ports base memory h node lbaOffset n port hport s64a vectorized
          hbase hn hdriver hon _ rfl
        rw [← hread, ← imp_iff_not_or, ← hreturns]
        constructor
        · intro hright
          exact ⟨hon, fun hret => hright.1 hret _ _ rfl⟩
        · intro hcond
          refine ⟨fun hret bytes nSectorsRead hok => ?_, fun hnot => absurd hon hnot⟩
          obtain ⟨rfl, rfl⟩ := Prod.mk.inj (Except.ok.inj hok)
          exact hcond.2 hret
      · refine iff_of_false (fun hright => ?_) fun hcond => hon hcond.1
        obtain ⟨_, e, herror⟩ := hright.2 hon
        cases herror

end Result

/-! ## A drive of 2^20 sectors -/

/-- A handle on the drive. -/
def smallDrive : DriveHandle where
  node := some .drive
  driveNode := ⟨0, storageDriver [smallPort] 0x100000 fun _ => 0⟩
  canWrite := false
  closed := false

theorem read_right_page : ReadRight [smallPort] true 0x100000 (fun _ => 0) smallDrive .drive 100 8
    (smallDrive.readSectors true 0x5000 100 8) := by
  refine (read_right_iff true true (by omega) rfl rfl rfl (by omega) (by decide)).2 (.inr ?_)
  intro port hport
  obtain rfl : smallPort = port := Option.some.inj hport
  refine ⟨⟨?_, ?_⟩, .inr ⟨.inr ⟨?_, ?_, ?_, ?_, .inl rfl⟩, fun _ => ?_⟩⟩ <;> decide

/-- The sector behind the last one: success, and no sector. -/
theorem read_behind_end : ¬ ReadRight [smallPort] true 0x100000 (fun _ => 0) smallDrive .drive
    1048576 1 (smallDrive.readSectors true 0x5000 1048576 1) := by
  intro hright
  have hread : (smallDrive.readSectors true 0x5000 1048576 1).result = .ok ([], 0) := rfl
  obtain ⟨_, e, herror⟩ := hright.2 fun hon => absurd hon.1 (by decide)
  cases hread.symm.trans herror

end Obos.Drivers.Sata
