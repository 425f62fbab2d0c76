import Mathlib.Data.List.Perm.Basic
import Mathlib.Data.Nat.Basic
import Mathlib.Tactic.Ring

/-!
# Commands of the SATA driver

`DriveReadSectors` and `DriveWriteSectors` split a transfer into blocks of 1024 pages and issue a
command for each. The second block is put 1024 bytes behind the first one, and the top byte of a
sector number is taken from its bits 48 to 55 instead of from bits 40 to 47.
`sectors_transferred_iff` says which transfers come out right: those of one block that start in the
first 2^40 sectors. The loop that frees the pages of a write moves its own end along and goes on to
the end of the address space (`write_frees_pages_iff`).
-/

namespace Obos.Drivers.Sata

open List Option

/-! ## The program -/

/-- `Port::DriverType`. -/
inductive DriveType where
  | invalid
  | sata
  | satapi
  deriving DecidableEq

/-- `Port`, as far as the transfers use it. -/
structure Port where
  driveType : DriveType
  kernelID : Nat
  sectorSize : Nat
  sectorSize_lt : sectorSize < 2 ^ 32
  nSectors : Nat
  nSectors_lt : nSectors < 2 ^ 64

/-- `GetPortDescriptorFromKernelDriveID`. -/
def getPortDescriptorFromKernelDriveID (ports : List Port) (id : Nat) : Option Port :=
  ports.find? fun p => p.driveType ≠ .invalid ∧ p.kernelID = id

/-- `FIS_REG_H2D`, without the fields that are the same in all commands. -/
structure FisRegH2D where
  command : Nat
  device : Nat
  lba0 : BitVec 8
  lba1 : BitVec 8
  lba2 : BitVec 8
  lba3 : BitVec 8
  lba4 : BitVec 8
  lba5 : BitVec 8
  countl : BitVec 8
  counth : BitVec 8

/-- `HBA_PRDT_ENTRY`. -/
structure HbaPrdtEntry where
  dba : BitVec 32
  dbau : BitVec 32
  dbc : BitVec 22

/-- A command table when its command is issued, with the direction in the command header. -/
structure IssuedCommand where
  w : Bool
  cfis : FisRegH2D
  prdtEntry : HbaPrdtEntry

/-- The variables of the loop over the blocks. -/
structure Progress where
  currentSectorCount : Nat
  currentPageCount : Nat
  currentLBAOffset : Nat

/-- What is not the same for reading and writing: the direction, the command and the device. -/
structure Direction where
  w : Bool
  command : Nat
  device : Nat

section Transfer

variable (dir : Direction) (s64a : Bool) (physicalAddressBase sectorSize nSectors : Nat)

/-- The command of a block. An address that the controller cannot use is a panic. -/
def blockCommand (i : Nat) (last : Bool) (st : Progress) : Option IssuedCommand :=
  let phys := (physicalAddressBase + i * 1024) % 2 ^ 64
  if s64a = false ∧ phys / 2 ^ 32 ≠ 0 then none
  else
    let count := (if last then st.currentSectorCount else 1024) % 2 ^ 16
    let lba := st.currentLBAOffset
    some {
      w := dir.w
      cfis := {
        command := dir.command
        device := dir.device
        lba0 := BitVec.ofNat 8 lba
        lba1 := BitVec.ofNat 8 (lba / 2 ^ 8)
        lba2 := BitVec.ofNat 8 (lba / 2 ^ 16)
        lba3 := BitVec.ofNat 8 (lba / 2 ^ 24)
        lba4 := BitVec.ofNat 8 (lba / 2 ^ 32)
        lba5 := BitVec.ofNat 8 (lba / 2 ^ 48)
        countl := BitVec.ofNat 8 count
        counth := BitVec.ofNat 8 (count / 2 ^ 8) }
      prdtEntry := {
        dba := BitVec.ofNat 32 phys
        -- the field is zero from the start if the controller has addresses of 32 bits
        dbau := if s64a then BitVec.ofNat 32 (phys / 2 ^ 32) else 0
        dbc := BitVec.ofNat 22 (st.currentPageCount * 4096 + 2 ^ 64 - 1) } }

/-- The end of the body of the loop. -/
def Progress.next (st : Progress) : Progress :=
  let sectors := 4096 / sectorSize
  let currentSectorCount :=
    if sectors < st.currentSectorCount then st.currentSectorCount - sectors
    else st.currentSectorCount
  let currentPageCount :=
    if 1024 < st.currentPageCount then st.currentPageCount - 1024 else st.currentPageCount
  ⟨currentSectorCount, currentPageCount,
    (st.currentLBAOffset + (nSectors + 2 ^ 64 - currentSectorCount)) % 2 ^ 64⟩

/-- The loop over the blocks, from block `i` on. -/
def blockCommands : Nat → Nat → Progress → Option (List IssuedCommand)
  | 0, _, _ => some []
  | rest + 1, i, st => do
      let command ← blockCommand dir s64a physicalAddressBase i (rest = 0) st
      let commands ← blockCommands rest (i + 1) (st.next sectorSize nSectors)
      return command :: commands

/-- `pagesToRead` and `pagesToWrite`. -/
def pagesFor : Nat :=
  let size := nSectors * sectorSize % 2 ^ 64
  size / 4096 + if size % 4096 ≠ 0 then 1 else 0

/-- `blocksToRead` and `blocksToWrite`. -/
def blocksFor : Nat :=
  let pages := pagesFor sectorSize nSectors
  pages / 1024 + if pages % 1024 ≠ 0 then 1 else 0

/-- The part of the two functions that issues the commands. -/
def transferCommands (lbaOffset : Nat) : Option (List IssuedCommand) :=
  blockCommands dir s64a physicalAddressBase sectorSize nSectors (blocksFor sectorSize nSectors) 0
    ⟨nSectors, pagesFor sectorSize nSectors, lbaOffset⟩

end Transfer

section Interface

variable (ports : List Port) (s64a : Bool) (physicalAddressBase driveId lbaOffset nSectors : Nat)

/-- The commands for a drive. There are none if there is no such drive or the end of the transfer is
behind its end. -/
def driveCommands (dir : Direction) : Option (List IssuedCommand) :=
  match getPortDescriptorFromKernelDriveID ports driveId with
  | none => some []
  | some port =>
    if port.nSectors < (lbaOffset + nSectors) % 2 ^ 64 then some []
    else transferCommands dir s64a physicalAddressBase port.sectorSize nSectors lbaOffset

/-- `DriveReadSectors`: the commands it issues, if it does not panic. -/
def driveReadSectors : Option (List IssuedCommand) :=
  driveCommands ports s64a physicalAddressBase driveId lbaOffset nSectors ⟨false, 0x25, 0x40⟩

/-- `DriveWriteSectors`: the commands it issues, if it does not panic. -/
def driveWriteSectors : Option (List IssuedCommand) :=
  driveCommands ports s64a physicalAddressBase driveId lbaOffset nSectors ⟨true, 0x35, 0⟩

/-- The loop that frees the pages of a write, whose end moves along with `_phys`. -/
def freePages (pages : Nat) : Nat → Nat → Option (List Nat)
  | 0, _ => none
  | fuel + 1, phys =>
    if phys < (phys + pages * 4096) % 2 ^ 64 then
      (freePages pages fuel ((phys + 4096) % 2 ^ 64)).map fun freed => phys :: freed
    else some []

/-- `DriveWriteSectors`: the pages it frees, if it returns. -/
def driveWriteFrees (fuel : Nat) : Option (List Nat) :=
  match getPortDescriptorFromKernelDriveID ports driveId with
  | none => some []
  | some port =>
    if port.nSectors < (lbaOffset + nSectors) % 2 ^ 64 then some []
    else do
      let _ ← driveWriteSectors ports s64a physicalAddressBase driveId lbaOffset nSectors
      freePages (pagesFor port.sectorSize nSectors) fuel physicalAddressBase

end Interface

/-- The bytes of its buffer that `DriveWriteSectors` copies to the pages it writes from: whole
blocks of 64 bytes. -/
def copiedToWrite (port : Port) (nSectors : Nat) : Nat :=
  nSectors * port.sectorSize % 2 ^ 64 / 64 * 64

/-! ## What the commands do -/

namespace IssuedCommand

/-- The first sector of a command. -/
def lba (c : IssuedCommand) : Nat :=
  c.cfis.lba0.toNat + c.cfis.lba1.toNat * 2 ^ 8 + c.cfis.lba2.toNat * 2 ^ 16 +
    c.cfis.lba3.toNat * 2 ^ 24 + c.cfis.lba4.toNat * 2 ^ 32 + c.cfis.lba5.toNat * 2 ^ 40

/-- The number of sectors of a command, zero standing for the largest. -/
def count (c : IssuedCommand) : Nat :=
  let count := c.cfis.countl.toNat + c.cfis.counth.toNat * 2 ^ 8
  if count = 0 then 2 ^ 16 else count

/-- The physical address of a command. -/
def address (c : IssuedCommand) : Nat :=
  c.prdtEntry.dba.toNat + c.prdtEntry.dbau.toNat * 2 ^ 32

/-- The number of bytes a command may transfer. -/
def bytes (c : IssuedCommand) : Nat := c.prdtEntry.dbc.toNat + 1

/-- The sectors of a command, each with its address. -/
def transfers (c : IssuedCommand) (sectorSize : Nat) : List (Nat × Nat) :=
  (List.range c.count).map fun m => (c.lba + m, c.address + m * sectorSize)

end IssuedCommand

open IssuedCommand (address bytes lba transfers)

/-- The commands transfer each sector once, to or from its place in the pages, and each of them has
room for its sectors. -/
def TransfersRight (sectorSize physicalAddressBase lbaOffset nSectors : Nat)
    (commands : List IssuedCommand) : Prop :=
  (∀ c ∈ commands, c.count * sectorSize ≤ c.bytes) ∧
    (commands.flatMap fun c => c.transfers sectorSize).Perm
      ((List.range nSectors).map fun j => (lbaOffset + j, physicalAddressBase + j * sectorSize))

/-- `DriveReadSectors` issues the right commands. -/
def ReadsRight (ports : List Port) (s64a : Bool)
    (physicalAddressBase driveId lbaOffset nSectors : Nat) (port : Port) : Prop :=
  ∃ commands,
    driveReadSectors ports s64a physicalAddressBase driveId lbaOffset nSectors = some commands ∧
      TransfersRight port.sectorSize physicalAddressBase lbaOffset nSectors commands

/-- `DriveWriteSectors` issues the right commands, for pages that hold its buffer. -/
def WritesRight (ports : List Port) (s64a : Bool)
    (physicalAddressBase driveId lbaOffset nSectors : Nat) (port : Port) : Prop :=
  ∃ commands,
    driveWriteSectors ports s64a physicalAddressBase driveId lbaOffset nSectors = some commands ∧
      TransfersRight port.sectorSize physicalAddressBase lbaOffset nSectors commands ∧
      copiedToWrite port nSectors = nSectors * port.sectorSize

/-- The transfers of one block that start in the first 2^40 sectors, from or to pages that the
controller can address, and those of no sector. -/
def OneBlock (s64a : Bool) (sectorSize physicalAddressBase lbaOffset nSectors : Nat) : Prop :=
  nSectors = 0 ∨ 0 < sectorSize ∧ nSectors * sectorSize ≤ 2 ^ 22 ∧ nSectors ≤ 2 ^ 16 ∧
    lbaOffset < 2 ^ 40 ∧ (s64a = true ∨ physicalAddressBase < 2 ^ 32)

/-! ## Commands -/

section Commands

variable {dir : Direction} {s64a last : Bool} {base i size n lba : Nat} {st : Progress}
  {c : IssuedCommand} {commands : List IssuedCommand}

/-- The numbers in the command of a block. -/
theorem blockCommand_numbers (hcommand : blockCommand dir s64a base i last st = some c) :
    c.address = (base + i * 1024) % 2 ^ 64 ∧
    c.lba = st.currentLBAOffset % 2 ^ 40 + st.currentLBAOffset / 2 ^ 48 % 2 ^ 8 * 2 ^ 40 ∧
    c.bytes = (st.currentPageCount * 4096 + 2 ^ 64 - 1) % 2 ^ 22 + 1 := by
  simp only [blockCommand] at hcommand
  split at hcommand
  · cases hcommand
  rename_i hpanic
  obtain rfl := some.inj hcommand
  refine ⟨?_, ?_, ?_⟩
  · cases s64a with
    | false =>
      have hlow : (base + i * 1024) % 2 ^ 64 / 2 ^ 32 = 0 := by
        by_contra hhigh
        exact hpanic ⟨rfl, hhigh⟩
      simp only [address, BitVec.toNat_ofNat, Bool.false_eq_true, if_false]
      exact Nat.mod_eq_of_lt (Nat.lt_of_div_eq_zero (by decide) hlow)
    | true =>
      simp only [address, BitVec.toNat_ofNat, if_true]
      omega
  · simp only [lba, BitVec.toNat_ofNat]
    omega
  · simp only [bytes, BitVec.toNat_ofNat]

/-- The number of sectors in the command of the last block. -/
theorem blockCommand_count (hcommand : blockCommand dir s64a base i true st = some c) :
    c.count = if st.currentSectorCount % 2 ^ 16 = 0 then 2 ^ 16
      else st.currentSectorCount % 2 ^ 16 := by
  simp only [blockCommand] at hcommand
  split at hcommand
  · cases hcommand
  obtain rfl := some.inj hcommand
  have hcount : st.currentSectorCount % 2 ^ 16 % 2 ^ 8 +
      st.currentSectorCount % 2 ^ 16 / 2 ^ 8 % 2 ^ 8 * 2 ^ 8 = st.currentSectorCount % 2 ^ 16 := by
    omega
  simp only [IssuedCommand.count, BitVec.toNat_ofNat, if_true, hcount]

theorem first_mem_transfers (c : IssuedCommand) (size : Nat) :
    (c.lba, c.address) ∈ c.transfers size := by
  have hcount : 0 < c.count := by
    simp only [IssuedCommand.count]
    split <;> omega
  exact mem_map.2 ⟨0, mem_range.2 hcount, by simp⟩

theorem TransfersRight.first (h : TransfersRight size base lba n commands) (hc : c ∈ commands) :
    ∃ j < n, c.lba = lba + j ∧ c.address = base + j * size := by
  have hmem := h.2.subset (mem_flatMap.2 ⟨c, hc, first_mem_transfers c size⟩)
  obtain ⟨j, hj, heq⟩ := mem_map.1 hmem
  obtain ⟨hlba, haddress⟩ := Prod.mk.inj heq
  exact ⟨j, mem_range.1 hj, hlba.symm, haddress.symm⟩

/-- The number of sectors of the commands, in a transfer that is right. -/
theorem TransfersRight.count_eq (h : TransfersRight size base lba n commands) :
    (commands.map IssuedCommand.count).sum = n := by
  have hlength := h.2.length_eq
  rw [length_flatMap, length_map, length_range] at hlength
  rw [← hlength]
  congr 1
  refine map_congr_left fun c _ => ?_
  simp [transfers]

theorem pagesFor_bounds (size n : Nat) : n * size % 2 ^ 64 ≤ pagesFor size n * 4096 ∧
    pagesFor size n * 4096 < n * size % 2 ^ 64 + 4096 := by
  simp only [pagesFor]
  split <;> omega

theorem blocksFor_bounds (size n : Nat) : pagesFor size n ≤ blocksFor size n * 1024 ∧
    blocksFor size n * 1024 < pagesFor size n + 1024 := by
  simp only [blocksFor]
  split <;> omega

/-! ## One block -/

/-- The transfer of one block, if it is right. -/
theorem oneBlock_of_right (hlba : lba < 2 ^ 48) (hsize : size < 2 ^ 32)
    (hblocks : blocksFor size n = 1) (hcommands : transferCommands dir s64a base size n lba =
      some commands) (hbase : base < 2 ^ 64) (h : TransfersRight size base lba n commands) :
    OneBlock s64a size base lba n := by
  have hpages := blocksFor_bounds size n
  have hbytes := pagesFor_bounds size n
  simp only [transferCommands, hblocks, blockCommands, Option.bind_eq_bind, Option.bind_eq_some_iff,
    Option.pure_def, Option.some.injEq, exists_eq_left', decide_true] at hcommands
  obtain ⟨c, hcommand, rfl⟩ := hcommands
  obtain ⟨haddress, hfirst, -⟩ := blockCommand_numbers hcommand
  have hcount := h.count_eq
  rw [map_singleton, sum_singleton, blockCommand_count hcommand] at hcount
  obtain ⟨j, -, hj, -⟩ := h.first mem_cons_self
  have hsectors : n ≤ 2 ^ 16 := by
    split at hcount <;> omega
  have hproduct := Nat.mul_le_mul hsectors hsize.le
  refine .inr ⟨?_, by omega, hsectors, by simp only at hfirst; omega, ?_⟩
  · by_contra hzero
    obtain rfl : size = 0 := by omega
    omega
  · by_contra hunusable
    rw [not_or, Nat.not_lt] at hunusable
    simp only [blockCommand, hunusable.1, true_and] at hcommand
    rw [if_pos (by omega)] at hcommand
    cases hcommand

/-- The transfer of one block is right. -/
theorem right_of_oneBlock (dir : Direction) (hbase : base < 2 ^ 64)
    (h : OneBlock s64a size base lba n) :
    ∃ commands, transferCommands dir s64a base size n lba = some commands ∧
      TransfersRight size base lba n commands := by
  have hpages := blocksFor_bounds size n
  have hbytes := pagesFor_bounds size n
  rcases Nat.eq_zero_or_pos n with rfl | hn
  · -- nothing to transfer
    have hblocks : blocksFor size 0 = 0 := by
      omega
    refine ⟨[], by rw [transferCommands, hblocks, blockCommands], ?_, ?_⟩
    · simp
    · simp
  obtain ⟨hsize, hsmall, hsectors, hlba, husable⟩ := h.resolve_left hn.ne'
  have hpos : 0 < n * size := Nat.mul_pos hn hsize
  have hblocks : blocksFor size n = 1 := by omega
  obtain ⟨c, hcommand⟩ : ∃ c, blockCommand dir s64a base 0 true ⟨n, pagesFor size n, lba⟩ =
      some c := by
    refine ⟨_, if_neg ?_⟩
    rintro ⟨hs64a, hhigh⟩
    rcases husable with husable | husable
    · rw [hs64a] at husable
      cases husable
    · omega
  obtain ⟨haddress, hfirst, hroom⟩ := blockCommand_numbers hcommand
  have hcount := blockCommand_count hcommand
  simp only at hfirst hroom hcount
  have haddress' : c.address = base := by
    omega
  have hfirst' : c.lba = lba := by
    omega
  have hcount' : c.count = n := by
    rw [hcount]
    split <;> omega
  refine ⟨[c], ?_, ?_, ?_⟩
  · simp only [transferCommands, hblocks, blockCommands, decide_true, hcommand]
    rfl
  · intro c' hc'
    obtain rfl := mem_singleton.1 hc'
    rw [hcount']
    omega
  · rw [flatMap_singleton, transfers, haddress', hfirst', hcount']

/-! ## Several blocks -/

/-- The sectors of a page do not have 1024 bytes together. -/
theorem page_ne (size : Nat) : 4096 / size * size ≠ 1024 := by
  intro h
  have hdiv := Nat.div_add_mod 4096 size
  rw [Nat.mul_comm] at hdiv
  rcases Nat.eq_zero_or_pos size with rfl | hpos
  · simp at h
  have hmod := Nat.mod_lt 4096 hpos
  rcases Nat.eq_zero_or_pos (4096 / size) with hzero | hquot
  · rw [hzero] at h
    omega
  · have hle := Nat.le_mul_of_pos_left size hquot
    omega

/-- The second block starts where the sectors of a page end, or where the first block does. -/
theorem next_lba (size pages : Nat) (hlba : lba < 2 ^ 48) :
    ∃ delta, (delta = 4096 / size ∨ delta = 0) ∧
      (Progress.next size n ⟨n, pages, lba⟩).currentLBAOffset = lba + delta := by
  have hquot := Nat.div_le_self 4096 size
  simp only [Progress.next]
  generalize 4096 / size = sectors at hquot ⊢
  split
  · exact ⟨sectors, .inl rfl, by omega⟩
  · exact ⟨0, .inr rfl, by omega⟩

/-- The second block is out of place. -/
theorem not_right_of_two_blocks (hbase : base < 2 ^ 64) (hlba : lba < 2 ^ 48) {k : Nat}
    (hblocks : blocksFor size n = k + 2)
    (hcommands : transferCommands dir s64a base size n lba = some commands) :
    ¬ TransfersRight size base lba n commands := by
  intro h
  simp only [transferCommands, hblocks, blockCommands, Option.bind_eq_bind, Option.bind_eq_some_iff,
    Option.pure_def, Option.some.injEq] at hcommands
  obtain ⟨c0, hcommand0, _, ⟨c1, hcommand1, rest, -, rfl⟩, rfl⟩ := hcommands
  obtain ⟨haddress0, hlba0, -⟩ := blockCommand_numbers hcommand0
  obtain ⟨haddress1, hlba1, -⟩ := blockCommand_numbers hcommand1
  obtain ⟨j0, -, hj0, -⟩ := h.first mem_cons_self
  obtain ⟨j1, -, hj1, hplace1⟩ := h.first (mem_cons_of_mem c0 mem_cons_self)
  have hstart : lba < 2 ^ 40 := by
    simp only at hlba0
    omega
  obtain ⟨delta, hdelta, hnext⟩ := next_lba (n := n) size (pagesFor size n) hlba
  have hquot := Nat.div_le_self 4096 size
  have hj : j1 = delta := by omega
  have haddress : j1 * size = 1024 := by omega
  rcases hdelta with rfl | rfl
  · exact page_ne size (hj ▸ haddress)
  · rw [hj, Nat.zero_mul] at haddress
    cases haddress

end Commands

/-- The commands of a transfer are right if and only if it is one of one block. -/
theorem transfersRight_iff (dir : Direction) {s64a : Bool} {base size n lba : Nat}
    (hbase : base < 2 ^ 64) (hsize : size < 2 ^ 32) (hlba : lba < 2 ^ 48) :
    (∃ commands, transferCommands dir s64a base size n lba = some commands ∧
      TransfersRight size base lba n commands) ↔ OneBlock s64a size base lba n := by
  refine ⟨fun h => ?_, right_of_oneBlock dir hbase⟩
  obtain ⟨commands, hcommands, hright⟩ := h
  match hblocks : blocksFor size n with
  | 0 =>
    rw [transferCommands, hblocks] at hcommands
    obtain rfl := some.inj hcommands
    exact .inl hright.count_eq.symm
  | 1 => exact oneBlock_of_right hlba hsize hblocks hcommands hbase hright
  | k + 2 => exact absurd hright (not_right_of_two_blocks hbase hlba hblocks hcommands)

/-- The commands for a transfer that fits on its drive. -/
theorem driveCommands_eq {ports : List Port} {driveId : Nat} {port : Port}
    (hport : getPortDescriptorFromKernelDriveID ports driveId = some port) {lba n : Nat}
    (hfits : lba + n ≤ port.nSectors) (s64a : Bool) (base : Nat) (dir : Direction) :
    driveCommands ports s64a base driveId lba n dir =
      transferCommands dir s64a base port.sectorSize n lba := by
  have hend := port.nSectors_lt
  have hmod : (lba + n) % 2 ^ 64 = lba + n := Nat.mod_eq_of_lt (by omega)
  simp only [driveCommands, hport, hmod]
  exact if_neg (Nat.not_lt.2 hfits)

/-- What is copied for a transfer of one block. -/
theorem copiedToWrite_eq_iff {port : Port} {s64a : Bool} {base lba n : Nat}
    (h : OneBlock s64a port.sectorSize base lba n) :
    copiedToWrite port n = n * port.sectorSize ↔ 64 ∣ n * port.sectorSize := by
  have hsmall : n * port.sectorSize < 2 ^ 64 := by
    rcases h with rfl | h
    · rw [Nat.zero_mul]
      decide
    · omega
  rw [copiedToWrite]
  omega

/-- The commands for a transfer that fits on the drive are right if and only if it is one of one
block that starts in the first 2^40 sectors; what is written comes from the buffer if its size is a
multiple of 64 bytes, too. -/
theorem sectors_transferred_iff (s64a : Bool) (ports : List Port) (driveId base lba n : Nat)
    {port : Port} (hport : getPortDescriptorFromKernelDriveID ports driveId = some port)
    (hbase : base < 2 ^ 64) (hlba : lba < 2 ^ 48) (hfits : lba + n ≤ port.nSectors) :
    (ReadsRight ports s64a base driveId lba n port ↔ OneBlock s64a port.sectorSize base lba n) ∧
    (WritesRight ports s64a base driveId lba n port ↔
      OneBlock s64a port.sectorSize base lba n ∧ 64 ∣ n * port.sectorSize) := by
  have hcommands := driveCommands_eq hport hfits s64a base
  constructor
  · rw [ReadsRight, driveReadSectors, hcommands]
    exact transfersRight_iff _ hbase port.sectorSize_lt hlba
  · rw [WritesRight, driveWriteSectors, hcommands]
    constructor
    · rintro ⟨commands, hsome, hright, hcopied⟩
      have hone := (transfersRight_iff _ hbase port.sectorSize_lt hlba).1 ⟨commands, hsome, hright⟩
      exact ⟨hone, (copiedToWrite_eq_iff hone).1 hcopied⟩
    · rintro ⟨hone, hdvd⟩
      obtain ⟨commands, hsome, hright⟩ :=
        (transfersRight_iff _ hbase port.sectorSize_lt hlba).2 hone
      exact ⟨commands, hsome, hright, (copiedToWrite_eq_iff hone).2 hdvd⟩

/-- A drive with sectors of 512 bytes. -/
def smallPort : Port := ⟨.sata, 0, 512, by decide, 2 ^ 20, by decide⟩

theorem sectors_transferred_iff_page :
    ReadsRight [smallPort] true 0x100000 0 100 8 smallPort ∧
      WritesRight [smallPort] true 0x100000 0 100 8 smallPort := by
  have hone : OneBlock true smallPort.sectorSize 0x100000 100 8 := by
    refine .inr ⟨?_, ?_, ?_, ?_, .inl rfl⟩ <;> decide
  obtain ⟨hread, hwrite⟩ := sectors_transferred_iff true [smallPort] 0 0x100000 100 8 rfl
    (by decide) (by decide) (by decide)
  exact ⟨hread.2 hone, hwrite.2 ⟨hone, by decide⟩⟩

/-- One sector more than a block holds. -/
theorem smallPort_two_blocks : ¬ ReadsRight [smallPort] true 0x100000 0 0 8193 smallPort := by
  intro hread
  have hone := (transfersRight_iff _ (by decide) smallPort.sectorSize_lt (by decide)).1 hread
  rcases hone with hzero | ⟨-, hsmall, -⟩
  · cases hzero
  · exact absurd hsmall (by decide)

/-! ## The pages of a write -/

/-- The pages that `allocatePhysicalPage` gave. -/
def allocatedPages (base pages : Nat) : List Nat := (List.range pages).map fun i => base + i * 4096

/-- The loop does not stop before its moving end is behind the address space. -/
theorem mem_freePages {pages fuel phys i : Nat} {freed : List Nat} (hpages : 0 < pages)
    (h : freePages pages fuel phys = some freed) (hi : phys + i * 4096 + pages * 4096 < 2 ^ 64) :
    phys + i * 4096 ∈ freed := by
  induction fuel generalizing phys i freed with
  | zero => cases h
  | succ fuel ih =>
    have hlt : phys + pages * 4096 < 2 ^ 64 := by omega
    have hend := Nat.mod_eq_of_lt hlt
    have hnext : (phys + 4096) % 2 ^ 64 = phys + 4096 := by omega
    have hgoes : phys < phys + pages * 4096 := by omega
    rw [freePages, hend, if_pos hgoes, hnext, map_eq_some_iff] at h
    obtain ⟨rest, hrest, rfl⟩ := h
    cases i with
    | zero => simp
    | succ i =>
      have hmem := ih hrest (show phys + 4096 + i * 4096 + pages * 4096 < 2 ^ 64 by omega)
      rw [show phys + 4096 + i * 4096 = phys + (i + 1) * 4096 by omega] at hmem
      exact mem_cons_of_mem phys hmem

/-- A page behind those that were allocated is freed, too. -/
theorem not_perm_of_freePages {pages fuel base : Nat} {freed : List Nat} (hpages : 0 < pages)
    (hbase : base + pages * 4096 ≤ 2 ^ 52) (h : freePages pages fuel base = some freed) :
    ¬ freed.Perm (allocatedPages base pages) := by
  intro hperm
  have hmem := mem_freePages hpages h
    (show base + pages * 4096 + pages * 4096 < 2 ^ 64 by omega)
  obtain ⟨i, hi, heq⟩ := mem_map.1 (hperm.subset hmem)
  have hlt := mem_range.1 hi
  omega

theorem pagesFor_eq_zero_iff (size n : Nat) : pagesFor size n = 0 ↔ n * size % 2 ^ 64 = 0 := by
  have hbounds := pagesFor_bounds size n
  omega

/-- A write to a drive returns and frees the pages it allocated, each once, if and only if it is one
of no bytes. -/
theorem write_frees_pages_iff {ports : List Port} {s64a : Bool} {base driveId lba n : Nat}
    {port : Port} (hport : getPortDescriptorFromKernelDriveID ports driveId = some port)
    (haccepted : (lba + n) % 2 ^ 64 ≤ port.nSectors)
    (hbase : base + pagesFor port.sectorSize n * 4096 ≤ 2 ^ 52) :
    (∃ fuel freed, driveWriteFrees ports s64a base driveId lba n fuel = some freed ∧
      freed.Perm (allocatedPages base (pagesFor port.sectorSize n))) ↔
      n * port.sectorSize % 2 ^ 64 = 0 := by
  rw [← pagesFor_eq_zero_iff]
  have haccepts := Nat.not_lt.2 haccepted
  constructor
  · rintro ⟨fuel, freed, hfreed, hperm⟩
    by_contra hne
    simp only [driveWriteFrees, hport, if_neg haccepts, bind, bind_eq_some_iff] at hfreed
    obtain ⟨_, _, hloop⟩ := hfreed
    exact not_perm_of_freePages (Nat.pos_of_ne_zero hne) hbase hloop hperm
  · intro hzero
    have hblocks : blocksFor port.sectorSize n = 0 := by simp [blocksFor, hzero]
    have hstop : ¬ base < base % 2 ^ 64 := Nat.not_lt.2 (Nat.mod_le _ _)
    refine ⟨1, [], ?_, ?_⟩
    · simp only [driveWriteFrees, driveWriteSectors, driveCommands, hport, if_neg haccepts,
        transferCommands, hblocks, blockCommands, hzero, freePages, Nat.zero_mul, Nat.add_zero,
        if_neg hstop, bind_some, bind]
    · rw [hzero]
      exact .refl _

theorem write_frees_pages_iff_no_sector :
    ∃ fuel freed, driveWriteFrees [smallPort] true 0x100000 0 100 0 fuel = some freed ∧
      freed.Perm (allocatedPages 0x100000 0) := by
  have hport : getPortDescriptorFromKernelDriveID [smallPort] 0 = some smallPort := rfl
  have hfrees := @write_frees_pages_iff [smallPort] true 0x100000 0 100 0 smallPort hport
    (by decide) (by decide)
  exact hfrees.2 (by decide)

/-- A write of one sector does not free its page alone. -/
theorem smallPort_frees_more :
    ¬ ∃ fuel freed, driveWriteFrees [smallPort] true 0x100000 0 100 1 fuel = some freed ∧
      freed.Perm (allocatedPages 0x100000 1) := by
  rintro ⟨fuel, freed, hfreed, hperm⟩
  have hport : getPortDescriptorFromKernelDriveID [smallPort] 0 = some smallPort := rfl
  have haccepts : ¬ smallPort.nSectors < (100 + 1) % 2 ^ 64 := by decide
  simp only [driveWriteFrees, hport, if_neg haccepts, bind, bind_eq_some_iff] at hfreed
  obtain ⟨_, _, hloop⟩ := hfreed
  rw [show pagesFor smallPort.sectorSize 1 = 1 by decide] at hloop
  exact not_perm_of_freePages (by omega) (by omega) hloop hperm

end Obos.Drivers.Sata
