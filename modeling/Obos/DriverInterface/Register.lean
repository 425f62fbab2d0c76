import Obos.Lib.Run
import Mathlib.Data.BitVec
import Mathlib.Data.Fintype.Card

/-!
# Registered devices

Drivers register drives and user input devices. Each kind has a list and a counter, and a
new device gets the counter of the drives for its id, whatever its kind is; an input device
that is unregistered is counted off the drives.

`registered_consistent` says that the ids are distinct and the counters right in every run in
which no device gets an id that is in use and no input device is unregistered (`Safe`);
`step_consistent_iff` says that any other call breaks one of the two.
-/

namespace Obos.DriverInterface

open Lib List Option

/-! ## The program -/

/-- `serviceType`. -/
inductive ServiceType where
  | filesystem
  | initrdFilesystem
  | storageDevice
  | virtualStorageDevice
  | userInputDevice
  | virtualUserInputDevice
  | communication
  | virtualCommunication
  | partitionManager
  | kernelExtension
  deriving DecidableEq

/-- The fields of `driverIdentity` that are read here. -/
structure DriverIdentity where
  driverId : BitVec 32
  serviceType : ServiceType
  deriving DecidableEq

/-- `DriveEntry` and `InputDevice`. -/
structure Device where
  id : BitVec 32
  driver : DriverIdentity
  deriving DecidableEq

/-- `DriveList` and `InputDeviceList`. -/
structure DeviceList where
  devices : List Device
  count : BitVec 64

/-- `g_drives` and `g_inputDevices`. -/
structure Registry where
  drives : DeviceList
  inputDevices : DeviceList

/-- `DeviceType`. -/
inductive DeviceType where
  | drive
  | userInput
  deriving DecidableEq

/-- The services whose drivers may register devices of a type. -/
def DeviceType.services : DeviceType → List ServiceType
  | .drive => [.storageDevice, .virtualStorageDevice]
  | .userInput => [.userInputDevice, .virtualUserInputDevice]

/-- The ids in a list, in its order. -/
def DeviceList.ids (l : DeviceList) : List (BitVec 32) := l.devices.map Device.id

/-- The id the next device gets. -/
def Registry.nextId (r : Registry) : BitVec 32 := r.drives.count.setWidth 32

/-- Append a device to a list and count it. -/
def DeviceList.add (l : DeviceList) (d : Device) : DeviceList :=
  ⟨l.devices ++ [d], l.count + 1#64⟩

/-- Take out the first device with an id; the counter stays as it is. -/
def DeviceList.unlink (l : DeviceList) (id : BitVec 32) : DeviceList :=
  { l with devices := l.devices.eraseP fun d => d.id == id }

open DeviceList (add ids unlink)

/-- `g_drives.nDrives--`. -/
def Registry.countDown (r : Registry) : Registry :=
  { r with drives := { r.drives with count := r.drives.count - 1#64 } }

@[simp] theorem unlink_count (l : DeviceList) (id : BitVec 32) :
    (l.unlink id).count = l.count := rfl

@[simp] theorem countDown_inputDevices (r : Registry) :
    r.countDown.inputDevices = r.inputDevices := rfl

/-- `RegisterDrive`. -/
def registerDrive (r : Registry) (driver : DriverIdentity) : Registry :=
  { r with drives := r.drives.add ⟨r.nextId, driver⟩ }

/-- `UnregisterDrive`. -/
def unregisterDrive (r : Registry) (id : BitVec 32) : Registry :=
  if id ∈ r.drives.ids then { r with drives := r.drives.unlink id }.countDown else r

/-- `RegisterUserInputDevice`. -/
def registerUserInputDevice (r : Registry) (driver : DriverIdentity) : Registry :=
  { r with inputDevices := r.inputDevices.add ⟨r.nextId, driver⟩ }

/-- `UnregisterInputDevice`. -/
def unregisterInputDevice (r : Registry) (id : BitVec 32) : Registry :=
  if id ∈ r.inputDevices.ids then { r with inputDevices := r.inputDevices.unlink id }.countDown
  else r

/-- `RegisterDevice`, called by a thread of a driver or of none: the id returned, which is
`0xffffffff` for a thread that may not register such a device. -/
def registerDevice (r : Registry) (caller : Option DriverIdentity) (type : DeviceType) :
    Registry × BitVec 32 :=
  match caller with
  | none => (r, 0xffffffff)
  | some driver =>
    if driver.serviceType ∈ type.services then
      (match type with
        | .drive => registerDrive r driver
        | .userInput => registerUserInputDevice r driver, r.nextId)
    else (r, 0xffffffff)

/-- `UnregisterDevice`. -/
def unregisterDevice (r : Registry) (id : BitVec 32) (type : DeviceType) : Registry :=
  match type with
  | .drive => unregisterDrive r id
  | .userInput => unregisterInputDevice r id

/-! ## Runs -/

/-- The calls of drivers. -/
inductive Call where
  | register (caller : Option DriverIdentity) (type : DeviceType)
  | unregister (id : BitVec 32) (type : DeviceType)

/-- The registry after a call. -/
def Call.run (r : Registry) : Call → Registry
  | .register caller type => (registerDevice r caller type).1
  | .unregister id type => unregisterDevice r id type

/-- One call. -/
def Step (r : Registry) (call : Call) (r' : Registry) : Prop := r' = call.run r

/-- The registry at start. -/
def emptyRegistry : Registry := ⟨⟨[], 0⟩, ⟨[], 0⟩⟩

/-- A list whose ids are distinct, with the right counter. -/
structure DeviceList.Consistent (l : DeviceList) : Prop where
  distinct : l.ids.Nodup
  counted : l.count.toNat = l.devices.length

/-- What holds of the registered devices. -/
structure Registry.Consistent (r : Registry) : Prop where
  drives : r.drives.Consistent
  inputDevices : r.inputDevices.Consistent

/-- The list of a type. -/
def Registry.listOf (r : Registry) : DeviceType → DeviceList
  | .drive => r.drives
  | .userInput => r.inputDevices

/-- The condition on a call: a device that is registered does not get the id of one of its type,
and no input device is unregistered. -/
def Safe (r : Registry) : Call → Prop
  | .register caller type => ∀ driver ∈ caller, driver.serviceType ∈ type.services →
      r.nextId ∉ (r.listOf type).ids
  | .unregister id type => type = .userInput → id ∉ r.inputDevices.ids

section Lists

variable {l : DeviceList} {d : Device} {id : BitVec 32}

@[simp] theorem ids_add : (l.add d).ids = l.ids ++ [d.id] := by
  simp [ids, add]

theorem length_lt_of_nodup (h : l.ids.Nodup) : l.devices.length < 2 ^ 64 := by
  have hfin := h.map fun a b hab => BitVec.eq_of_toFin_eq hab
  have hle := hfin.length_le_card
  rw [ids, length_map, length_map, Fintype.card_fin] at hle
  omega

/-- A list stays consistent with a new device exactly if its id is new. -/
theorem consistent_add_iff (h : l.Consistent) : (l.add d).Consistent ↔ d.id ∉ l.ids := by
  constructor
  · intro hadd
    have hnodup := hadd.distinct
    rw [ids_add, nodup_append] at hnodup
    intro hmem
    exact hnodup.2.2 _ hmem _ (mem_singleton_self _) rfl
  · intro hnew
    have hnodup : (l.add d).ids.Nodup := by
      rw [ids_add]
      exact h.distinct.append (nodup_singleton _) (by simpa using hnew)
    have hlt := length_lt_of_nodup hnodup
    refine ⟨hnodup, ?_⟩
    simp only [add, length_append, length_singleton] at hlt ⊢
    rw [BitVec.toNat_add, BitVec.toNat_one (by decide), h.counted, Nat.mod_eq_of_lt hlt]

/-- Taking out a device leaves one less, and the ids of the others. -/
theorem unlink_spec (hmem : id ∈ l.ids) :
    (l.unlink id).devices.length + 1 = l.devices.length ∧ (l.unlink id).ids.Sublist l.ids := by
  obtain ⟨d, hd, rfl⟩ := mem_map.1 hmem
  have hlen := length_eraseP_of_mem (p := fun e : Device => e.id == d.id) hd (by simp)
  have hpos := length_pos_of_mem hd
  constructor
  · simp only [unlink, hlen]
    omega
  · exact eraseP_sublist.map _

end Lists

section Steps

variable {r r' : Registry}

/-- What a drive that is unregistered leaves. -/
theorem Registry.Consistent.unregisterDrive (h : r.Consistent) (id : BitVec 32) :
    (unregisterDrive r id).Consistent := by
  unfold DriverInterface.unregisterDrive
  split
  · rename_i hmem
    obtain ⟨hlen, hsub⟩ := unlink_spec hmem
    have hlt := length_lt_of_nodup h.drives.distinct
    refine ⟨⟨h.drives.distinct.sublist hsub, ?_⟩, h.inputDevices⟩
    have hcount := h.drives.counted
    simp only [Registry.countDown, unlink_count, BitVec.toNat_sub, BitVec.toNat_one (by decide :
      0 < 64)]
    change _ = (r.drives.unlink id).devices.length
    omega
  · exact h

/-- An input device that is unregistered is still counted. -/
theorem consistent_unregisterInputDevice_iff (h : r.Consistent) (id : BitVec 32) :
    (unregisterInputDevice r id).Consistent ↔ id ∉ r.inputDevices.ids := by
  unfold unregisterInputDevice
  split
  · rename_i hmem
    refine iff_of_false (fun hafter => ?_) (not_not.2 hmem)
    obtain ⟨hlen, -⟩ := unlink_spec hmem
    have hcount := hafter.inputDevices.counted
    simp only [countDown_inputDevices, unlink_count, h.inputDevices.counted] at hcount
    omega
  · rename_i hmem
    exact iff_of_true h hmem

/-- A call keeps the registry consistent exactly if it is safe. -/
theorem step_consistent_iff (h : r.Consistent) {call : Call} (hstep : Step r call r') :
    r'.Consistent ↔ Safe r call := by
  subst hstep
  cases call with
  | register caller type =>
    simp only [Call.run, registerDevice, Safe]
    cases caller with
    | none => exact iff_of_true h (by simp)
    | some driver =>
      simp only [mem_def, some.injEq, forall_eq']
      split
      · rename_i hservice
        simp only [hservice, forall_const]
        cases type with
        | drive =>
          rw [Registry.listOf, ← consistent_add_iff h.drives (d := ⟨r.nextId, driver⟩)]
          exact ⟨fun h' => h'.drives, fun h' => ⟨h', h.inputDevices⟩⟩
        | userInput =>
          rw [Registry.listOf, ← consistent_add_iff h.inputDevices (d := ⟨r.nextId, driver⟩)]
          exact ⟨fun h' => h'.inputDevices, fun h' => ⟨h.drives, h'⟩⟩
      · rename_i hservice
        exact iff_of_true h fun hs => absurd hs hservice
  | unregister id type =>
    cases type with
    | drive => exact iff_of_true (h.unregisterDrive id) nofun
    | userInput =>
      rw [Call.run, unregisterDevice, consistent_unregisterInputDevice_iff h]
      simp [Safe]

end Steps

/-- In every run of safe calls the ids of the drives are distinct, so are those of the input
devices, and both counters are right. -/
theorem registered_consistent {r : Registry} (hrun : Reaches Safe Step emptyRegistry r) :
    r.Consistent := by
  refine hrun.invariant Registry.Consistent ⟨⟨nodup_nil, rfl⟩, ⟨nodup_nil, rfl⟩⟩ ?_
  intro r call r' hr hsafe hstep
  exact (step_consistent_iff hr hstep).2 hsafe

/-- A driver of a keyboard. -/
def keyboardDriver : DriverIdentity := ⟨7, .userInputDevice⟩

/-- A driver of disks. -/
def diskDriver : DriverIdentity := ⟨3, .storageDevice⟩

/-- Two disks, the second of which goes away again, and a keyboard. -/
theorem registered_consistent_two_disks :
    ((Call.register (some keyboardDriver) .userInput).run
      ((Call.unregister 1 .drive).run
        ((Call.register (some diskDriver) .drive).run
          ((Call.register (some diskDriver) .drive).run emptyRegistry)))).Consistent := by
  refine registered_consistent ?_
  refine Relation.ReflTransGen.tail ?_ ⟨.register (some keyboardDriver) .userInput, ?_, rfl⟩
  · refine Relation.ReflTransGen.tail ?_ ⟨.unregister 1 .drive, nofun, rfl⟩
    refine Relation.ReflTransGen.tail ?_ ⟨.register (some diskDriver) .drive, ?_, rfl⟩
    · exact .single ⟨.register (some diskDriver) .drive, by simp [Safe, ids,
        Registry.listOf, emptyRegistry], rfl⟩
    · simp only [Safe, mem_def, some.injEq, forall_eq']
      decide
  · simp only [Safe, mem_def, some.injEq, forall_eq']
    decide

/-- Two keyboards that are registered while there is no drive have the same id. -/
theorem inputDevices_share_id :
    ¬((Call.register (some keyboardDriver) .userInput).run
      ((Call.register (some keyboardDriver) .userInput).run emptyRegistry)).Consistent := by
  intro h
  exact absurd h.inputDevices.distinct (by decide)

end Obos.DriverInterface
