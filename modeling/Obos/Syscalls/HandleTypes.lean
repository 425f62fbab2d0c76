import Obos.Syscalls.Handles

/-!
# Handles and their types

A system call is safe if it uses the object of its handle only as what the object was registered
as, and fails without using anything if the handle is unknown or of another type (`Safe`).

The calls that verify their handle first are safe. The calls on drives do not verify it at all,
`SyscallCallSignal` takes the object of a thread handle for the thread, and two calls leave in
another way before they have verified the handle. `syscall_safe_iff` says for which inputs each
call is safe.
-/

namespace Obos.Syscalls

open Lib Paging Option

/-- Every object used is that of the handle, and is used as what it was registered as. -/
def UsesAsRegistered (table : HandleTable) (hnd : Nat) (r : Option Outcome) : Prop :=
  ∀ o, r = some o → ∀ u ∈ o.uses, ∃ h, table hnd = some h ∧ u.object = h.object ∧
    u.cls = h.type.objectClass

/-- The call sets an error and uses no object. -/
def Refuses (r : Option Outcome) : Prop := ∃ o, r = some o ∧ o.uses = [] ∧ o.lastError ≠ none

/-- Objects are used as what they were registered as, and a handle that is unknown or of another
type is refused. -/
structure Safe (table : HandleTable) (hnd : Nat) (type : Option ProcessHandleType)
    (r : Option Outcome) : Prop where
  uses : UsesAsRegistered table hnd r
  refuses : processVerifyHandle table hnd type = false → Refuses r

/-- What a system call needs to be safe: handles of drives must be of the right type unless a check
of a pointer fails first, a signal must not be sent through a thread handle, the status of a
directory iterator must be asked for or the handle be right, and so must the handle for a parent
whose length is not asked for. -/
def Unexposed (env : Env) (table : HandleTable) (hnd args : Nat) : SystemCall → Prop
  | .readSectors .. | .writeSectors .. => env.canAccessUserMemory args 80 false = true →
      processVerifyHandle table hnd (some .driveHandle) = true
  | .driveGetId | .driveGetPartitionId | .driveIsPartitionHandle
  | .closeDriveHandle => env.canAccessUserMemory args 16 false = true →
      processVerifyHandle table hnd (some .driveHandle) = true
  | .driveQueryInfo nSectors bytesPerSector nPartitions =>
    env.canAccessUserMemory args 64 false = true →
    (∀ p ∈ [nSectors, bytesPerSector, nPartitions], p ≠ 0 →
      env.canAccessUserMemory p 8 true = true) →
    processVerifyHandle table hnd (some .driveHandle) = true
  | .driveQueryPartitionInfo nSectors lbaOffset filesystemName szFilesystemName =>
    env.canAccessUserMemory args 80 false = true →
    (∀ p ∈ [nSectors, lbaOffset, szFilesystemName], p ≠ 0 →
      env.canAccessUserMemory p 8 true = true) →
    (filesystemName ≠ 0 → szFilesystemName ≠ 0 →
      env.canAccessUserMemory filesystemName (env.load szFilesystemName) true = true) →
    processVerifyHandle table hnd (some .driveHandle) = true
  | .callSignal _ => env.canAccessUserMemory args 32 false = true →
      processVerifyHandle table hnd (some .threadHandle) = false
  | .directoryIteratorEnd status => env.canAccessUserMemory args 32 false = true → status = 0 →
      processVerifyHandle table hnd (some .directoryIteratorHandle) = true
  | .fileGetParent oPath oSzPath _ => env.canAccessUserMemory args 24 false = true →
      oSzPath = 0 → oPath ≠ 0 → processVerifyHandle table hnd (some .fileHandle) = true
  | _ => True

/-! ## The parts of a system call -/

section Parts

variable {env : Env} {table : HandleTable} {hnd : Nat} (type : ProcessHandleType)
  {expected : Option ProcessHandleType} {r rest : Option Outcome}

theorem exists_of_verify {type : ProcessHandleType}
    (h : processVerifyHandle table hnd (some type) = true) :
    ∃ h, table hnd = some h ∧ h.type = type := by
  unfold processVerifyHandle at h
  cases ht : table hnd with
  | none => simp [ht] at h
  | some handle => exact ⟨handle, rfl, by simpa [ht] using h⟩

theorem UsesAsRegistered.of_nil (h : ∀ o, r = some o → o.uses = []) :
    UsesAsRegistered table hnd r := by
  intro o ho u hu
  rw [h o ho] at hu
  cases hu

theorem usesAsRegistered_fail (error : SyscallError) (ret : Nat) :
    UsesAsRegistered table hnd (fail error ret) :=
  .of_nil fun o ho => by cases ho; rfl

theorem usesAsRegistered_finish (ret : Nat) : UsesAsRegistered table hnd (finish ret) :=
  .of_nil fun o ho => by cases ho; rfl

/-- Calling a method of the right class on the object of a verified handle. -/
theorem UsesAsRegistered.use (h : processVerifyHandle table hnd (some type) = true)
    {method : Method} {rest : Nat → Option Outcome}
    (hrest : ∀ v, UsesAsRegistered table hnd (rest v)) :
    UsesAsRegistered table hnd
      (env.use ⟨processGetHandleObject table hnd, type.objectClass, method⟩ rest) := by
  intro o ho u hu
  obtain ⟨o', ho', rfl⟩ := map_eq_some_iff.1 ho
  rcases List.mem_cons.1 hu with rfl | hu
  · obtain ⟨handle, ht, rfl⟩ := exists_of_verify h
    exact ⟨handle, ht, by simp [processGetHandleObject, ht], rfl⟩
  · exact hrest _ o' ho' u hu

@[inherit_doc UsesAsRegistered.use]
theorem UsesAsRegistered.callMethod (h : processVerifyHandle table hnd (some type) = true)
    (method : Method) :
    UsesAsRegistered table hnd (env.callMethod table hnd type.objectClass method) :=
  .use type h usesAsRegistered_finish

theorem safe_fail (error : SyscallError) (ret : Nat) : Safe table hnd expected (fail error ret) :=
  ⟨usesAsRegistered_fail error ret, fun _ => ⟨_, rfl, rfl, nofun⟩⟩

/-- A call that never refuses is safe exactly if the handle is right. -/
theorem safe_iff_verify {type : ProcessHandleType} (hr : ¬Refuses r)
    (h : processVerifyHandle table hnd (some type) = true → UsesAsRegistered table hnd r) :
    Safe table hnd (some type) r ↔ processVerifyHandle table hnd (some type) = true := by
  refine ⟨fun hsafe => ?_, fun hv => ⟨h hv, fun hf => absurd hv (by simp [hf])⟩⟩
  by_contra hv
  exact hr (hsafe.refuses (Bool.eq_false_iff.2 hv))

/-- A call that verifies its handle is safe if it uses the object rightly afterwards. -/
theorem safe_verified {type : ProcessHandleType} {failure : Nat}
    (h : processVerifyHandle table hnd (some type) = true → UsesAsRegistered table hnd rest) :
    Safe table hnd (some type) (verified table hnd type failure rest) := by
  unfold verified
  cases hv : processVerifyHandle table hnd (some type) with
  | false => exact safe_fail _ _
  | true => exact ⟨h hv, fun hf => by rw [hv] at hf; cases hf⟩

/-- A check of a pointer may fail first. -/
theorem safe_accessible_iff {address size failure : Nat} {hasToWrite : Bool} :
    Safe table hnd expected (env.accessible address size hasToWrite failure rest) ↔
      (env.canAccessUserMemory address size hasToWrite = true → Safe table hnd expected rest) := by
  unfold Env.accessible
  cases env.canAccessUserMemory address size hasToWrite with
  | false => exact iff_of_true (safe_fail _ _) nofun
  | true => exact ⟨fun h _ => h, fun h => h rfl⟩

theorem safe_accessible_congr {address size failure : Nat} {hasToWrite : Bool} {p : Prop}
    (h : Safe table hnd expected rest ↔ p) :
    Safe table hnd expected (env.accessible address size hasToWrite failure rest) ↔
      (env.canAccessUserMemory address size hasToWrite = true → p) :=
  safe_accessible_iff.trans (imp_congr_right fun _ => h)

theorem safe_accessible {address size failure : Nat} {hasToWrite : Bool}
    (h : Safe table hnd expected rest) :
    Safe table hnd expected (env.accessible address size hasToWrite failure rest) ↔ True :=
  iff_of_true (safe_accessible_iff.2 fun _ => h) trivial

@[inherit_doc safe_accessible_iff]
theorem safe_accessibleOut_iff {address size : Nat} :
    Safe table hnd expected (env.accessibleOut address size rest) ↔
      ((address ≠ 0 → env.canAccessUserMemory address size true = true) →
        Safe table hnd expected rest) := by
  unfold Env.accessibleOut
  cases hc : env.canAccessUserMemory address size true with
  | false =>
    by_cases hz : address = 0
    · simp [hz]
    · exact iff_of_true (by simpa [hz] using safe_fail _ _) fun h => absurd (h hz) nofun
  | true => simp

/-- A call that uses an object without a check is safe exactly if the handle is right. -/
theorem safe_use_iff {method : Method} {rest : Nat → Option Outcome}
    (hrest : processVerifyHandle table hnd (some type) = true →
      ∀ v, UsesAsRegistered table hnd (rest v)) :
    Safe table hnd (some type)
      (env.use ⟨processGetHandleObject table hnd, type.objectClass, method⟩ rest) ↔
      processVerifyHandle table hnd (some type) = true := by
  refine safe_iff_verify ?_ fun hv => .use type hv (hrest hv)
  rintro ⟨o, ho, hnil, -⟩
  obtain ⟨o', -, rfl⟩ := map_eq_some_iff.1 ho
  cases hnil

@[inherit_doc safe_use_iff]
theorem safe_callMethod_iff (method : Method) :
    Safe table hnd (some type) (env.callMethod table hnd type.objectClass method) ↔
      processVerifyHandle table hnd (some type) = true :=
  safe_use_iff type fun _ => usesAsRegistered_finish

theorem safe_handleMethod (failure : Nat) (method : Method) :
    Safe table hnd (some type) (env.handleMethod table hnd type failure method) :=
  safe_verified fun hv => .callMethod type hv method

/-- A check uses nothing. -/
theorem UsesAsRegistered.refuse (h : UsesAsRegistered table hnd rest) {c : Prop} [Decidable c]
    (error : SyscallError) (ret : Nat) :
    UsesAsRegistered table hnd (if c then fail error ret else rest) := by
  split
  · exact usesAsRegistered_fail _ _
  · exact h

/-- A check of a pointer uses nothing. -/
theorem UsesAsRegistered.accessible (h : UsesAsRegistered table hnd rest)
    (address size failure : Nat) (hasToWrite : Bool) :
    UsesAsRegistered table hnd (env.accessible address size hasToWrite failure rest) := by
  unfold Env.accessible
  split
  · exact h
  · exact usesAsRegistered_fail _ _

@[inherit_doc UsesAsRegistered.accessible]
theorem UsesAsRegistered.accessibleOut (h : UsesAsRegistered table hnd rest) (address size : Nat) :
    UsesAsRegistered table hnd (env.accessibleOut address size rest) :=
  h.refuse _ _

/-- Two parts of a call that use objects as registered do so together. -/
theorem UsesAsRegistered.andThen (h : UsesAsRegistered table hnd r)
    (hrest : UsesAsRegistered table hnd rest) :
    UsesAsRegistered table hnd (Syscalls.andThen r rest) := by
  intro o ho u hu
  obtain ⟨a, ha, hmap⟩ := bind_eq_some_iff.1 ho
  obtain ⟨b, hb, rfl⟩ := map_eq_some_iff.1 hmap
  rcases List.mem_append.1 hu with hu | hu
  · exact h a ha u hu
  · exact hrest b hb u hu

/-- A call that goes on after it has refused still refuses if it uses nothing. -/
theorem Refuses.andThen (h : Refuses r) (hrest : ∃ o, rest = some o ∧ o.uses = []) :
    Refuses (Syscalls.andThen r rest) := by
  obtain ⟨a, rfl, hnil, herror⟩ := h
  obtain ⟨b, rfl, hnil'⟩ := hrest
  refine ⟨_, rfl, by simp [hnil, hnil'], ?_⟩
  obtain ⟨e, he⟩ := ne_none_iff_exists'.1 herror
  cases hb : b.lastError <;> simp [hb, he]

end Parts

/-! ## Single system calls -/

section Calls

variable {env : Env} {table : HandleTable} {hnd : Nat}

/-- A signal is sent to the object of a thread handle as if it were the thread. -/
theorem safe_syscallCallSignal_iff (sig : Nat) :
    Safe table hnd (some .threadHandle) (syscallCallSignal env table hnd sig) ↔
      processVerifyHandle table hnd (some .threadHandle) = false := by
  unfold syscallCallSignal verified
  cases hv : processVerifyHandle table hnd (some .threadHandle) with
  | false => exact iff_of_true (safe_fail _ _) rfl
  | true =>
    refine iff_of_false (fun h => ?_) nofun
    obtain ⟨handle, ht, htype⟩ := exists_of_verify hv
    obtain ⟨handle', ht', -, hclass⟩ := h.uses _ rfl _ (List.mem_cons_self ..)
    cases ht.symm.trans ht'
    rw [htype] at hclass
    cases hclass

/-- The sectors are reached through the object, whatever it is. -/
theorem safe_sectorsCall_iff (buff nSectors : Nat) (hasToWrite : Bool) (method : Method) :
    Safe table hnd (some .driveHandle)
      (sectorsCall env table hnd buff nSectors hasToWrite method) ↔
      processVerifyHandle table hnd (some .driveHandle) = true := by
  unfold sectorsCall
  refine safe_use_iff .driveHandle fun hv success => ?_
  split
  · exact usesAsRegistered_finish _
  · exact (UsesAsRegistered.use .driveHandle hv usesAsRegistered_finish).accessible _ _ _ _

/-- A call that does not return is safe only because of its handle. -/
theorem safe_none_iff {type : ProcessHandleType} :
    Safe table hnd (some type) none ↔ processVerifyHandle table hnd (some type) = true :=
  safe_iff_verify nofun fun _ => nofun

theorem safe_syscallDriveQueryPartitionInfo_iff
    (nSectors lbaOffset filesystemName szFilesystemName : Nat) :
    Safe table hnd (some .driveHandle) (syscallDriveQueryPartitionInfo env table hnd nSectors
      lbaOffset filesystemName szFilesystemName) ↔
      ((∀ p ∈ [nSectors, lbaOffset, szFilesystemName], p ≠ 0 →
        env.canAccessUserMemory p 8 true = true) →
      (filesystemName ≠ 0 → szFilesystemName ≠ 0 →
        env.canAccessUserMemory filesystemName (env.load szFilesystemName) true = true) →
      processVerifyHandle table hnd (some .driveHandle) = true) := by
  have hlast : Safe table hnd (some .driveHandle)
      (if filesystemName ≠ 0 ∧ szFilesystemName = 0 then none
      else env.accessibleOut filesystemName (env.load szFilesystemName) <|
        env.callMethod table hnd .driveHandle
          (.queryPartitionInfo nSectors lbaOffset (filesystemName ≠ 0))) ↔
      ((filesystemName ≠ 0 → szFilesystemName ≠ 0 →
        env.canAccessUserMemory filesystemName (env.load szFilesystemName) true = true) →
      processVerifyHandle table hnd (some .driveHandle) = true) := by
    split
    · rename_i hnull
      rw [safe_none_iff]
      exact ⟨fun h _ => h, fun h => h fun _ hne => absurd hnull.2 hne⟩
    · rename_i hnull
      rw [safe_accessibleOut_iff]
      refine (imp_congr_right fun _ => safe_callMethod_iff .driveHandle _).trans ?_
      exact ⟨fun h hacc => h fun hne => hacc hne fun hz => hnull ⟨hne, hz⟩,
        fun h hacc => h fun hne _ => hacc hne⟩
  unfold syscallDriveQueryPartitionInfo
  rw [safe_accessibleOut_iff, safe_accessibleOut_iff, safe_accessibleOut_iff, hlast]
  simp only [List.forall_mem_cons, List.not_mem_nil, false_imp_iff, implies_true, and_true, and_imp]

/-- The status of an iterator is written before the call fails. -/
theorem safe_syscallDirectoryIteratorEnd_iff (status : Nat) :
    Safe table hnd (some .directoryIteratorHandle)
      (syscallDirectoryIteratorEnd env table hnd status) ↔
      (status = 0 → processVerifyHandle table hnd (some .directoryIteratorHandle) = true) := by
  unfold syscallDirectoryIteratorEnd
  rw [safe_accessibleOut_iff]
  cases hv : processVerifyHandle table hnd (some .directoryIteratorHandle) with
  | true =>
    refine iff_of_true (fun _ => ?_) fun _ => rfl
    exact (safe_callMethod_iff .directoryIteratorHandle .atEnd).2 hv
  | false =>
    by_cases hz : status = 0
    · simp [hz, safe_none_iff, hv]
    · simp only [hz, false_imp_iff, iff_true]
      exact fun _ => safe_fail _ _

/-- The parent is looked up twice, unless there is nowhere to put it. -/
theorem safe_fileGetParent_iff (oPath oSzPath buffer : Nat) :
    Safe table hnd (some .fileHandle) (fileGetParent env table hnd oPath oSzPath buffer) ↔
      (oSzPath = 0 → oPath ≠ 0 → processVerifyHandle table hnd (some .fileHandle) = true) := by
  unfold fileGetParent
  split
  · rename_i hnowhere
    rw [forall_prop_of_true hnowhere.1, forall_prop_of_true hnowhere.2]
    refine safe_iff_verify ?_ fun _ => usesAsRegistered_finish _
    rintro ⟨o, ho, -, herror⟩
    cases ho
    exact herror rfl
  · rename_i hsomewhere
    refine iff_of_true (safe_accessibleOut_iff.2 fun _ => ⟨?_, fun hv => ?_⟩) fun hz hne =>
      absurd ⟨hz, hne⟩ hsomewhere
    · have hparent (path : Nat) (size : Bool) :
          UsesAsRegistered table hnd (syscallFileGetParent env table hnd path size) :=
        (safe_handleMethod .fileHandle 0 _).uses
      refine (hparent 0 true).andThen ?_
      split
      · exact usesAsRegistered_finish _
      · exact (hparent buffer false).andThen ((usesAsRegistered_finish _).accessible _ _ _ _)
    · have hparent (path : Nat) (size : Bool) :
          syscallFileGetParent env table hnd path size = fail .invalidParameter 0 := by
        simp [syscallFileGetParent, Env.handleMethod, verified, hv]
      have hrefuses : Refuses (fail .invalidParameter 0) := ⟨_, rfl, rfl, nofun⟩
      have haccess (szPath : Nat) : ∃ o, andThen (fail .invalidParameter 0)
          (env.accessible oPath szPath true 0 (finish 0)) = some o ∧ o.uses = [] := by
        unfold Env.accessible
        split
        · exact ⟨_, rfl, rfl⟩
        · exact ⟨_, rfl, rfl⟩
      rw [hparent, hparent]
      refine hrefuses.andThen ?_
      split
      · exact ⟨_, rfl, rfl⟩
      · exact haccess _

/-- The handle is taken out of the table after the object was deleted as what it is. -/
theorem safe_syscallInvalidateHandle :
    Safe table hnd none (syscallInvalidateHandle env table hnd) := by
  unfold syscallInvalidateHandle processGetHandleType
  cases ht : table hnd with
  | none => exact safe_fail _ _
  | some handle =>
    refine ⟨fun o ho u hu => ?_, fun hf => by simp [processVerifyHandle, ht] at hf⟩
    cases ho
    cases List.mem_singleton.1 hu
    exact ⟨handle, ht, by simp [processGetHandleObject, ht], rfl⟩

/-- The checks before the path is written use nothing. -/
theorem safe_pathCall {path size : Nat} {rest : Option Outcome}
    (h : processVerifyHandle table hnd (some .directoryIteratorHandle) = true →
      UsesAsRegistered table hnd rest) :
    Safe table hnd (some .directoryIteratorHandle) (pathCall env table hnd path size rest) := by
  refine safe_verified fun hv => ?_
  split
  · exact usesAsRegistered_finish _
  · exact (((h hv).accessibleOut _ _).accessibleOut _ _).refuse _ _

end Calls

/-- A system call is safe exactly if it is not one of those that use an object they have not
verified, or leave before they have verified it. -/
theorem syscall_safe_iff (env : Env) (table : HandleTable) (hnd args : Nat) (call : SystemCall) :
    Safe table hnd call.handleType (syscall env table hnd args call) ↔
      Unexposed env table hnd args call := by
  cases call with
  | openThread | pauseThread | resumeThread | setThreadPriority | terminateThread
  | getThreadStatus | getThreadExitCode | getThreadLastError | getThreadTID | threadCloseHandle
  | fileEof | fileGetPos | fileGetFlags | fileGetFileSize | fileSeekTo | fileClose
  | directoryIteratorClose =>
    exact safe_accessible (safe_handleMethod _ _ _)
  | fileOpen | fileRead =>
    exact safe_accessible (safe_accessible_iff.2 fun _ => safe_handleMethod _ _ _)
  | createThread =>
    exact safe_accessible (safe_verified fun hv => .refuse (.callMethod .threadHandle hv _) _ _)
  | fileGetParent =>
    exact safe_accessible_congr (safe_fileGetParent_iff _ _ _)
  | invalidateHandle =>
    exact safe_accessible safe_syscallInvalidateHandle
  | virtualAlloc =>
    exact safe_accessible (safe_verified fun hv =>
      .refuse (.refuse (.callMethod .vallocatorHandle hv _) _ _) _ _)
  | virtualFree | virtualProtect | virtualMemcpy =>
    exact safe_accessible (safe_verified fun hv =>
      .refuse (.callMethod .vallocatorHandle hv _) _ _)
  | virtualGetProtection =>
    refine safe_accessible (safe_verified fun hv => .accessible (.refuse ?_ _ _) _ _ _ _)
    split
    · exact usesAsRegistered_finish _
    · exact .callMethod .vallocatorHandle hv _
  | openDrive =>
    exact safe_accessible (safe_verified fun hv =>
      (UsesAsRegistered.callMethod .driveHandle hv _).accessible _ _ _ _)
  | readSectors | writeSectors =>
    exact safe_accessible_congr (safe_sectorsCall_iff _ _ _ _)
  | driveGetId | driveGetPartitionId | driveIsPartitionHandle | closeDriveHandle =>
    exact safe_accessible_congr (safe_callMethod_iff .driveHandle _)
  | driveQueryInfo =>
    refine safe_accessible_congr ?_
    refine safe_accessibleOut_iff.trans ((imp_congr_right fun _ => safe_accessibleOut_iff.trans
      (imp_congr_right fun _ => safe_accessibleOut_iff.trans
        (imp_congr_right fun _ => safe_callMethod_iff .driveHandle _))).trans ?_)
    simp only [List.forall_mem_cons, List.not_mem_nil, false_imp_iff, implies_true, and_true,
      and_imp]
  | driveQueryPartitionInfo =>
    exact safe_accessible_congr (safe_syscallDriveQueryPartitionInfo_iff _ _ _ _)
  | callSignal =>
    exact safe_accessible_congr (safe_syscallCallSignal_iff _)
  | directoryIteratorNext | directoryIteratorPrevious =>
    exact safe_accessible (safe_verified fun hv =>
      .use .directoryIteratorHandle hv fun _ => usesAsRegistered_finish _)
  | directoryIteratorGet =>
    exact safe_accessible (safe_pathCall fun hv =>
      .use .directoryIteratorHandle hv fun _ => usesAsRegistered_finish _)
  | directoryIteratorGetParent =>
    exact safe_accessible (safe_pathCall fun hv =>
      .use .directoryIteratorHandle hv fun _ => (usesAsRegistered_finish _).refuse _ _)
  | directoryIteratorEnd =>
    exact safe_accessible_congr (safe_syscallDirectoryIteratorEnd_iff _)
  | directoryIteratorOpen =>
    exact safe_accessible (safe_verified fun hv =>
      (UsesAsRegistered.callMethod .directoryIteratorHandle hv _).accessible _ _ _ _)

/-- All memory is accessible, and every method returns 1. -/
def openEnv : Env := ⟨fun _ _ _ => true, fun _ => 0, 1, fun _ => 1, fun _ => 512, fun _ => 0⟩

/-- A table with a file handle and a thread handle. -/
def twoHandles : HandleTable := fun hnd =>
  if hnd = 0 then some ⟨0x1000, .fileHandle⟩
  else if hnd = 1 then some ⟨0x2000, .threadHandle⟩
  else none

/-- A file handle is given to `SyscallReadSectors`, which uses the file as a drive, and a thread
handle to `SyscallCallSignal`, which uses it as a thread. -/
theorem syscalls_confuse_objects :
    ¬ Safe twoHandles 0 (some .driveHandle)
      (syscall openEnv twoHandles 0 0x5000 (.readSectors 0x6000 0 1)) ∧
    ¬ Safe twoHandles 1 (some .threadHandle)
      (syscall openEnv twoHandles 1 0x5000 (.callSignal 0)) := by
  constructor <;> intro h <;>
    obtain ⟨handle, ht, -, hclass⟩ := h.uses _ rfl _ (List.mem_cons_self ..) <;>
    cases ht <;> cases hclass

end Obos.Syscalls
