import Obos.Paging.PageMap

/-!
# System calls on handles

A process names the kernel's objects by handles. Its handle table has the address of the object
and the type it was registered with for each of them. A system call reads its parameters from the
caller's memory, verifies the handle, fetches the object and calls a method on it.

The objects are not part of the model: a call that reaches one is recorded as a `Use`, with the
class the system call takes the object for, and `Env` says what comes back. The rest of a system
call (its checks, their order, the values and errors it returns) is as in the source.
-/

namespace Obos.Syscalls

open Lib Paging

/-! ## Handle tables -/

/-- `ProcessHandleType`, without `INVALID`, which no handle is registered with. -/
inductive ProcessHandleType where
  | fileHandle
  | driveHandle
  | threadHandle
  | vallocatorHandle
  | directoryIteratorHandle
  deriving DecidableEq

/-- The classes of the objects system calls work on. -/
inductive ObjectClass where
  | fileHandle
  | driveHandle
  | threadHandle
  | virtualAllocator
  | directoryIterator
  | thread
  deriving DecidableEq

/-- The class of the objects that are registered with a type. -/
def ProcessHandleType.objectClass : ProcessHandleType → ObjectClass
  | .fileHandle => .fileHandle
  | .driveHandle => .driveHandle
  | .threadHandle => .threadHandle
  | .vallocatorHandle => .virtualAllocator
  | .directoryIteratorHandle => .directoryIterator

/-- An entry of the handle table. -/
structure Handle where
  object : Nat
  type : ProcessHandleType

/-- `handleTable`. -/
abbrev HandleTable := Nat → Option Handle

/-- `ProcessVerifyHandle`, with `none` for `INVALID`. -/
def processVerifyHandle (table : HandleTable) (handle : Nat) (type : Option ProcessHandleType) :
    Bool :=
  match table handle, type with
  | none, _ => false
  | some _, none => true
  | some h, some type => h.type = type

/-- `ProcessGetHandleObject`, with 0 for a null pointer. -/
def processGetHandleObject (table : HandleTable) (handle : Nat) : Nat :=
  match table handle with
  | none => 0
  | some h => h.object

/-- `ProcessGetHandleType`. -/
def processGetHandleType (table : HandleTable) (handle : Nat) : Option ProcessHandleType :=
  (table handle).map Handle.type

/-! ## What a system call does -/

/-- The methods that are called on objects, with their arguments. -/
inductive Method where
  | openFile (path options : Nat)
  | read (data nToRead : Nat) (peek : Bool)
  | eof
  | getPos
  | getFlags
  | getFileSize
  | getParent (path : Nat) (size : Bool)
  | seekTo (count place : Nat)
  | closeFile
  | openDrive (path options : Nat)
  | queryInfo (nSectors bytesPerSector nPartitions : Nat)
  | readSectors (buff lbaOffset nSectors : Nat)
  | writeSectors (buff lbaOffset nSectors : Nat)
  | getDriveId
  | getPartitionId
  | queryPartitionInfo (nSectors lbaOffset : Nat) (filesystemName : Bool)
  | isPartitionHandle
  | closeDrive
  | openThread (tid : Nat)
  | createThread (priority stackSize entry userdata affinity process : Nat) (startPaused : Bool)
  | pauseThread
  | resumeThread
  | setThreadPriority (priority : Nat)
  | terminateThread (exitCode : Nat)
  | getThreadStatus
  | getThreadExitCode
  | getThreadLastError
  | getThreadTID
  | closeThread
  | virtualAlloc (base size : Nat) (flags : BitVec 64)
  | virtualFree (base size : Nat)
  | virtualProtect (base size : Nat) (flags : BitVec 64)
  | virtualGetProtection (base size : Nat)
  | memcpy (remoteDest localSrc size : Nat)
  | openAt (path : Nat)
  | next
  | previous
  | get
  | atEnd
  | closeIterator
  | getDirectoryNode
  | callSignal (sig : Nat)
  | delete

/-- A method is called on an object. -/
structure Use where
  object : Nat
  cls : ObjectClass
  method : Method

/-- What is around a system call: `canAccessUserMemory`, the caller's memory, the default affinity
of threads, and what methods return and write through pointers to locals. -/
structure Env where
  canAccessUserMemory : Nat → Nat → Bool → Bool
  load : Nat → Nat
  defaultAffinity : Nat
  returns : Use → Nat
  bytesPerSector : Use → Nat
  szPath : Use → Nat

/-- The errors system calls set themselves. -/
inductive SyscallError where
  | invalidParameter
  | accessDenied
  | noSuchObject
  deriving DecidableEq

/-- What a system call returns, the error it sets last, the objects it has used, and whether it has
taken its handle out of the table. -/
structure Outcome where
  ret : Nat
  lastError : Option SyscallError
  uses : List Use
  released : Bool

/-- Set an error and return. -/
def fail (error : SyscallError) (ret : Nat) : Option Outcome := some ⟨ret, some error, [], false⟩

/-- Return. -/
def finish (ret : Nat) : Option Outcome := some ⟨ret, none, [], false⟩

/-- Call a method and go on with what it returns. -/
def Env.use (env : Env) (u : Use) (rest : Nat → Option Outcome) : Option Outcome :=
  (rest (env.returns u)).map fun o => { o with uses := u :: o.uses }

/-- One part of a system call after another. -/
def andThen (first second : Option Outcome) : Option Outcome :=
  first.bind fun a => second.map fun b =>
    ⟨b.ret, b.lastError <|> a.lastError, a.uses ++ b.uses, a.released || b.released⟩

/-- `if (!ProcessVerifyHandle(nullptr, hnd, type))` with the return value of the failure. -/
def verified (table : HandleTable) (hnd : Nat) (type : ProcessHandleType) (failure : Nat)
    (rest : Option Outcome) : Option Outcome :=
  if processVerifyHandle table hnd (some type) then rest else fail .invalidParameter failure

/-- `if (!canAccessUserMemory(...))` with the return value of the failure. -/
def Env.accessible (env : Env) (address size : Nat) (hasToWrite : Bool) (failure : Nat)
    (rest : Option Outcome) : Option Outcome :=
  if env.canAccessUserMemory address size hasToWrite then rest
  else fail .invalidParameter failure

/-- `if (address && !canAccessUserMemory(...))` for a pointer the call writes through. -/
def Env.accessibleOut (env : Env) (address size : Nat) (rest : Option Outcome) : Option Outcome :=
  if address ≠ 0 && !env.canAccessUserMemory address size true then fail .invalidParameter 0
  else rest

/-- Call a method on the object of a handle and return what it returns. -/
def Env.callMethod (env : Env) (table : HandleTable) (hnd : Nat) (cls : ObjectClass)
    (method : Method) : Option Outcome :=
  env.use ⟨processGetHandleObject table hnd, cls, method⟩ finish

/-- The system calls that verify a handle and call a method. -/
def Env.handleMethod (env : Env) (table : HandleTable) (hnd : Nat) (type : ProcessHandleType)
    (failure : Nat) (method : Method) : Option Outcome :=
  verified table hnd type failure (env.callMethod table hnd type.objectClass method)

/-- `UINTPTR_MAX`. -/
def uintptrMax : Nat := 2 ^ 64 - 1

/-- The end of the half of the address space that system calls accept addresses from. -/
def userLimit : Nat := 0xffff800000000000

variable (env : Env) (table : HandleTable) (hnd : Nat)

/-! ## Files -/

/-- `SyscallFileOpen`. -/
def syscallFileOpen (path options : Nat) : Option Outcome :=
  env.handleMethod table hnd .fileHandle 0 (.openFile path options)

/-- `SyscallFileRead`. -/
def syscallFileRead (data nToRead : Nat) (peek : Bool) : Option Outcome :=
  env.handleMethod table hnd .fileHandle 0 (.read data nToRead peek)

/-- `SyscallFileEof`. -/
def syscallFileEof : Option Outcome := env.handleMethod table hnd .fileHandle 1 .eof

/-- `SyscallFileGetPos`. -/
def syscallFileGetPos : Option Outcome := env.handleMethod table hnd .fileHandle 1 .getPos

/-- `SyscallFileGetFlags`. -/
def syscallFileGetFlags : Option Outcome := env.handleMethod table hnd .fileHandle 1 .getFlags

/-- `SyscallFileGetFileSize`. -/
def syscallFileGetFileSize : Option Outcome := env.handleMethod table hnd .fileHandle 1 .getFileSize

/-- `SyscallFileGetParent`. -/
def syscallFileGetParent (path : Nat) (sizePath : Bool) : Option Outcome :=
  env.handleMethod table hnd .fileHandle 0 (.getParent path sizePath)

/-- `SyscallFileSeekTo`. -/
def syscallFileSeekTo (count place : Nat) : Option Outcome :=
  env.handleMethod table hnd .fileHandle uintptrMax (.seekTo count place)

/-- `SyscallFileClose`. -/
def syscallFileClose : Option Outcome := env.handleMethod table hnd .fileHandle 0 .closeFile

/-- System call 20: the path of the parent is fetched twice, for its length and for its text, which
goes to a buffer of the kernel. -/
def fileGetParent (oPath oSzPath buffer : Nat) : Option Outcome :=
  if oSzPath = 0 ∧ oPath ≠ 0 then finish 0
  else env.accessibleOut oSzPath 8 <|
    let query : Use := ⟨processGetHandleObject table hnd, .fileHandle, .getParent 0 true⟩
    let szPath := if processVerifyHandle table hnd (some .fileHandle) then env.szPath query else 0
    andThen (syscallFileGetParent env table hnd 0 true) <|
      if oPath = 0 then finish 0
      else andThen (syscallFileGetParent env table hnd buffer false) <|
        env.accessible oPath szPath true 0 (finish 0)

/-! ## Drives -/

/-- `SyscallOpenDrive`. The loop over the rest of the path is not entered. -/
def syscallOpenDrive (path options : Nat) : Option Outcome :=
  env.accessible path 4096 false 0 <|
    env.callMethod table hnd .driveHandle (.openDrive path options)

/-- The way to the sectors of `SyscallReadSectors` and `SyscallWriteSectors`. -/
def sectorsCall (buff nSectors : Nat) (hasToWrite : Bool) (method : Method) : Option Outcome :=
  let handle := processGetHandleObject table hnd
  let query : Use := ⟨handle, .driveHandle, .queryInfo 0 1 0⟩
  env.use query fun success =>
    if success = 0 then finish 0
    else env.accessible buff (env.bytesPerSector query * nSectors % 2 ^ 64) hasToWrite 0 <|
      env.use ⟨handle, .driveHandle, method⟩ finish

/-- `SyscallReadSectors`. -/
def syscallReadSectors (buff lbaOffset nSectors : Nat) : Option Outcome :=
  sectorsCall env table hnd buff nSectors true (.readSectors buff lbaOffset nSectors)

/-- `SyscallWriteSectors`. -/
def syscallWriteSectors (buff lbaOffset nSectors : Nat) : Option Outcome :=
  sectorsCall env table hnd buff nSectors false (.writeSectors buff lbaOffset nSectors)

/-- `SyscallDriveGetId`. -/
def syscallDriveGetId : Option Outcome := env.callMethod table hnd .driveHandle .getDriveId

/-- `SyscallDriveGetPartitionId`. -/
def syscallDriveGetPartitionId : Option Outcome :=
  env.callMethod table hnd .driveHandle .getPartitionId

/-- `SyscallDriveQueryInfo`. -/
def syscallDriveQueryInfo (nSectors bytesPerSector nPartitions : Nat) : Option Outcome :=
  env.accessibleOut nSectors 8 <| env.accessibleOut bytesPerSector 8 <|
    env.accessibleOut nPartitions 8 <|
      env.callMethod table hnd .driveHandle (.queryInfo nSectors bytesPerSector nPartitions)

/-- `SyscallDriveQueryPartitionInfo`. The length of the buffer for the name is read through a
pointer that may be null, which is a fault. -/
def syscallDriveQueryPartitionInfo (nSectors lbaOffset filesystemName szFilesystemName : Nat) :
    Option Outcome :=
  env.accessibleOut nSectors 8 <| env.accessibleOut lbaOffset 8 <|
    env.accessibleOut szFilesystemName 8 <|
      if filesystemName ≠ 0 ∧ szFilesystemName = 0 then none
      else env.accessibleOut filesystemName (env.load szFilesystemName) <|
        env.callMethod table hnd .driveHandle
          (.queryPartitionInfo nSectors lbaOffset (filesystemName ≠ 0))

/-- `SyscallDriveIsPartitionHandle`. -/
def syscallDriveIsPartitionHandle : Option Outcome :=
  env.callMethod table hnd .driveHandle .isPartitionHandle

/-- `SyscallCloseDriveHandle`. -/
def syscallCloseDriveHandle : Option Outcome := env.callMethod table hnd .driveHandle .closeDrive

/-! ## Threads -/

/-- `SyscallOpenThread`. -/
def syscallOpenThread (tid : Nat) : Option Outcome :=
  env.handleMethod table hnd .threadHandle 0 (.openThread tid)

/-- `SyscallCreateThread`. -/
def syscallCreateThread (priority stackSize entry userdata affinity process : Nat)
    (startPaused : Bool) : Option Outcome :=
  verified table hnd .threadHandle 0 <|
    if userLimit < entry then fail .accessDenied 0
    else env.callMethod table hnd .threadHandle (.createThread priority stackSize entry userdata
      (if affinity = 0 then env.defaultAffinity else affinity) process startPaused)

/-- `SyscallPauseThread`. -/
def syscallPauseThread : Option Outcome := env.handleMethod table hnd .threadHandle 0 .pauseThread

/-- `SyscallResumeThread`. -/
def syscallResumeThread : Option Outcome := env.handleMethod table hnd .threadHandle 0 .resumeThread

/-- `SyscallSetThreadPriority`. -/
def syscallSetThreadPriority (priority : Nat) : Option Outcome :=
  env.handleMethod table hnd .threadHandle 0 (.setThreadPriority priority)

/-- `SyscallTerminateThread`. -/
def syscallTerminateThread (exitCode : Nat) : Option Outcome :=
  env.handleMethod table hnd .threadHandle 0 (.terminateThread exitCode)

/-- `SyscallGetThreadStatus`. -/
def syscallGetThreadStatus : Option Outcome :=
  env.handleMethod table hnd .threadHandle 0 .getThreadStatus

/-- `SyscallGetThreadExitCode`. -/
def syscallGetThreadExitCode : Option Outcome :=
  env.handleMethod table hnd .threadHandle 0 .getThreadExitCode

/-- `SyscallGetThreadLastError`. -/
def syscallGetThreadLastError : Option Outcome :=
  env.handleMethod table hnd .threadHandle 0 .getThreadLastError

/-- `SyscallGetThreadTID`. -/
def syscallGetThreadTID : Option Outcome := env.handleMethod table hnd .threadHandle 0 .getThreadTID

/-- `SyscallThreadCloseHandle`. -/
def syscallThreadCloseHandle : Option Outcome :=
  env.handleMethod table hnd .threadHandle 0 .closeThread

/-- `SyscallCallSignal`. The object is taken for the thread itself. -/
def syscallCallSignal (sig : Nat) : Option Outcome :=
  verified table hnd .threadHandle 0 (env.callMethod table hnd .thread (.callSignal sig))

/-! ## Virtual memory -/

/-- `SyscallVirtualAlloc`. -/
def syscallVirtualAlloc (base size : Nat) (flags : BitVec 64) : Option Outcome :=
  verified table hnd .vallocatorHandle 0 <|
    if userLimit < base then fail .accessDenied 0
    else if 0x400000 < size ∧ hasBit (flags &&& protAllBitsSet) 3 = true then fail .accessDenied 0
    else env.callMethod table hnd .virtualAllocator
      (.virtualAlloc base size (flags &&& protAllBitsSet ||| protUserModeAccess))

/-- `SyscallVirtualFree`. -/
def syscallVirtualFree (base size : Nat) : Option Outcome :=
  verified table hnd .vallocatorHandle 0 <|
    if userLimit < base then fail .accessDenied 0
    else env.callMethod table hnd .virtualAllocator (.virtualFree base size)

/-- `SyscallVirtualProtect`. -/
def syscallVirtualProtect (base size : Nat) (flags : BitVec 64) : Option Outcome :=
  verified table hnd .vallocatorHandle 0 <|
    if userLimit < base then fail .accessDenied 0
    else env.callMethod table hnd .virtualAllocator
      (.virtualProtect base size (flags ||| protUserModeAccess))

/-- `SyscallVirtualGetProtection`. -/
def syscallVirtualGetProtection (base size flags : Nat) : Option Outcome :=
  verified table hnd .vallocatorHandle 0 <|
    env.accessible flags (sizeToPages size * 8 % 2 ^ 64) true 0 <|
      if userLimit < base then fail .accessDenied 0
      else if flags = 0 then finish 1
      else env.callMethod table hnd .virtualAllocator (.virtualGetProtection base size)

/-- `SyscallVirtualMemcpy`. -/
def syscallVirtualMemcpy (remoteDest localSrc size : Nat) : Option Outcome :=
  verified table hnd .vallocatorHandle 0 <|
    if userLimit < remoteDest ∨ userLimit < localSrc then fail .accessDenied 0
    else env.callMethod table hnd .virtualAllocator (.memcpy remoteDest localSrc size)

/-! ## Directory iterators -/

/-- `SyscallDirectoryIteratorOpen`. The loop over the rest of the path is not entered. -/
def syscallDirectoryIteratorOpen (path : Nat) : Option Outcome :=
  verified table hnd .directoryIteratorHandle 0 <|
    env.accessible path 4096 false 0 <|
      env.callMethod table hnd .directoryIterator (.openAt path)

/-- Move a directory iterator. -/
def moveIterator (method : Method) : Option Outcome :=
  verified table hnd .directoryIteratorHandle 0 <|
    env.use ⟨processGetHandleObject table hnd, .directoryIterator, method⟩ fun _ => finish 1

/-- `SyscallDirectoryIteratorNext`. -/
def syscallDirectoryIteratorNext : Option Outcome := moveIterator env table hnd .next

/-- `SyscallDirectoryIteratorPrevious`. -/
def syscallDirectoryIteratorPrevious : Option Outcome := moveIterator env table hnd .previous

/-- The way to the path of `SyscallDirectoryIteratorGet` and `SyscallDirectoryIteratorGetParent`. -/
def pathCall (path size : Nat) (rest : Option Outcome) : Option Outcome :=
  verified table hnd .directoryIteratorHandle 0 <|
    if path = 0 ∧ size = 0 then finish 1
    else if path ≠ 0 ∧ size = 0 then fail .invalidParameter 0
    else env.accessibleOut size 8 <| env.accessibleOut path (env.load size) rest

/-- `SyscallDirectoryIteratorGet`. -/
def syscallDirectoryIteratorGet (path size : Nat) : Option Outcome :=
  pathCall env table hnd path size <|
    env.use ⟨processGetHandleObject table hnd, .directoryIterator, .get⟩ fun _ => finish 1

/-- `SyscallDirectoryIteratorGetParent`. -/
def syscallDirectoryIteratorGetParent (path size : Nat) : Option Outcome :=
  pathCall env table hnd path size <|
    env.use ⟨processGetHandleObject table hnd, .directoryIterator, .getDirectoryNode⟩ fun res =>
      if res = 0 then fail .noSuchObject 0 else finish 1

/-- `SyscallDirectoryIteratorEnd`. The status is written through a null pointer, which is a fault,
if there is none and the handle is wrong. -/
def syscallDirectoryIteratorEnd (status : Nat) : Option Outcome :=
  env.accessibleOut status 1 <|
    if !processVerifyHandle table hnd (some .directoryIteratorHandle) then
      if status = 0 then none else fail .invalidParameter 0
    else env.callMethod table hnd .directoryIterator .atEnd

/-- `SyscallDirectoryIteratorClose`. -/
def syscallDirectoryIteratorClose : Option Outcome :=
  env.handleMethod table hnd .directoryIteratorHandle 0 .closeIterator

/-! ## Handles -/

/-- `SyscallInvalidateHandle`: the object is deleted as what it was registered as. -/
def syscallInvalidateHandle : Option Outcome :=
  match processGetHandleType table hnd with
  | none => fail .invalidParameter 0
  | some type =>
    (env.use ⟨processGetHandleObject table hnd, type.objectClass, .delete⟩ fun _ => finish 1).map
      fun o => { o with released := true }

/-! ## Dispatch -/

/-- The system calls that take a handle, with the other parameters the caller has left in memory. -/
inductive SystemCall where
  | openThread (tid : Nat)
  | createThread (priority stackSize entry userdata affinity process : Nat) (startPaused : Bool)
  | pauseThread
  | resumeThread
  | setThreadPriority (priority : Nat)
  | terminateThread (exitCode : Nat)
  | getThreadStatus
  | getThreadExitCode
  | getThreadLastError
  | getThreadTID
  | threadCloseHandle
  | fileOpen (path options : Nat)
  | fileRead (data nToRead : Nat) (peek : Bool)
  | fileEof
  | fileGetPos
  | fileGetFlags
  | fileGetFileSize
  | fileGetParent (oPath oSzPath buffer : Nat)
  | fileSeekTo (count place : Nat)
  | fileClose
  | invalidateHandle
  | virtualAlloc (base size : Nat) (flags : BitVec 64)
  | virtualFree (base size : Nat)
  | virtualProtect (base size : Nat) (flags : BitVec 64)
  | virtualGetProtection (base size flags : Nat)
  | virtualMemcpy (remoteDest localSrc size : Nat)
  | openDrive (path options : Nat)
  | readSectors (buff lbaOffset nSectors : Nat)
  | writeSectors (buff lbaOffset nSectors : Nat)
  | driveGetId
  | driveGetPartitionId
  | driveQueryInfo (nSectors bytesPerSector nPartitions : Nat)
  | driveQueryPartitionInfo (nSectors lbaOffset filesystemName szFilesystemName : Nat)
  | driveIsPartitionHandle
  | closeDriveHandle
  | callSignal (sig : Nat)
  | directoryIteratorNext
  | directoryIteratorPrevious
  | directoryIteratorGet (path size : Nat)
  | directoryIteratorEnd (status : Nat)
  | directoryIteratorOpen (path : Nat)
  | directoryIteratorClose
  | directoryIteratorGetParent (path size : Nat)

/-- The system call with its parameters at `args`: the checks of `ThreadSyscallHandler`,
`FileHandleSyscallHandler`, `VMMSyscallHandler`, `DriveSyscallHandler`, `SignalsSyscallHandler` and
`DirectorySyscallHandler`, with the sizes of the parameter blocks. -/
def syscall (args : Nat) : SystemCall → Option Outcome
  | .openThread tid => env.accessible args 32 false 0 <| syscallOpenThread env table hnd tid
  | .createThread priority stackSize entry userdata affinity process startPaused =>
    env.accessible args 128 false 0 <|
      syscallCreateThread env table hnd priority stackSize entry userdata affinity process
        startPaused
  | .pauseThread => env.accessible args 16 false 0 <| syscallPauseThread env table hnd
  | .resumeThread => env.accessible args 16 false 0 <| syscallResumeThread env table hnd
  | .setThreadPriority priority =>
    env.accessible args 32 false 0 <| syscallSetThreadPriority env table hnd priority
  | .terminateThread exitCode =>
    env.accessible args 32 false 0 <| syscallTerminateThread env table hnd exitCode
  | .getThreadStatus =>
    env.accessible args 16 false 0xffffffff <| syscallGetThreadStatus env table hnd
  | .getThreadExitCode =>
    env.accessible args 16 false 0xffffffff <| syscallGetThreadExitCode env table hnd
  | .getThreadLastError =>
    env.accessible args 16 false 0xffffffff <| syscallGetThreadLastError env table hnd
  | .getThreadTID => env.accessible args 16 false 0xffffffff <| syscallGetThreadTID env table hnd
  | .threadCloseHandle => env.accessible args 16 false 0 <| syscallThreadCloseHandle env table hnd
  | .fileOpen path options =>
    -- the loop over the rest of the path is not entered
    env.accessible args 48 false 0 <| env.accessible path 4096 false 0 <|
      syscallFileOpen env table hnd path options
  | .fileRead data nToRead peek =>
    env.accessible args 64 false 0 <| env.accessible data nToRead true 0 <|
      syscallFileRead env table hnd data nToRead peek
  | .fileEof => env.accessible args 8 false 1 <| syscallFileEof env table hnd
  | .fileGetPos => env.accessible args 8 false uintptrMax <| syscallFileGetPos env table hnd
  | .fileGetFlags => env.accessible args 8 false 0xffffffff <| syscallFileGetFlags env table hnd
  | .fileGetFileSize =>
    env.accessible args 8 false uintptrMax <| syscallFileGetFileSize env table hnd
  | .fileGetParent oPath oSzPath buffer =>
    env.accessible args 24 false 0 <| fileGetParent env table hnd oPath oSzPath buffer
  | .fileSeekTo count place =>
    env.accessible args 48 false 0 <| syscallFileSeekTo env table hnd count place
  | .fileClose => env.accessible args 8 false 0 <| syscallFileClose env table hnd
  | .invalidateHandle => env.accessible args 8 false 0 <| syscallInvalidateHandle env table hnd
  | .virtualAlloc base size flags =>
    env.accessible args 64 false uintptrMax <| syscallVirtualAlloc env table hnd base size flags
  | .virtualFree base size =>
    env.accessible args 48 false uintptrMax <| syscallVirtualFree env table hnd base size
  | .virtualProtect base size flags =>
    env.accessible args 64 false uintptrMax <| syscallVirtualProtect env table hnd base size flags
  | .virtualGetProtection base size flags =>
    env.accessible args 64 false uintptrMax <|
      syscallVirtualGetProtection env table hnd base size flags
  | .virtualMemcpy remoteDest localSrc size =>
    env.accessible args 64 false uintptrMax <|
      syscallVirtualMemcpy env table hnd remoteDest localSrc size
  | .openDrive path options =>
    env.accessible args 48 false 0 <| verified table hnd .driveHandle 0 <|
      syscallOpenDrive env table hnd path options
  | .readSectors buff lbaOffset nSectors =>
    env.accessible args 80 false 0 <| syscallReadSectors env table hnd buff lbaOffset nSectors
  | .writeSectors buff lbaOffset nSectors =>
    env.accessible args 80 false 0 <| syscallWriteSectors env table hnd buff lbaOffset nSectors
  | .driveGetId => env.accessible args 16 false 0xffffffff <| syscallDriveGetId env table hnd
  | .driveGetPartitionId =>
    env.accessible args 16 false 0xffffffff <| syscallDriveGetPartitionId env table hnd
  | .driveQueryInfo nSectors bytesPerSector nPartitions =>
    env.accessible args 64 false 0 <|
      syscallDriveQueryInfo env table hnd nSectors bytesPerSector nPartitions
  | .driveQueryPartitionInfo nSectors lbaOffset filesystemName szFilesystemName =>
    env.accessible args 80 false 0 <|
      syscallDriveQueryPartitionInfo env table hnd nSectors lbaOffset filesystemName
        szFilesystemName
  | .driveIsPartitionHandle =>
    env.accessible args 16 false 0xffffffff <| syscallDriveIsPartitionHandle env table hnd
  | .closeDriveHandle =>
    env.accessible args 16 false 0xffffffff <| syscallCloseDriveHandle env table hnd
  | .callSignal sig => env.accessible args 32 false 0 <| syscallCallSignal env table hnd sig
  | .directoryIteratorNext =>
    env.accessible args 16 false 0 <| syscallDirectoryIteratorNext env table hnd
  | .directoryIteratorPrevious =>
    env.accessible args 16 false 0 <| syscallDirectoryIteratorPrevious env table hnd
  | .directoryIteratorGet path size =>
    env.accessible args 48 false 0 <| syscallDirectoryIteratorGet env table hnd path size
  | .directoryIteratorEnd status =>
    env.accessible args 32 false 0 <| syscallDirectoryIteratorEnd env table hnd status
  | .directoryIteratorOpen path =>
    env.accessible args 32 false 0 <| syscallDirectoryIteratorOpen env table hnd path
  | .directoryIteratorClose =>
    env.accessible args 16 false 0 <| syscallDirectoryIteratorClose env table hnd
  | .directoryIteratorGetParent path size =>
    env.accessible args 48 false 0 <| syscallDirectoryIteratorGetParent env table hnd path size

/-- The type of the handles a system call is for. `SyscallInvalidateHandle` takes any handle. -/
def SystemCall.handleType : SystemCall → Option ProcessHandleType
  | .openThread .. | .createThread .. | .pauseThread .. | .resumeThread .. | .setThreadPriority ..
  | .terminateThread .. | .getThreadStatus .. | .getThreadExitCode .. | .getThreadLastError ..
  | .getThreadTID .. | .threadCloseHandle .. | .callSignal .. => some .threadHandle
  | .fileOpen .. | .fileRead .. | .fileEof .. | .fileGetPos .. | .fileGetFlags ..
  | .fileGetFileSize .. | .fileGetParent .. | .fileSeekTo .. | .fileClose .. => some .fileHandle
  | .invalidateHandle .. => none
  | .virtualAlloc .. | .virtualFree .. | .virtualProtect .. | .virtualGetProtection ..
  | .virtualMemcpy .. => some .vallocatorHandle
  | .openDrive .. | .readSectors .. | .writeSectors .. | .driveGetId .. | .driveGetPartitionId ..
  | .driveQueryInfo .. | .driveQueryPartitionInfo .. | .driveIsPartitionHandle ..
  | .closeDriveHandle .. => some .driveHandle
  | .directoryIteratorNext .. | .directoryIteratorPrevious .. | .directoryIteratorGet ..
  | .directoryIteratorEnd .. | .directoryIteratorOpen .. | .directoryIteratorClose ..
  | .directoryIteratorGetParent .. => some .directoryIteratorHandle

end Obos.Syscalls
