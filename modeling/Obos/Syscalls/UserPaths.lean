import Obos.Paging.Memcpy
import Obos.Syscalls.Handles

/-!
# Paths from and to user programs

The system calls that open files, drives and directory iterators get a path from their caller, of
which they check one page: the loop over the rest of the path compares a length of zero with what
is left of the page and is never entered (`checkPath_eq`). `opens_readable_iff` says when they pass
on a path that the caller may not read.

The system calls that give out a path copy as many bytes as their caller asks for, whatever the
length of the path is: `paths_determined_iff` says when nothing else of the kernel's memory is
copied.
-/

namespace Obos.Syscalls

open Lib Paging Option

/-! ## The check of a path -/

/-- The loop that counts the characters of a path up to the end of its page. -/
def countToPageEnd (byte : Nat → BitVec 8) (path : Nat) : Nat :=
  ((List.range (4096 - path % 4096)).takeWhile fun i => byte (path + i) ≠ 0).length

/-- The loop over the pages of a path, from a length on. -/
def pathLoop (check : Nat → Bool) (byte : Nat → BitVec 8) (path : Nat) : Nat → Nat → Option Bool
  | 0, _ => none
  | fuel + 1, szPath =>
    if 4096 - path % 4096 ≤ szPath then
      let szPath := countToPageEnd byte path
      if check (path + szPath) then pathLoop check byte path fuel szPath else some false
    else some true

/-- The check of a path, for a check of one page. -/
def checkPath (check : Nat → Bool) (byte : Nat → BitVec 8) (path fuel : Nat) : Option Bool :=
  if check path then pathLoop check byte path fuel 0 else some false

theorem checkPath_eq (check : Nat → Bool) (byte : Nat → BitVec 8) (path fuel : Nat) :
    checkPath check byte path (fuel + 1) = some (check path) := by
  have hleft : ¬ 4096 - path % 4096 ≤ 0 := by omega
  rw [checkPath, pathLoop, if_neg hleft]
  cases check path with
  | true => rfl
  | false => rfl

theorem accessible_eq_checkPath (env : Env) (byte : Nat → BitVec 8) (path fuel : Nat)
    (rest : Option Outcome) :
    env.accessible path 4096 false 0 rest =
      (checkPath (fun a => env.canAccessUserMemory a 4096 false) byte path (fuel + 1)).bind
        fun ok => if ok then rest else fail .invalidParameter 0 := by
  rw [checkPath_eq]
  rfl

/-! ## Opening -/

/-- The system calls that open something at a path. -/
inductive OpenCall where
  | file (options : Nat)
  | drive (options : Nat)
  | directoryIterator

namespace OpenCall

/-- The system call with its path. -/
def systemCall (path : Nat) : OpenCall → SystemCall
  | .file options => .fileOpen path options
  | .drive options => .openDrive path options
  | .directoryIterator => .directoryIteratorOpen path

/-- The size of its parameters. -/
def argsSize : OpenCall → Nat
  | .file _ | .drive _ => 48
  | .directoryIterator => 32

/-- The type its handle has to have. -/
def handleType : OpenCall → ProcessHandleType
  | .file _ => .fileHandle
  | .drive _ => .driveHandle
  | .directoryIterator => .directoryIteratorHandle

/-- The method it calls with the path. -/
def method (path : Nat) : OpenCall → Method
  | .file options => .openFile path options
  | .drive options => .openDrive path options
  | .directoryIterator => .openAt path

end OpenCall

/-- The environment in which the check of user pointers is made on a page map, with a heap that
always has a buffer for the flags. -/
def Env.under (env : Env) (c : Cpu) (m : Memory) (proc : Process) : Env :=
  { env with canAccessUserMemory := fun addr size hasToWrite =>
      Syscalls.canAccessUserMemory c m proc (fun _ => true) addr size hasToWrite = some true }

/-- The checks of an open call before that of its path. -/
def OpenCall.admitted (call : OpenCall) (env : Env) (table : HandleTable) (hnd args : Nat) : Bool :=
  env.canAccessUserMemory args call.argsSize false &&
    processVerifyHandle table hnd (some call.handleType)

/-- An open call makes its checks and passes the path on. -/
theorem syscall_open_eq (env : Env) (table : HandleTable) (hnd args path : Nat) (call : OpenCall) :
    syscall env table hnd args (call.systemCall path) =
      if call.admitted env table hnd args && env.canAccessUserMemory path 4096 false then
        env.callMethod table hnd call.handleType.objectClass (call.method path)
      else fail .invalidParameter 0 := by
  cases hpath : env.canAccessUserMemory path 4096 false <;>
    cases hargs : env.canAccessUserMemory args call.argsSize false <;>
    cases hhandle : processVerifyHandle table hnd (some call.handleType) <;>
    cases call <;>
    simp_all [syscall, OpenCall.systemCall, OpenCall.admitted, OpenCall.argsSize,
      OpenCall.handleType, OpenCall.method, Env.accessible, verified, syscallFileOpen,
      Env.handleMethod, syscallOpenDrive, syscallDirectoryIteratorOpen,
      ProcessHandleType.objectClass]

/-! ## Strings that may be read -/

section Opening

variable (c : Cpu) (m : Memory) (proc : Process)

/-- There is a zero at or behind the address, and all bytes up to it are on pages that the process
may read. -/
def StringReadable (address : Nat) : Prop :=
  ∃ n, byteAt c m proc.cr3 (address + n) = .ok 0 ∧ ∀ i ≤ n, Accessible c m proc false (address + i)

/-- What the check of one page overlooks: a huge page that is not for user programs, or a string
that goes on behind the page and may not be read there. -/
inductive PathOverlooked (path : Nat) : Prop where
  | hugePage (l : Leaf) (hl : leafAt c m proc.cr3 path = some l) (hhuge : l.huge = true)
      (huser : proc.isUsermode = true) (h : l.userAccessible = false)
  | nextPage (hend : ∀ b, path ≤ b → b < pageOf path + 4096 → byteAt c m proc.cr3 b ≠ .ok 0)
      (hnot : ¬ StringReadable c m proc (pageOf path + 4096))

variable {c m proc} {kmalloc : Nat → Bool} {path : Nat}

/-- A path of which something is overlooked may not be read. -/
theorem PathOverlooked.not_readable (h : PathOverlooked c m proc path) :
    ¬ StringReadable c m proc path := by
  rintro ⟨n, hzero, hall⟩
  cases h with
  | hugePage l hl hhuge huser h =>
    obtain ⟨_, _, l', hl', haccess, _⟩ := hall 0 (by omega)
    cases hl.symm.trans hl'
    rw [haccess huser] at h
    exact Bool.false_ne_true h.symm
  | nextPage hend hnot =>
    have hbehind : pageOf path + 4096 ≤ path + n := by
      by_contra hlt
      exact hend (path + n) (by omega) (by omega) hzero
    have hle : path ≤ pageOf path + 4096 := by
      unfold pageOf
      omega
    refine hnot ⟨path + n - (pageOf path + 4096), ?_, fun i hi => ?_⟩
    · rwa [show pageOf path + 4096 + (path + n - (pageOf path + 4096)) = path + n by omega]
    · have haccess := hall (pageOf path + 4096 - path + i) (by omega)
      rwa [show path + (pageOf path + 4096 - path + i) = pageOf path + 4096 + i by omega]
        at haccess

/-- A path that passes the check, and of which nothing is overlooked, may be read. -/
theorem Passes.readable (hpath : path < 2 ^ 64) (h : Passes c m proc kmalloc path 4096 false)
    (hno : ¬ PathOverlooked c m proc path) : StringReadable c m proc path := by
  have hcount : pagesToCheck 4096 = 1 := by decide
  have hpage : checkedPage path 0 = pageOf path := by
    unfold checkedPage pageOf
    omega
  have hfirst : Accessible c m proc false path := by
    have hlt : pageOf path < 2 ^ 64 := lt_of_le_of_lt (Nat.div_mul_le_self path 4096) hpath
    obtain ⟨l, hl, huser⟩ := @leafAt_of_pageProtection c m proc.cr3 (pageOf path)
      (Nat.mul_mod_left _ _) hlt (hpage ▸ h.present 0 (by omega))
    rw [leafAt_pageOf] at hl
    refine ⟨hpath, h.valid, l, hl, fun hmode => ?_, fun hwrite => by cases hwrite⟩
    cases hhuge : l.huge with
    | false => exact huser hhuge (hpage ▸ h.user hmode 0 (by omega))
    | true =>
      by_contra hnot
      exact hno (.hugePage l hl hhuge hmode (Bool.eq_false_iff.2 hnot))
  have hsame : ∀ i, path + i < pageOf path + 4096 → Accessible c m proc false (path + i) := by
    intro i hi
    refine (accessible_congr ?_).1 hfirst
    unfold pageOf at hi ⊢
    omega
  by_cases hend : ∀ b, path ≤ b → b < pageOf path + 4096 → byteAt c m proc.cr3 b ≠ .ok 0
  · obtain ⟨n, hzero, hall⟩ : StringReadable c m proc (pageOf path + 4096) := by
      by_contra hnot
      exact hno (.nextPage hend hnot)
    have hle : path ≤ pageOf path + 4096 := by
      unfold pageOf
      omega
    refine ⟨pageOf path + 4096 - path + n, ?_, fun i hi => ?_⟩
    · rwa [show path + (pageOf path + 4096 - path + n) = pageOf path + 4096 + n by omega]
    · by_cases hi' : path + i < pageOf path + 4096
      · exact hsame i hi'
      · have haccess := hall (path + i - (pageOf path + 4096)) (by omega)
        rwa [show pageOf path + 4096 + (path + i - (pageOf path + 4096)) = path + i by omega]
          at haccess
  · push Not at hend
    obtain ⟨b, hle, hlt, hzero⟩ := hend
    refine ⟨b - path, ?_, fun i hi => hsame i (by omega)⟩
    rwa [show path + (b - path) = b by omega]

/-- An open call fails for every path that its caller may not read, if and only if it does not come
to the check of the path, the path does not pass it, or nothing of it is overlooked. -/
theorem opens_readable_iff (env : Env) (table : HandleTable) (hnd args : Nat) (call : OpenCall)
    (hpath : path < 2 ^ 64) :
    (¬ StringReadable c m proc path →
      syscall (env.under c m proc) table hnd args (call.systemCall path) =
        fail .invalidParameter 0) ↔
      ¬ (call.admitted (env.under c m proc) table hnd args = true ∧
        Passes c m proc (fun _ => true) path 4096 false ∧ PathOverlooked c m proc path) := by
  have hcheck : (env.under c m proc).canAccessUserMemory path 4096 false = true ↔
      Passes c m proc (fun _ => true) path 4096 false := by
    rw [← canAccessUserMemory_iff]
    exact decide_eq_true_iff
  rw [syscall_open_eq]
  constructor
  · rintro hfails ⟨hadmitted, hpasses, hover⟩
    have hfail := hfails hover.not_readable
    rw [hadmitted, hcheck.2 hpasses] at hfail
    cases congrArg (Option.map Outcome.uses) hfail
  · intro hcond hnot
    refine if_neg fun hboth => ?_
    rw [Bool.and_eq_true, hcheck] at hboth
    exact hcond ⟨hboth.1, hboth.2, by_contra fun hno => hnot (hboth.2.readable hpath hno)⟩

/-- A process whose page has an `A` as its last byte. -/
def lastByte : Memory := Function.update onePageMapped 0x9fff 65

/-- A file handle. -/
def oneFile : HandleTable := fun hnd => if hnd = 1 then some ⟨0x7000, .fileHandle⟩ else none

/-- The environment of that process. -/
def lastByteEnv : Env :=
  Env.under ⟨fun _ _ _ => false, fun _ => 0, 0, fun _ => 0, fun _ => 0, fun _ => 0⟩ smallCpu
    lastByte ⟨0x1000, true⟩

theorem opens_readable_iff_page : 0x5000 < 2 ^ 64 ∧
    ((¬ StringReadable smallCpu lastByte ⟨0x1000, true⟩ 0x5000 →
      syscall lastByteEnv oneFile 1 0x5000 ((OpenCall.file 0).systemCall 0x5000) =
        fail .invalidParameter 0) ↔
      ¬ ((OpenCall.file 0).admitted lastByteEnv oneFile 1 0x5000 = true ∧
        Passes smallCpu lastByte ⟨0x1000, true⟩ (fun _ => true) 0x5000 4096 false ∧
        PathOverlooked smallCpu lastByte ⟨0x1000, true⟩ 0x5000)) :=
  ⟨by omega, opens_readable_iff _ oneFile 1 0x5000 (.file 0) (by omega)⟩

/-- A path in the last byte of the page is passed on, though it goes on where nothing is mapped. -/
theorem opens_unreadable : ¬ StringReadable smallCpu lastByte ⟨0x1000, true⟩ 0x5fff ∧
    syscall lastByteEnv oneFile 1 0x5000 ((OpenCall.file 0).systemCall 0x5fff) ≠
      fail .invalidParameter 0 := by
  have hargs : canAccessUserMemory smallCpu lastByte ⟨0x1000, true⟩ (fun _ => true) 0x5000 48
      false = some true := by decide +kernel
  have hpath : canAccessUserMemory smallCpu lastByte ⟨0x1000, true⟩ (fun _ => true) 0x5fff 4096
      false = some true := by decide +kernel
  have hunmapped : leafAt smallCpu lastByte 0x1000 0x6000 = none := by decide +kernel
  constructor
  · refine PathOverlooked.not_readable (.nextPage (fun b hle hlt => ?_) ?_)
    · obtain rfl : b = 0x5fff := by
        rw [show pageOf 0x5fff = 0x5000 by decide] at hlt
        omega
      exact fun heq => absurd (Except.ok.inj heq) (by decide)
    · rintro ⟨n, _, hall⟩
      obtain ⟨_, _, l, hl, _⟩ := hall 0 (by omega)
      cases hunmapped.symm.trans hl
  · rw [syscall_open_eq, if_pos]
    · intro hfail
      cases congrArg (Option.map Outcome.uses) hfail
    · rw [Bool.and_eq_true, OpenCall.admitted, Bool.and_eq_true]
      exact ⟨⟨decide_eq_true hargs, rfl⟩, decide_eq_true hpath⟩

end Opening

/-! ## Giving out paths -/

/-- The kernel's memory, with nothing where reading is a fault, and the address of the next array of
characters that is allocated. -/
structure KernelState where
  memory : Nat → Option (BitVec 8)
  heap : Nat

/-- `utils::memcpy` to the buffer of the caller: the bytes that it gets. -/
def copiedOut (memory : Nat → Option (BitVec 8)) (res size : Nat) : Option (List (BitVec 8)) :=
  (List.range size).mapM fun i => memory (res + i)

/-- The memory after a text has been written, with its terminator. -/
def withText (memory : Nat → Option (BitVec 8)) (address : Nat) (text : List (BitVec 8)) (a : Nat) :
    Option (BitVec 8) :=
  if address ≤ a ∧ a < address + (text.length + 1) then some ((text ++ [0]).getD (a - address) 0)
  else memory a

/-- `DirectoryIterator::operator*`: the memory and the pointer, for the path of the current node. -/
def iteratorGet (k : KernelState) : Option (List (BitVec 8)) → (Nat → Option (BitVec 8)) × Nat
  | none => (k.memory, 0)
  | some text => (withText k.memory k.heap text, k.heap)

section Giving

variable (env : Env) (table : HandleTable) (hnd path size : Nat)

/-- The checks of `SyscallDirectoryIteratorGet` and `SyscallDirectoryIteratorGetParent`. -/
def reachesPath : Bool :=
  processVerifyHandle table hnd (some .directoryIteratorHandle) && !(path = 0 && size = 0) &&
    !(path ≠ 0 && size = 0) && !(size ≠ 0 && !env.canAccessUserMemory size 8 true) &&
    !(path ≠ 0 && !env.canAccessUserMemory path (env.load size) true)

/-- The calls go on to the path if and only if the checks pass; otherwise they use no object. -/
theorem pathCall_eq (rest : Option Outcome) :
    (reachesPath env table hnd path size = true → pathCall env table hnd path size rest = rest) ∧
    (reachesPath env table hnd path size = false →
      ∃ o, pathCall env table hnd path size rest = some o ∧ o.uses = []) := by
  simp only [reachesPath, pathCall, verified, Env.accessibleOut]
  cases processVerifyHandle table hnd (some .directoryIteratorHandle) with
  | false => simp [fail]
  | true =>
    by_cases hpath : path = 0 <;> by_cases hsize : size = 0 <;>
      cases env.canAccessUserMemory size 8 true <;>
      cases env.canAccessUserMemory path (env.load size) true <;>
      simp [hpath, hsize, fail, finish]

/-- The calls copy a path. -/
def copies : Bool := reachesPath env table hnd path size && path ≠ 0

/-- The bytes `SyscallDirectoryIteratorGet` writes to the buffer, for the path of the current
node. -/
def getWrites (k : KernelState) (current : Option (List (BitVec 8))) : Option (List (BitVec 8)) :=
  if copies env table hnd path size then
    copiedOut (iteratorGet k current).1 (iteratorGet k current).2 (env.load size)
  else some []

/-- The bytes `SyscallDirectoryIteratorGetParent` writes to the buffer, for a pointer to the path of
the parent. -/
def getParentWrites (k : KernelState) (parent : Option Nat) : Option (List (BitVec 8)) :=
  match parent with
  | none => some []
  | some res =>
    if copies env table hnd path size then copiedOut k.memory res (env.load size) else some []

/-- What `SyscallDirectoryIteratorGet` writes depends on the path only. -/
def GetDetermined (current : Option (List (BitVec 8))) : Prop :=
  ∀ k k', getWrites env table hnd path size k current = getWrites env table hnd path size k' current

/-- The text with its terminator is at the address. -/
def HoldsText (memory : Nat → Option (BitVec 8)) (text : List (BitVec 8)) (address : Nat) : Prop :=
  ∀ i < text.length + 1, memory (address + i) = some ((text ++ [0]).getD i 0)

/-- What `SyscallDirectoryIteratorGetParent` writes depends on the path only. -/
def GetParentDetermined (text : Option (List (BitVec 8))) : Prop :=
  ∀ k k' parent parent', Option.Rel (HoldsText k.memory) text parent →
    Option.Rel (HoldsText k'.memory) text parent' →
    getParentWrites env table hnd path size k parent =
      getParentWrites env table hnd path size k' parent'

end Giving

/-! ## What is copied -/

section Copied

variable {memory : Nat → Option (BitVec 8)} {res size : Nat} {text : List (BitVec 8)}

/-- A copy of bytes that can be read. -/
theorem copiedOut_eq {f : Nat → BitVec 8} (h : ∀ i < size, memory (res + i) = some (f i)) :
    copiedOut memory res size = some ((List.range size).map f) := by
  induction size with
  | zero => rfl
  | succ size ih =>
    have hinit := ih fun i hi => h i (by omega)
    rw [copiedOut] at hinit ⊢
    rw [List.range_succ, List.mapM_append, hinit]
    simp [h size (by omega)]

theorem withText_inside {address i : Nat} (hi : i < text.length + 1) :
    withText memory address text (address + i) = some ((text ++ [0]).getD i 0) := by
  rw [withText, if_pos (by omega), Nat.add_sub_cancel_left]

theorem HoldsText.copiedOut (h : HoldsText memory text res) (hle : size ≤ text.length + 1) :
    copiedOut memory res size = some ((List.range size).map fun i => (text ++ [0]).getD i 0) :=
  copiedOut_eq fun i hi => h i (by omega)

/-- A longer copy gives what is behind the text. -/
theorem copiedOut_withText_ne {address : Nat} (hlt : text.length + 1 < size) :
    copiedOut (withText (fun _ => some 0) address text) address size ≠
      copiedOut (withText (fun _ => some 1) address text) address size := by
  have hbytes : ∀ b : BitVec 8, copiedOut (withText (fun _ => some b) address text) address size =
      some ((List.range size).map fun i =>
        if i < text.length + 1 then (text ++ [0]).getD i 0 else b) := by
    intro b
    refine copiedOut_eq fun i _ => ?_
    by_cases hi : i < text.length + 1
    · rw [withText_inside hi, if_pos hi]
    · rw [withText, if_neg (by omega), if_neg hi]
  rw [hbytes, hbytes]
  intro heq
  have hbyte := congrArg (fun l : List (BitVec 8) => l[text.length + 1]?) (some.inj heq)
  simp [hlt] at hbyte

end Copied

section Determined

variable {env : Env} {table : HandleTable} {hnd path size : Nat} {text : Option (List (BitVec 8))}

/-- When a copy made by `SyscallDirectoryIteratorGet` is determined by the path. -/
theorem getDetermined_iff (hcopies : copies env table hnd path size = true) :
    GetDetermined env table hnd path size text ↔
      (env.load size ≠ 0 → ∃ t ∈ text, env.load size ≤ t.length + 1) := by
  have hwrites : ∀ k, getWrites env table hnd path size k text =
      copiedOut (iteratorGet k text).1 (iteratorGet k text).2 (env.load size) := fun k => by
    rw [getWrites, hcopies, if_pos rfl]
  simp only [GetDetermined, hwrites]
  constructor
  · intro hsame hne
    cases text with
    | none =>
      have hbytes := hsame ⟨fun _ => some 0, 0⟩ ⟨fun _ => some 1, 0⟩
      rw [copiedOut_eq fun _ _ => rfl, copiedOut_eq fun _ _ => rfl] at hbytes
      have hbyte := congrArg (fun l : List (BitVec 8) => l[0]?) (some.inj hbytes)
      simp [Nat.pos_of_ne_zero hne] at hbyte
    | some t =>
      refine ⟨t, rfl, Nat.not_lt.1 fun hlt => ?_⟩
      exact copiedOut_withText_ne hlt (hsame ⟨fun _ => some 0, 0⟩ ⟨fun _ => some 1, 0⟩)
  · intro hcond k k'
    by_cases hzero : env.load size = 0
    · rw [hzero]
      rfl
    · obtain ⟨t, rfl, hle⟩ := hcond hzero
      have htext : ∀ k : KernelState, HoldsText (withText k.memory k.heap t) t k.heap :=
        fun k i hi => withText_inside hi
      exact ((htext k).copiedOut hle).trans ((htext k').copiedOut hle).symm

/-- When a copy made by `SyscallDirectoryIteratorGetParent` is determined by the path. -/
theorem getParentDetermined_iff (hcopies : copies env table hnd path size = true) :
    GetParentDetermined env table hnd path size text ↔
      ∀ t ∈ text, env.load size ≤ t.length + 1 := by
  constructor
  · intro hsame t ht
    obtain rfl : text = some t := ht
    refine Nat.not_lt.1 fun hlt => @copiedOut_withText_ne _ t 0 hlt ?_
    have htext : ∀ b : BitVec 8, HoldsText (withText (fun _ => some b) 0 t) t 0 :=
      fun b i hi => withText_inside hi
    have hbytes := hsame ⟨withText (fun _ => some 0) 0 t, 0⟩ ⟨withText (fun _ => some 1) 0 t, 0⟩
      (some 0) (some 0) (.some (htext 0)) (.some (htext 1))
    simpa only [getParentWrites, hcopies, if_true] using hbytes
  · intro hcond k k' parent parent' hparent hparent'
    cases hparent with
    | none =>
      cases hparent'
      rfl
    | some htext =>
      cases hparent' with
      | some htext' =>
        simp only [getParentWrites, hcopies, if_true]
        rw [htext.copiedOut (hcond _ rfl), htext'.copiedOut (hcond _ rfl)]

end Determined

/-- What the two calls write to the buffer of their caller depends on the path only, if and only if
they copy nothing or not more than the path with its terminator. -/
theorem paths_determined_iff (env : Env) (table : HandleTable) (hnd path size : Nat)
    (text : Option (List (BitVec 8))) :
    (GetDetermined env table hnd path size text ↔
      (copies env table hnd path size = true → env.load size ≠ 0 →
        ∃ t ∈ text, env.load size ≤ t.length + 1)) ∧
    (GetParentDetermined env table hnd path size text ↔
      (copies env table hnd path size = true → ∀ t ∈ text, env.load size ≤ t.length + 1)) := by
  by_cases hcopies : copies env table hnd path size = true
  · refine ⟨(getDetermined_iff hcopies).trans ?_, (getParentDetermined_iff hcopies).trans ?_⟩
    · exact ⟨fun h _ => h, fun h => h hcopies⟩
    · exact ⟨fun h _ => h, fun h => h hcopies⟩
  · have hparent : ∀ k parent, getParentWrites env table hnd path size k parent = some [] := by
      intro k parent
      cases parent with
      | none => rfl
      | some res => exact if_neg hcopies
    refine ⟨iff_of_true (fun k k' => ?_) fun h => absurd h hcopies,
      iff_of_true (fun k k' parent parent' _ _ => ?_) fun h => absurd h hcopies⟩
    · exact (if_neg hcopies).trans (if_neg hcopies).symm
    · rw [hparent, hparent]

/-- An iterator, and a caller that asks for 16 bytes. -/
def askEnv : Env := ⟨fun _ _ _ => true, fun _ => 16, 0, fun _ => 0, fun _ => 0, fun _ => 0⟩

/-- With the path `0:/a`, eleven bytes behind its terminator are copied as well. -/
theorem path_not_determined : ¬ GetDetermined askEnv
    (fun _ => some ⟨0x7000, .directoryIteratorHandle⟩) 1 0x5000 0x5100
    (some [0x30, 0x3a, 0x2f, 0x61]) := by
  rw [getDetermined_iff (by decide)]
  intro hcond
  obtain ⟨t, ht, hle⟩ := hcond (by decide)
  obtain rfl : [0x30, 0x3a, 0x2f, 0x61] = t := some.inj ht
  exact absurd hle (by decide)

end Obos.Syscalls
