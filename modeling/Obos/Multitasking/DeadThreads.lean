import Obos.Multitasking.Scheduler
import Obos.Lib.Run

/-!
# Dead threads

The status of a thread is written by the scheduler on every CPU, by the calls on thread
handles, by the delivery of signals and by threads that block or exit. Most of these writes
are made after the status has been read or tested, and the others come in between.

Here the CPUs and the threads take turns at every read and every write of a status. A call
on a handle takes the pointer the handle holds; calls that do not write a status are one
step, as in `Kernel`. `TerminateProcess` and `GracefullyTerminateProcess` are sequences of
calls of the thread that runs them.

`dead_stays_dead` says that a dead thread stays dead until it is deleted, in every run in
which nobody begins to revive a dead thread and no thread dies while somebody is about to
write its status.
-/

namespace Obos.Multitasking

open Lib Function Option Kernel
open Scheduler (next setCpu_cpus_self)
open Scheduler (statusBlocked statusRunning Update Label threadCanRun)

/-! ## The program -/

/-- `THREAD_FLAGS_IN_SIGNAL`. -/
def flagsInSignal : BitVec 32 := 0x01

/-- `SIGMAX`. -/
def sigMax : Nat := 9

/-- The errors of `CallSignal`. -/
inductive SignalError where
  | invalidParameter
  | nullHandler
  deriving DecidableEq

/-- Where a thread is in a call that writes a status: the statement it comes to next. A thread that
exits does so in `ExitThreadImpl` or, with its process, in `ExitProcessCallback`. -/
inductive Point where
  | idle
  | pauseStore (obj : Nat)
  | resumeLoad (obj : Nat)
  | resumeStore (obj : Nat) (status : BitVec 32)
  | terminateStore (obj : Nat) (exitCode : BitVec 32)
  | terminateUnlink (obj : Nat)
  | exitStore (exitCode : BitVec 32) (exitsProcess : Bool)
  | exitUnlink (exitsProcess : Bool)
  | exitReap (exitsProcess : Bool)
  | signalStore (target : Nat)
  | signalEnd (target : Nat)
  | blockStore
  deriving DecidableEq

/-- The calls a thread makes. `lock` is the part of `Mutex::Lock` in which the thread waits. -/
inductive Operation where
  | createThread (m_obj : Nat) (par : Kernel.NewThread)
  | openThread (tid : BitVec 32)
  | setThreadPriority (m_obj : Nat) (priority : BitVec 32)
  | closeHandle (m_obj : Nat)
  | pauseThread (m_obj : Nat)
  | resumeThread (m_obj : Nat)
  | terminateThread (m_obj : Nat) (exitCode : BitVec 32)
  | exitThread (exitCode : BitVec 32)
  | exitProcessCallback
  | registerSignal (signal handler : Nat)
  | callSignal (target signal : Nat)
  | lock

/-- The ids of the CPUs and their idle threads. -/
structure CpuTable (n : Nat) where
  cpuId : Fin n → Nat
  idleThread : Fin n → Nat

/-- The kernel with its CPUs, and the calls its threads are in. `dead` are the objects whose status
has been that of a dead thread since they were constructed; nothing reads it. -/
structure Multiprocessor (n : Nat) where
  kernel : Kernel
  cpus : Fin n → Scheduler.Cpu
  iterations : Fin 4 → Nat
  timerTicks : BitVec 64
  signalTable : Nat → Nat → Nat
  calls : Nat → Point
  dead : Nat → Bool

namespace Kernel

/-- Write the status of a thread object. -/
def setStatus (k : Kernel) (obj : Nat) (status : BitVec 32) : Kernel :=
  k.setThread obj { k.thread obj with status := status }

/-- The test at the beginning of the calls on a handle. -/
def ifAlive (k : Kernel) (m_obj : Nat) (p : Point) : Except ThreadError Point :=
  if m_obj = 0 then .error .unopenedHandle
  else if (k.thread m_obj).status = statusDead then .error .threadDied
  else .ok p

/-- `ThreadHandle::PauseThread`, up to its write. -/
def pauseThread (k : Kernel) (m_obj : Nat) : Except ThreadError Point :=
  k.ifAlive m_obj (.pauseStore m_obj)

/-- `ThreadHandle::ResumeThread`, up to the read of the status it changes. -/
def resumeThread (k : Kernel) (m_obj : Nat) : Except ThreadError Point :=
  k.ifAlive m_obj (.resumeLoad m_obj)

/-- The tests of `ThreadHandle::TerminateThread`. -/
def testTerminate (k : Kernel) (currentThread m_obj : Nat) (exitCode : BitVec 32) :
    Except ThreadError Point :=
  match k.ifAlive m_obj (.terminateStore m_obj exitCode) with
  | .ok p => if m_obj = currentThread then .error .accessDenied else .ok p
  | .error e => .error e

/-- The test of `ExitProcessCallback`. -/
def exitProcessCallback (k : Kernel) (thr : Nat) : Point :=
  if (k.thread thr).flags &&& flagsIsExitingProcess ≠ 0 ∧ (k.thread thr).status ≠ statusDead then
    .exitStore 0 true
  else .idle

/-- The end of `ExitThreadImpl` and of `ExitProcessCallback` for a thread no handle refers to. The
first terminates the process of its last thread instead, and does not come back from that unless
there is no such process. -/
def reapExited (k : Kernel) (currentThread : Nat) (exitsProcess : Bool) : Option Kernel :=
  let t := k.thread currentThread
  let k := k.unlinkList currentThread
  if t.threadList = 0 then none
  else if exitsProcess = false ∧ (k.threads t.threadList).size = 0 ∧ t.owner ∈ k.processes then
    some k
  else some (k.delete currentThread)

@[simp] theorem setThread_status (k : Kernel) (obj : Nat) (t : Thread) (x : Nat) :
    ((k.setThread obj t).thread x).status =
      if x = obj then t.status else (k.thread x).status := by
  by_cases hx : x = obj
  · rw [if_pos hx, hx]
    simp only [setThread, update_self]
  · rw [if_neg hx]
    simp only [setThread, update_of_ne hx]

@[simp] theorem markDead_status (k : Kernel) (obj : Nat) (exitCode flags : BitVec 32) (x : Nat) :
    ((k.markDead obj exitCode flags).thread x).status =
      if x = obj then statusDead else (k.thread x).status :=
  setThread_status k obj _ x

/-- What no function does to an object that it does not delete. -/
structure Spared (k k' : Kernel) : Prop where
  object : ∀ x, k'.objects x = true → k.objects x = true
  status : ∀ x, k'.objects x = true → (k'.thread x).status = (k.thread x).status

variable {k' k : Kernel} {r : Except ThreadError Nat} {m_obj : Nat}

theorem Spared.of_eq (hobjects : k'.objects = k.objects)
    (hstatus : ∀ x, (k'.thread x).status = (k.thread x).status) : Spared k k' :=
  ⟨fun _ hx => hobjects ▸ hx, fun x _ => hstatus x⟩

/-- Every object keeps its status, or is new and not dead. -/
def Steady (k k' : Kernel) : Prop :=
  ∀ x, k'.objects x = true →
    k.objects x = true ∧ (k'.thread x).status = (k.thread x).status ∨
      k.objects x = false ∧ (k'.thread x).status ≠ statusDead

theorem Steady.refl : Steady k k := fun _ hx => .inl ⟨hx, rfl⟩

theorem Spared.steady (h : Spared k k') : Steady k k' :=
  fun x hx => .inl ⟨h.object x hx, h.status x hx⟩

theorem Spared.trans {k1 k2 k3 : Kernel} (h : Spared k1 k2) (h' : Spared k2 k3) : Spared k1 k3 :=
  ⟨fun x hx => h.object x (h'.object x hx),
    fun x hx => (h'.status x hx).trans (h.status x (h'.object x hx))⟩

theorem unlinkRun_spared {obj : Nat} (h : k.unlinkRun obj = some k') : Spared k k' := by
  rw [unlinkRun_eq h]
  exact .of_eq rfl fun _ => rfl

theorem delete_spared (k : Kernel) (obj : Nat) : Spared k (k.delete obj) := by
  have hne {x : Nat} (hx : (k.delete obj).objects x = true) : x ≠ obj := by
    rintro rfl
    simp [delete] at hx
  refine ⟨fun x hx => ?_, fun x hx => ?_⟩
  · simpa [delete, hne hx] using hx
  · simp [delete, hne hx]

theorem reapExited_spared {currentThread : Nat} {exitsProcess : Bool}
    (h : k.reapExited currentThread exitsProcess = some k') : Spared k k' := by
  unfold reapExited at h
  simp only at h
  split at h
  · cases h
  split at h <;> cases h
  · exact .of_eq rfl fun _ => rfl
  · have hunlink : Spared k (k.unlinkList currentThread) := .of_eq rfl fun _ => rfl
    exact hunlink.trans (delete_spared _ _)

theorem openThread_spared {tid : BitVec 32} (h : k.openThread tid = some (k', r)) :
    Spared k k' := by
  rcases openThread_cases h with ⟨-, rfl, -⟩ | ⟨obj, -, -, -, rfl⟩
  · exact .of_eq rfl fun _ => rfl
  · exact .of_eq rfl fun x => by simp

/-- `SetThreadPriority` moves a thread. -/
theorem setThreadPriority_spared {priority : BitVec 32} {r : Except ThreadError Unit}
    (h : k.setThreadPriority m_obj priority = some (k', r)) : Spared k k' := by
  rcases setThreadPriority_cases h with rfl | ⟨i, k1, -, -, -, -, hunlink, rfl⟩
  · exact .of_eq rfl fun _ => rfl
  · refine (unlinkRun_spared hunlink).trans (.of_eq rfl fun x => ?_)
    rw [setThread_status]
    split
    · rename_i hx
      rw [hx]
    · rfl

/-- `CloseHandle` counts a reference or deletes a dead thread. -/
theorem closeHandle_spared (h : k.closeHandle m_obj = some (k', r)) : Spared k k' := by
  rcases closeHandle_cases h with ⟨-, rfl, -⟩ | ⟨-, -, rfl, -⟩ | ⟨-, -, -, rfl, -⟩ |
    ⟨-, -, -, -, proc, list, rfl⟩
  · exact .of_eq rfl fun _ => rfl
  · exact .of_eq rfl fun _ => rfl
  · exact .of_eq rfl fun x => by simp
  · have hlist : Spared k ((k.setReferences m_obj 0).setList proc list) :=
      .of_eq rfl fun x => by simp [setList]
    exact hlist.trans (delete_spared _ _)

/-- `CreateThread` adds a thread that is not dead, if anything. -/
theorem createThread_steady {currentThread : Nat} {par : NewThread}
    (h : k.createThread currentThread m_obj par = some (k', r))
    (hnew : k.objects par.obj = false) : Steady k k' := by
  intro x hx
  rcases createThread_cases h with ⟨rfl | rfl, -⟩ | ⟨i, tproc, -, -, rfl, -⟩
  · exact .inl ⟨hx, rfl⟩
  · rw [fixDefaultAffinity_objects] at hx
    exact .inl ⟨hx, by rw [fixDefaultAffinity_thread]⟩
  · rw [addThread_thread]
    rw [addThread_objects] at hx
    by_cases hobj : x = par.obj
    · subst hobj
      rw [update_self]
      exact .inr ⟨hnew, newThread_status _ _ _ _ _⟩
    · rw [update_of_ne hobj, fixDefaultAffinity_objects] at hx
      rw [update_of_ne hobj, fixDefaultAffinity_thread]
      exact .inl ⟨hx, rfl⟩

end Kernel

namespace Multiprocessor

variable {n : Nat}

/-- `CallSignal`, up to the first write of the status. -/
def callSignal (s : Multiprocessor n) (target signal : Nat) : Except SignalError Point :=
  if sigMax < signal then .error .invalidParameter
  else if s.signalTable (s.kernel.thread target).owner signal = 0 then .error .nullHandler
  else .ok (.signalStore target)

/-- Where a thread is after a call has begun. -/
def enter {ε : Type} (s : Multiprocessor n) (t : Nat) (p : Except ε Point) : Multiprocessor n :=
  match p with
  | .ok p => { s with calls := update s.calls t p }
  | .error _ => s

/-- A thread begins a call. `new` gives out an address at which there is no thread object. -/
def start (s : Multiprocessor n) (t : Nat) : Operation → Option (Multiprocessor n)
  | .createThread m_obj par =>
    if par.obj = 0 ∨ s.kernel.objects par.obj then none
    else (s.kernel.createThread t m_obj par).map fun r => { s with kernel := r.1 }
  | .openThread tid => (s.kernel.openThread tid).map fun r => { s with kernel := r.1 }
  | .setThreadPriority m_obj priority =>
    (s.kernel.setThreadPriority m_obj priority).map fun r => { s with kernel := r.1 }
  | .closeHandle m_obj => (s.kernel.closeHandle m_obj).map fun r => { s with kernel := r.1 }
  | .pauseThread m_obj => some (s.enter t (s.kernel.pauseThread m_obj))
  | .resumeThread m_obj => some (s.enter t (s.kernel.resumeThread m_obj))
  | .terminateThread m_obj exitCode => some (s.enter t (s.kernel.testTerminate t m_obj exitCode))
  | .exitThread exitCode =>
    some { s with calls := update s.calls t (.exitStore exitCode false) }
  | .exitProcessCallback =>
    some { s with calls := update s.calls t (s.kernel.exitProcessCallback t) }
  | .registerSignal signal handler =>
    let process := (s.kernel.thread t).owner
    let table := update (s.signalTable process) signal handler
    some { s with signalTable := update s.signalTable process table }
  | .callSignal target signal => some (s.enter t (s.callSignal target signal))
  | .lock => some { s with calls := update s.calls t .blockStore }

/-- Write the kernel and go on to a statement. -/
def goTo (s : Multiprocessor n) (t : Nat) (k : Kernel) (p : Point) : Multiprocessor n :=
  { s with kernel := k, calls := update s.calls t p }

/-- A thread goes on with its call. -/
def proceed (s : Multiprocessor n) (t : Nat) : Option (Multiprocessor n) :=
  let k := s.kernel
  match s.calls t with
  | .idle => none
  | .pauseStore obj => some (s.goTo t (k.setStatus obj (statusCanRun ||| statusPaused)) .idle)
  | .resumeLoad obj => some (s.goTo t k (.resumeStore obj (k.thread obj).status))
  | .resumeStore obj status => some (s.goTo t (k.setStatus obj (status &&& ~~~statusPaused)) .idle)
  | .terminateStore obj exitCode =>
    some (s.goTo t (k.markDead obj exitCode (k.thread obj).flags) (.terminateUnlink obj))
  | .terminateUnlink obj => (k.unlinkRun obj).map fun k => s.goTo t k .idle
  | .exitStore exitCode exitsProcess =>
    some (s.goTo t (k.markDead t exitCode 0) (.exitUnlink exitsProcess))
  | .exitUnlink exitsProcess => (k.unlinkRun t).map fun k =>
    s.goTo t k (if (k.thread t).references = 0 then .exitReap exitsProcess else .idle)
  | .exitReap exitsProcess => (k.reapExited t exitsProcess).map fun k => s.goTo t k .idle
  | .signalStore target =>
    -- the flag is set in front of the status
    some (s.goTo t (k.setThread target { k.thread target with
      flags := (k.thread target).flags ||| flagsInSignal
      status := statusCanRun ||| statusPaused }) (.signalEnd target))
  | .signalEnd target => some (s.goTo t (k.setStatus target statusCanRun) .idle)
  | .blockStore => some (s.goTo t (k.setStatus t (statusCanRun ||| statusBlocked)) .idle)

/-- What `schedule` reads of the kernel. -/
def machine (cfg : CpuTable n) (s : Multiprocessor n) : Scheduler.Machine n where
  cpuId := cfg.cpuId
  idleThread := cfg.idleThread
  head i := (s.kernel.priorityLists i).head
  tail i := (s.kernel.priorityLists i).tail
  size i := (s.kernel.priorityLists i).size
  nextRun := s.kernel.run.next
  prevRun := s.kernel.run.prev

/-- What `schedule` writes. -/
def schedulerState (s : Multiprocessor n) : Scheduler.State n :=
  ⟨s.cpus, s.kernel.thread, s.iterations, s.timerTicks⟩

/-- A step of `schedule` on a CPU. -/
def schedule (cfg : CpuTable n) (s : Multiprocessor n) (c : Fin n) (answer : Bool) :
    Multiprocessor n :=
  let r := Scheduler.next (s.machine cfg) s.schedulerState c answer
  { s with
    kernel := { s.kernel with thread := r.thread }
    cpus := r.cpus
    iterations := r.iterations
    timerTicks := r.timerTicks }

/-! ## Runs -/

/-- What happens next. -/
inductive Event (n : Nat) where
  | schedule (c : Fin n) (answer : Bool)
  | start (t : Nat) (op : Operation)
  | proceed (t : Nat)

/-- Record which objects have died. -/
def watch (s : Multiprocessor n) : Multiprocessor n :=
  { s with dead := fun x =>
      s.kernel.objects x && (s.dead x || (s.kernel.thread x).status = statusDead) }

/-- The state after an event. A thread begins a call when it is done with the one before. -/
def next (cfg : CpuTable n) (s : Multiprocessor n) : Event n → Option (Multiprocessor n)
  | .schedule c answer => some (s.schedule cfg c answer).watch
  | .start t op => if s.calls t = .idle then (s.start t op).map watch else none
  | .proceed t => (s.proceed t).map watch

/-- One event. -/
def Step (cfg : CpuTable n) (s : Multiprocessor n) (e : Event n) (s' : Multiprocessor n) : Prop :=
  s.next cfg e = some s'

/-- No CPU is in `schedule` and no thread in a call. -/
structure Quiet (s : Multiprocessor n) : Prop where
  label : ∀ c, (s.cpus c).label = .outside
  calls : ∀ t, s.calls t = .idle
  dead : ∀ x, s.dead x = (s.kernel.objects x && (s.kernel.thread x).status = statusDead)

end Multiprocessor

/-! ## Who is about to write a status -/

/-- A CPU or a thread. -/
inductive Agent (n : Nat) where
  | cpu (c : Fin n)
  | thread (t : Nat)
  deriving DecidableEq

/-- The assignment is one to the status. -/
def writesStatus : Update → Bool
  | .callEnter | .callLeave | .takeSlice => false
  | _ => true

/-- The thread whose status a CPU writes next, and the value. -/
def cpuWrite (idleThread : Nat) (cpu : Scheduler.Cpu) : Option (Nat × BitVec 32) :=
  match cpu.label with
  | .store u => if writesStatus u then some (u.target idleThread cpu, u.apply cpu.tmp) else none
  | _ => none

/-- The thread whose status a thread writes next, and the value. -/
def Point.write (t : Nat) : Point → Option (Nat × BitVec 32)
  | .pauseStore obj => some (obj, statusCanRun ||| statusPaused)
  | .resumeStore obj status => some (obj, status &&& ~~~statusPaused)
  | .terminateStore obj _ => some (obj, statusDead)
  | .exitStore _ _ => some (t, statusDead)
  | .signalStore target => some (target, statusCanRun ||| statusPaused)
  | .signalEnd target => some (target, statusCanRun)
  | .blockStore => some (t, statusCanRun ||| statusBlocked)
  | _ => none

namespace Multiprocessor

variable {n : Nat}

/-- The status an agent is about to write. -/
def pending (cfg : CpuTable n) (s : Multiprocessor n) : Agent n → Option (Nat × BitVec 32)
  | .cpu c => cpuWrite (cfg.idleThread c) (s.cpus c)
  | .thread t => (s.calls t).write t

/-- If an agent makes a thread dead, no other one is about to give it another status. -/
def Alone (cfg : CpuTable n) (s : Multiprocessor n) (a : Agent n) : Prop :=
  ∀ x, s.pending cfg a = some (x, statusDead) → s.kernel.objects x = true → s.dead x = false →
    ∀ b ≠ a, ∀ v, s.pending cfg b = some (x, v) → v = statusDead

/-- A CPU does not begin an assignment that changes the status of a dead thread. -/
def Spares (cfg : CpuTable n) (s : Multiprocessor n) (c : Fin n) : Prop :=
  ∀ u, (s.cpus c).label = .load u → writesStatus u = true →
    s.dead (u.target (cfg.idleThread c) (s.cpus c)) = true → u.apply statusDead = statusDead

/-- The condition on an event: nobody begins to write another status to a dead thread, and a thread
does not die while somebody else is about to write its status. -/
def Careful (cfg : CpuTable n) (s : Multiprocessor n) : Event n → Prop
  | .schedule c _ => s.Spares cfg c ∧ s.Alone cfg (.cpu c)
  | .start t op =>
    match op with
    | .callSignal target _ => s.dead target = false
    | .lock => s.dead t = false
    | _ => True
  | .proceed t => s.Alone cfg (.thread t)

end Multiprocessor

/-! ## What the scheduler writes -/

section Schedule

variable {n : Nat} {m : Scheduler.Machine n} {s : Scheduler.State n} {c : Fin n}

/-- The values of the statuses are changed by assignments to them only. -/
theorem next_status_of_none (h : cpuWrite (m.idleThread c) (s.cpus c) = none) (answer : Bool)
    (y : Nat) : ((Scheduler.next m s c answer).thread y).status = (s.thread y).status := by
  have hset (t : Thread) (x : Nat) (ht : t.status = (s.thread x).status) :
      (update s.thread x t y).status = (s.thread y).status := by
    by_cases hy : y = x
    · rw [hy, update_self, ht]
    · rw [update_of_ne hy]
  cases hl : (s.cpus c).label with
  | store u =>
    cases u with
    | callEnter | callLeave | takeSlice =>
      simp only [next, hl, Scheduler.State.setCpu, Scheduler.State.setThread]
      exact hset _ _ rfl
    | _ => simp [cpuWrite, hl, writesStatus] at h
  | backStamp | backAffinity | markStamp | markAffinity | scanZero | keepAffinity | takeAffinity =>
    simp only [next, hl, Scheduler.State.setCpu, Scheduler.State.setThread]
    exact hset _ _ rfl
  | _ =>
    simp only [next, hl]
    repeat' split
    all_goals rfl

/-- An assignment to a status stores what was made of the value read before. -/
theorem next_status_of_some {x : Nat} {v : BitVec 32}
    (h : cpuWrite (m.idleThread c) (s.cpus c) = some (x, v)) (answer : Bool) (y : Nat) :
    ((Scheduler.next m s c answer).thread y).status = if y = x then v else (s.thread y).status := by
  unfold cpuWrite at h
  split at h
  · rename_i u hl
    split at h
    · rename_i hw
      cases h
      simp only [next, hl, Scheduler.State.setCpu, Scheduler.State.setThread]
      by_cases hy : y = u.target (m.idleThread c) (s.cpus c)
      · rw [if_pos hy, hy, update_self]
        cases u <;> first | rfl | cases hw
      · rw [if_neg hy, update_of_ne hy]
    · cases h
  · cases h

/-- A CPU comes to write a status by reading it. -/
theorem next_cpuWrite {answer : Bool} {x : Nat} {v : BitVec 32}
    (h : cpuWrite (m.idleThread c) ((Scheduler.next m s c answer).cpus c) = some (x, v)) :
    ∃ u, (s.cpus c).label = .load u ∧ writesStatus u = true ∧
      x = u.target (m.idleThread c) (s.cpus c) ∧ v = u.apply (s.thread x).status := by
  cases hl : (s.cpus c).label with
  | load u =>
    simp only [next, hl, setCpu_cpus_self, cpuWrite] at h
    split at h
    · rename_i hw
      obtain ⟨rfl, rfl⟩ := h
      refine ⟨u, rfl, hw, ?_, ?_⟩
      · cases u <;> rfl
      · cases u <;> first | rfl | cases hw
    · cases h
  | store u =>
    simp only [next, hl, setCpu_cpus_self, cpuWrite] at h
    cases u <;> simp [Update.after] at h
  | _ =>
    simp only [next, hl] at h
    repeat' split at h
    all_goals simp [cpuWrite] at h

end Schedule

namespace Multiprocessor

variable {n : Nat} {cfg : CpuTable n} {s s1 s' : Multiprocessor n}

/-- What holds between any two events: the objects recorded as dead are those with that status, and
nobody is about to write another one to them. -/
structure Inv (cfg : CpuTable n) (s : Multiprocessor n) : Prop where
  dead_iff : ∀ x, s.dead x = true ↔
    s.kernel.objects x = true ∧ (s.kernel.thread x).status = statusDead
  pending : ∀ a x v, s.pending cfg a = some (x, v) → s.dead x = true → v = statusDead

/-- The record of the dead is complete after an event that leaves them dead. -/
theorem Inv.watch (hdead : s1.dead = s.dead)
    (hkeep : ∀ x, s.dead x = true → s1.kernel.objects x = true →
      (s1.kernel.thread x).status = statusDead)
    (hpending : ∀ a x v, s1.pending cfg a = some (x, v) → s1.kernel.objects x = true →
      (s1.kernel.thread x).status = statusDead → v = statusDead) : Inv cfg s1.watch := by
  have hiff (x : Nat) : s1.watch.dead x = true ↔
      s1.kernel.objects x = true ∧ (s1.kernel.thread x).status = statusDead := by
    simp only [Multiprocessor.watch, hdead, Bool.and_eq_true, Bool.or_eq_true, decide_eq_true_eq]
    constructor
    · rintro ⟨hobj, hx | hx⟩
      · exact ⟨hobj, hkeep x hx hobj⟩
      · exact ⟨hobj, hx⟩
    · exact fun h => ⟨h.1, .inr h.2⟩
  refine ⟨hiff, fun a x v ha hx => ?_⟩
  obtain ⟨hobj, hstatus⟩ := (hiff x).1 hx
  cases a with
  | cpu c => exact hpending (.cpu c) x v ha hobj hstatus
  | thread t => exact hpending (.thread t) x v ha hobj hstatus

section

variable (hs : Inv cfg s)
include hs

/-- An event that writes no status of an object keeps the invariant if what is begun spares the
dead. -/
theorem Inv.quiet (hdead : s1.dead = s.dead) (hstatus : s.kernel.Steady s1.kernel)
    (hpending : ∀ a x v, s1.pending cfg a = some (x, v) → s.dead x = true → v = statusDead) :
    Inv cfg s1.watch := by
  refine Inv.watch hdead (fun x hx hobj => ?_) fun a x v ha hobj hx => hpending a x v ha ?_
  · obtain ⟨hold, hst⟩ := (hs.dead_iff x).1 hx
    rcases hstatus x hobj with ⟨-, heq⟩ | ⟨hnew, -⟩
    · rw [heq, hst]
    · rw [hold] at hnew
      cases hnew
  · rcases hstatus x hobj with ⟨hold, heq⟩ | ⟨-, hne⟩
    · exact (hs.dead_iff x).2 ⟨hold, heq ▸ hx⟩
    · exact absurd hx hne

/-- An agent that writes the status it was about to write keeps the invariant, if it is alone in
case the thread dies. It may go on to write another one if the thread does not. -/
theorem Inv.write {a : Agent n} {x : Nat} {v : BitVec 32} (ha : s.pending cfg a = some (x, v))
    (halone : s.Alone cfg a) (hdead : s1.dead = s.dead)
    (hobjects : s1.kernel.objects = s.kernel.objects)
    (hstatus : ∀ y, (s1.kernel.thread y).status = if y = x then v else (s.kernel.thread y).status)
    (hother : ∀ b ≠ a, s1.pending cfg b = s.pending cfg b)
    (hself : ∀ y w, s1.pending cfg a = some (y, w) → y = x ∧ v ≠ statusDead) :
    Inv cfg s1.watch := by
  refine Inv.watch hdead (fun y hy _ => ?_) fun b y w hb hobj hy => ?_
  · rw [hstatus]
    split
    · rename_i hyx
      exact hs.pending a x v ha (hyx ▸ hy)
    · exact ((hs.dead_iff y).1 hy).2
  · rw [hstatus] at hy
    rw [hobjects] at hobj
    by_cases hba : b = a
    · subst hba
      obtain ⟨rfl, hne⟩ := hself y w hb
      rw [if_pos rfl] at hy
      exact absurd hy hne
    · rw [hother b hba] at hb
      by_cases hyx : y = x
      · subst hyx
        rw [if_pos rfl] at hy
        subst hy
        -- the thread dies now, or was dead before
        by_cases hd : s.dead y = true
        · exact hs.pending b y w hb hd
        · exact halone y ha hobj (Bool.eq_false_iff.2 hd) b hba w hb
      · rw [if_neg hyx] at hy
        exact hs.pending b y w hb ((hs.dead_iff y).2 ⟨hobj, hy⟩)

/-- A step of the scheduler keeps the invariant. -/
theorem Inv.schedule (c : Fin n) (answer : Bool) (hspares : s.Spares cfg c)
    (halone : s.Alone cfg (.cpu c)) : Inv cfg (s.schedule cfg c answer).watch := by
  have hother (b : Agent n) (hb : b ≠ .cpu c) :
      (s.schedule cfg c answer).pending cfg b = s.pending cfg b := by
    cases b with
    | thread t => rfl
    | cpu d =>
      have hd : d ≠ c := fun h => hb (h ▸ rfl)
      simp only [Multiprocessor.pending, Multiprocessor.schedule, Scheduler.next_cpus_of_ne hd,
        schedulerState]
  -- a write that is prepared in this step
  have hself (x : Nat) (v : BitVec 32)
      (h : (s.schedule cfg c answer).pending cfg (.cpu c) = some (x, v)) :
      ∃ u, (s.cpus c).label = .load u ∧ writesStatus u = true ∧
        x = u.target (cfg.idleThread c) (s.cpus c) ∧ v = u.apply (s.kernel.thread x).status :=
    next_cpuWrite (m := s.machine cfg) (s := s.schedulerState) h
  cases ha : s.pending cfg (.cpu c) with
  | none =>
    have hstatus := next_status_of_none (m := s.machine cfg) (s := s.schedulerState) ha
      answer
    refine hs.quiet rfl (fun x hx => .inl ⟨hx, hstatus x⟩) fun b x v hb hx => ?_
    by_cases hbc : b = .cpu c
    · subst hbc
      obtain ⟨u, hl, hw, rfl, rfl⟩ := hself x v hb
      rw [((hs.dead_iff _).1 hx).2]
      exact hspares u hl hw hx
    · rw [hother b hbc] at hb
      exact hs.pending b x v hb hx
  | some r =>
    have hstatus := next_status_of_some (m := s.machine cfg) (s := s.schedulerState) ha
      answer
    refine hs.write ha halone rfl rfl hstatus hother fun y w h => ?_
    obtain ⟨u, hl, -⟩ := hself y w h
    simp [Multiprocessor.pending, cpuWrite, hl] at ha

variable {k : Kernel} {t : Nat} {p : Point}

omit hs in
/-- What a thread does that goes on with its call: it writes the status it was about to write, or
none. -/
theorem proceed_cases (h : s.proceed t = some s1) : ∃ k p, s1 = s.goTo t k p ∧
    ((∃ y v, (s.calls t).write t = some (y, v) ∧ k.objects = s.kernel.objects ∧
        (∀ x, (k.thread x).status = if x = y then v else (s.kernel.thread x).status) ∧
        ∀ x w, p.write t = some (x, w) → x = y ∧ v ≠ statusDead) ∨
      (s.kernel.Spared k ∧ ∀ x w, p.write t = some (x, w) →
        (s.kernel.thread x).status = statusDead → w = statusDead)) := by
  unfold Multiprocessor.proceed at h
  cases hp : s.calls t with
  | idle => simp [hp] at h
  | pauseStore obj | resumeStore obj status | signalEnd target | blockStore =>
    simp only [hp, some.injEq] at h
    exact ⟨_, _, h.symm, .inl ⟨_, _, rfl, rfl, setThread_status _ _ _, nofun⟩⟩
  | terminateStore obj exitCode | exitStore exitCode exitsProcess =>
    simp only [hp, some.injEq] at h
    exact ⟨_, _, h.symm, .inl ⟨_, _, rfl, rfl, markDead_status _ _ _ _, nofun⟩⟩
  | signalStore target =>
    simp only [hp, some.injEq] at h
    refine ⟨_, _, h.symm, .inl ⟨_, _, rfl, rfl, setThread_status _ _ _, ?_⟩⟩
    intro x w hw
    cases hw
    exact ⟨rfl, by decide⟩
  | resumeLoad obj =>
    simp only [hp, some.injEq] at h
    refine ⟨_, _, h.symm, .inr ⟨.of_eq rfl fun _ => rfl, ?_⟩⟩
    intro x w hw hdead
    cases hw
    rw [hdead]
    decide
  | terminateUnlink obj =>
    simp only [hp, map_eq_some_iff] at h
    obtain ⟨k, hk, rfl⟩ := h
    exact ⟨k, _, rfl, .inr ⟨unlinkRun_spared hk, nofun⟩⟩
  | exitUnlink exitsProcess =>
    simp only [hp, map_eq_some_iff] at h
    obtain ⟨k, hk, rfl⟩ := h
    refine ⟨k, _, rfl, .inr ⟨unlinkRun_spared hk, fun x w hw => ?_⟩⟩
    split at hw <;> cases hw
  | exitReap exitsProcess =>
    simp only [hp, map_eq_some_iff] at h
    obtain ⟨k, hk, rfl⟩ := h
    exact ⟨k, _, rfl, .inr ⟨reapExited_spared hk, nofun⟩⟩

omit hs in
/-- The other agents stay where they are. -/
theorem goTo_pending_of_ne {b : Agent n} (hb : b ≠ .thread t) :
    (s.goTo t k p).pending cfg b = s.pending cfg b := by
  cases b with
  | cpu c => rfl
  | thread u =>
    have hu : u ≠ t := fun h => hb (h ▸ rfl)
    simp only [Multiprocessor.pending, goTo, update_of_ne hu]

omit hs in
@[simp] theorem goTo_pending_self : (s.goTo t k p).pending cfg (.thread t) = p.write t := by
  simp only [Multiprocessor.pending, goTo, update_self]

/-- A thread that writes no status keeps the invariant if what it begins spares the dead. -/
theorem Inv.goTo (hstatus : s.kernel.Steady k)
    (hp : ∀ x w, p.write t = some (x, w) → s.dead x = true → w = statusDead) :
    Inv cfg (s.goTo t k p).watch := by
  refine hs.quiet rfl hstatus fun b x v hb hx => ?_
  by_cases hbt : b = .thread t
  · subst hbt
    rw [goTo_pending_self] at hb
    exact hp x v hb hx
  · rw [goTo_pending_of_ne hbt] at hb
    exact hs.pending b x v hb hx

/-- A thread that goes on with its call keeps the invariant. -/
theorem Inv.proceed (halone : s.Alone cfg (.thread t)) (hproceed : s.proceed t = some s1) :
    Inv cfg s1.watch := by
  obtain ⟨k, p, rfl, hcases⟩ := proceed_cases hproceed
  rcases hcases with ⟨y, v, hwrite, hobjects, hstatus, hp⟩ | ⟨hspared, hp⟩
  · refine hs.write (a := .thread t) hwrite halone rfl hobjects hstatus
      (fun b hb => goTo_pending_of_ne hb) ?_
    rwa [goTo_pending_self]
  · exact hs.goTo hspared.steady fun x w hw hx => hp x w hw ((hs.dead_iff x).1 hx).2

omit hs in
/-- A call on a handle that begins to write a status has found the thread alive. -/
theorem ifAlive_ok {obj : Nat} {q : Point} (h : k.ifAlive obj p = .ok q) :
    q = p ∧ (k.thread obj).status ≠ statusDead := by
  unfold ifAlive at h
  split at h
  · cases h
  split at h
  · cases h
  · rename_i hdead
    cases h
    exact ⟨rfl, hdead⟩

theorem Inv.enter {ε : Type} {r : Except ε Point}
    (hp : ∀ p, r = .ok p → ∀ x w, p.write t = some (x, w) → s.dead x = true → w = statusDead) :
    Inv cfg (s.enter t r).watch := by
  cases r with
  | ok p => exact hs.goTo (k := s.kernel) .refl (hp p rfl)
  | error e => exact hs.quiet rfl .refl hs.pending

theorem Inv.setKernel (hstatus : s.kernel.Steady k) : Inv cfg { s with kernel := k }.watch :=
  hs.quiet rfl hstatus fun a x v h => hs.pending a x v (by cases a <;> exact h)

/-- A thread that begins a call keeps the invariant. -/
theorem Inv.start {op : Operation} (hcareful : s.Careful cfg (.start t op))
    (hstart : s.start t op = some s1) : Inv cfg s1.watch := by
  cases op with
  | createThread m_obj par =>
    simp only [Multiprocessor.start] at hstart
    split at hstart
    · cases hstart
    · rename_i hnew
      rw [not_or] at hnew
      obtain ⟨⟨k, r⟩, hk, rfl⟩ := map_eq_some_iff.1 hstart
      exact hs.setKernel (createThread_steady hk (Bool.eq_false_iff.2 hnew.2))
  | openThread tid =>
    obtain ⟨⟨k, r⟩, hk, rfl⟩ := map_eq_some_iff.1 hstart
    exact hs.setKernel (openThread_spared hk).steady
  | setThreadPriority m_obj priority =>
    obtain ⟨⟨k, r⟩, hk, rfl⟩ := map_eq_some_iff.1 hstart
    exact hs.setKernel (setThreadPriority_spared hk).steady
  | closeHandle m_obj =>
    obtain ⟨⟨k, r⟩, hk, rfl⟩ := map_eq_some_iff.1 hstart
    exact hs.setKernel (closeHandle_spared hk).steady
  | pauseThread m_obj =>
    cases hstart
    refine hs.enter fun p hp x w hw hx => ?_
    obtain ⟨rfl, hne⟩ := ifAlive_ok hp
    cases hw
    exact absurd ((hs.dead_iff _).1 hx).2 hne
  | resumeThread m_obj =>
    cases hstart
    refine hs.enter fun p hp x w hw _ => ?_
    obtain ⟨rfl, -⟩ := ifAlive_ok hp
    cases hw
  | terminateThread m_obj exitCode =>
    cases hstart
    refine hs.enter fun p hp x w hw hx => ?_
    unfold testTerminate at hp
    split at hp
    · rename_i q hq
      obtain ⟨rfl, -⟩ := ifAlive_ok hq
      split at hp <;> cases hp
      cases hw
      rfl
    · cases hp
  | exitThread exitCode =>
    cases hstart
    refine hs.goTo (k := s.kernel) .refl fun x w hw _ => ?_
    cases hw
    rfl
  | exitProcessCallback =>
    cases hstart
    refine hs.goTo (k := s.kernel) .refl fun x w hw _ => ?_
    unfold exitProcessCallback at hw
    split at hw <;> cases hw
    rfl
  | registerSignal signal handler =>
    cases hstart
    exact hs.quiet rfl .refl fun a x v h =>
      hs.pending a x v (by cases a <;> exact h)
  | callSignal target signal =>
    cases hstart
    refine hs.enter fun p hp x w hw hx => ?_
    unfold Multiprocessor.callSignal at hp
    split at hp
    · cases hp
    split at hp <;> cases hp
    cases hw
    rw [hcareful] at hx
    cases hx
  | lock =>
    cases hstart
    refine hs.goTo (k := s.kernel) .refl fun x w hw hx => ?_
    cases hw
    rw [hcareful] at hx
    cases hx

/-- An event that meets the condition keeps the invariant. -/
theorem Inv.step {e : Event n} (hcareful : s.Careful cfg e) (hstep : Step cfg s e s')
    : Inv cfg s' := by
  cases e with
  | schedule c answer =>
    cases hstep
    exact hs.schedule c answer hcareful.1 hcareful.2
  | start t op =>
    simp only [Step, next] at hstep
    split at hstep
    · obtain ⟨s1, hstart, rfl⟩ := map_eq_some_iff.1 hstep
      exact hs.start hcareful hstart
    · cases hstep
  | proceed t =>
    obtain ⟨s1, hproceed, rfl⟩ := map_eq_some_iff.1 hstep
    exact hs.proceed hcareful hproceed

end

/-- The invariant holds when nobody does anything. -/
theorem Quiet.inv (hs : s.Quiet) : Inv cfg s := by
  refine ⟨fun x => ?_, fun a x v ha => ?_⟩
  · rw [hs.dead, Bool.and_eq_true, decide_eq_true_eq]
  · cases a with
    | cpu c =>
      rw [Multiprocessor.pending, cpuWrite, hs.label c] at ha
      cases ha
    | thread t =>
      rw [Multiprocessor.pending, hs.calls t] at ha
      cases ha

/-- A thread that has died has the status of a dead thread until it is deleted, and no CPU may run
it. -/
theorem dead_stays_dead (hs : s.Quiet) (hrun : Reaches (Careful cfg) (Step cfg) s s') (x : Nat)
    (hx : s'.dead x = true) : (s'.kernel.thread x).status = statusDead ∧
      ∀ cpuId, threadCanRun cpuId (s'.kernel.thread x) = false := by
  have hinv : Inv cfg s' := hrun.invariant (Inv cfg) hs.inv fun _ _ _ h hcareful hstep =>
    h.step hcareful hstep
  have hdead := ((hinv.dead_iff x).1 hx).2
  refine ⟨hdead, fun cpuId => ?_⟩
  rw [threadCanRun, hdead]
  simp [statusDead, statusCanRun]

/-- One CPU, with a thread at `0x1000` that it runs and another one at `0x2000`, and a process that
has a handler for page faults. -/
def twoThreads : Multiprocessor 1 where
  kernel :=
    { thread := fun x =>
        if x = 0x1000 then ⟨0, 0x20, 4, 0, 0, 0, 1, 0, 0x9000, some 2, 0x9000, 1, 1, 0⟩
        else if x = 0x2000 then ⟨1, 0x02, 4, 0, 0, 0, 1, 0, 0x9000, some 2, 0x9000, 1, 1, 0⟩
        else Thread.zero
      run := ⟨fun x => if x = 0x1000 then 0x2000 else 0, fun x => if x = 0x2000 then 0x1000 else 0⟩
      list := ⟨fun x => if x = 0x1000 then 0x2000 else 0, fun x => if x = 0x2000 then 0x1000 else 0⟩
      priorityLists := fun i => if i = 2 then ⟨0x1000, 0x2000, 2⟩ else ⟨0, 0, 0⟩
      threads := fun p => if p = 0x9000 then ⟨0x1000, 0x2000, 2⟩ else ⟨0, 0, 0⟩
      processes := [0x9000]
      nextTid := 2
      defaultAffinity := 1
      cpuIds := [0]
      objects := fun x => x = 0x1000 || x = 0x2000
      died := fun _ => false
      deletions := fun _ => 0 }
  cpus _ := .outside 0x1000
  iterations _ := 0
  timerTicks := 0
  signalTable process signal := if process = 0x9000 ∧ signal = 0 then 0x400000 else 0
  calls _ := .idle
  dead _ := false

/-- The CPU of `twoThreads`. -/
def oneCpu : CpuTable 1 := ⟨fun _ => 0, fun _ => 0x3000⟩

theorem twoThreads_quiet : twoThreads.Quiet where
  label _ := rfl
  calls _ := rfl
  dead x := by
    by_cases hx : x = 0x1000
    · subst hx
      rfl
    · by_cases hx' : x = 0x2000
      · subst hx'
        rfl
      · simp [twoThreads, hx, hx']

/-- The first thread is in `TerminateThread`, about to write. -/
def terminating : Multiprocessor 1 :=
  (twoThreads.goTo 0x1000 twoThreads.kernel (.terminateStore 0x2000 7)).watch

/-- The first thread has killed the second one. -/
def terminated : Multiprocessor 1 :=
  (terminating.goTo 0x1000 (terminating.kernel.markDead 0x2000 7 0)
    (.terminateUnlink 0x2000)).watch

/-- The first thread kills the second one while nobody else is in a call, takes it out of its run
list, and calls `TerminateThread` once more. -/
theorem dead_stays_dead_terminated : ∃ s' s'' : Multiprocessor 1,
    Reaches (Careful oneCpu) (Step oneCpu) twoThreads s'' ∧
      Step oneCpu terminated (.proceed 0x1000) s' ∧
      Step oneCpu s' (.start 0x1000 (.terminateThread 0x2000 8)) s'' ∧
      s''.dead 0x2000 = true ∧ (s''.kernel.thread 0x2000).status = statusDead := by
  have hstart : Step oneCpu twoThreads (.start 0x1000 (.terminateThread 0x2000 7)) terminating :=
    rfl
  have hproceed : Step oneCpu terminating (.proceed 0x1000) terminated := rfl
  have halone : terminating.Alone oneCpu (.thread 0x1000) := by
    intro x _ _ _ b hb v hv
    cases b with
    | cpu c => cases hv
    | thread t =>
      have ht : t ≠ 0x1000 := fun h => hb (h ▸ rfl)
      have hcalls : terminating.calls t = .idle := update_of_ne ht _ _
      rw [pending, hcalls] at hv
      cases hv
  have hunlinked : terminated.Alone oneCpu (.thread 0x1000) := fun x hx => nomatch hx
  have hagain : ((next oneCpu terminated (.proceed 0x1000)).bind fun s =>
      next oneCpu s (.start 0x1000 (.terminateThread 0x2000 8))).map (·.dead 0x2000) =
        some true := by
    decide +kernel
  obtain ⟨s'', hrest, hdead⟩ := map_eq_some_iff.1 hagain
  obtain ⟨s', hproceed', hstart'⟩ := bind_eq_some_iff.1 hrest
  have hrun : Reaches (Careful oneCpu) (Step oneCpu) twoThreads s'' :=
    (((Relation.ReflTransGen.single
      ⟨.start 0x1000 (.terminateThread 0x2000 7), trivial, hstart⟩).tail
      ⟨.proceed 0x1000, halone, hproceed⟩).tail ⟨.proceed 0x1000, hunlinked, hproceed'⟩).tail
      ⟨.start 0x1000 (.terminateThread 0x2000 8), trivial, hstart'⟩
  exact ⟨s', s'', hrun, hproceed', hstart', hdead,
    (dead_stays_dead twoThreads_quiet hrun 0x2000 hdead).1⟩

/-- The first thread terminates the second one and then sends it a signal, after which it can run
again. -/
theorem callSignal_revives_dead : twoThreads.Quiet ∧
    ∃ s', Reaches (fun _ _ => True) (Step oneCpu) twoThreads s' ∧ s'.dead 0x2000 = true ∧
      (s'.kernel.thread 0x2000).status = statusCanRun ∧
      threadCanRun 0 (s'.kernel.thread 0x2000) = true := by
  have hrun : (execute (fun _ _ => True) (next oneCpu) twoThreads
      [.start 0x1000 (.terminateThread 0x2000 7), .proceed 0x1000, .proceed 0x1000,
        .start 0x1000 (.callSignal 0x2000 0), .proceed 0x1000, .proceed 0x1000]).map
        (fun s => (s.dead 0x2000, (s.kernel.thread 0x2000).status,
          threadCanRun 0 (s.kernel.thread 0x2000))) = some (true, statusCanRun, true) := by
    decide +kernel
  obtain ⟨s', hs', heq⟩ := map_eq_some_iff.1 hrun
  obtain ⟨hdead, hrest⟩ := Prod.mk.inj heq
  obtain ⟨hstatus, hcan⟩ := Prod.mk.inj hrest
  exact ⟨twoThreads_quiet, s', Reaches.of_execute hs', hdead, hstatus, hcan⟩

end Multiprocessor

end Obos.Multitasking
