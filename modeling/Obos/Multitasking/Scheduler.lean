import Obos.Multitasking.Thread

/-!
# The scheduler

`schedule` runs on every CPU, at any time, and the CPUs work on the same threads. A CPU
sets its `schedulerLock`, counts the CPUs whose flag is set, and backs off to its idle
thread if it is not the only one; otherwise it makes its thread runnable, asks the block
callbacks, and looks for a thread to run in the run lists.

A step is one statement or one condition of the source on one CPU; an assignment that
reads what it writes is a load and a store. `findThreadPriorityList` is one step, since
its counters are not read elsewhere. Block callbacks answer anything.
-/

namespace Obos.Scheduler

open Lib Obos.Multitasking

/-! ## The state -/

/-- `THREAD_STATUS_BLOCKED`. -/
def statusBlocked : BitVec 32 := 0x04

/-- `THREAD_STATUS_CLEAR_TIME_SLICE_INDEX`. -/
def statusClearTimeSliceIndex : BitVec 32 := 0x10

/-- `THREAD_STATUS_RUNNING`. -/
def statusRunning : BitVec 32 := 0x20

/-- `THREAD_FLAGS_CALLING_BLOCK_CALLBACK`. -/
def flagsCallingBlockCallback : BitVec 32 := 0x04

/-- The assignments of `schedule` that read what they write. -/
inductive Update where
  | unblockIdle
  | backReady
  | backStop
  | backIdle
  | markReady
  | markStop
  | callEnter
  | callLeave
  | callReady
  | scanMark
  | scanClear
  | keepRunning
  | takeSlice
  | takeRunning
  deriving DecidableEq

/-- The statements of `schedule`. The names in `back` are those of the path that backs off, those in
`mark` leave the current thread, those in `call` and `scan` are the loops over the run lists, and
those in `take` switch to the new thread. -/
inductive Label where
  | outside
  | readCurrent
  | testLock
  | setLock
  | testIdle
  | waitIdle
  | count
  | backClear
  | backTest
  | backStamp
  | backAffinity
  | backSwitch
  | markStamp
  | markTest
  | markAffinity
  | callList
  | callTest
  | callSpin
  | callRun
  | callEnd
  | callNext
  | chooseList
  | scanList
  | scanTest
  | scanSlice
  | scanRun
  | scanCompare
  | scanEnd
  | scanZero
  | scanNext
  | found
  | checkRunning
  | keepAffinity
  | takeAffinity
  | takeCurrent
  | release
  | load (u : Update)
  | store (u : Update)
  deriving DecidableEq

/-- A CPU: the two fields of `cpu_local` that change, where it is in `schedule`, and the locals of
`schedule` and of the functions it calls. `cur` is the local `currentThread`. -/
structure Cpu where
  currentThread : Nat
  schedulerLock : Bool
  label : Label
  cur : Nat
  i : Nat
  nCpusInScheduler : Nat
  list : Fin 4
  thread : Nat
  ret : Nat
  clearTimeSliceIndex : Bool
  callbackRet : Bool
  foundHighPriority : Nat
  newThread : Nat
  tmp : BitVec 32

/-- A CPU outside `schedule` that runs the given thread. -/
def Cpu.outside (currentThread : Nat) : Cpu :=
  ⟨currentThread, false, .outside, 0, 0, 0, 0, 0, 0, false, false, 0, 0, 0⟩

/-- What `schedule` reads and does not write: the CPUs' ids and idle threads, and the run lists. -/
structure Machine (n : Nat) where
  cpuId : Fin n → Nat
  idleThread : Fin n → Nat
  head : Fin 4 → Nat
  tail : Fin 4 → Nat
  size : Fin 4 → Nat
  nextRun : Nat → Nat
  prevRun : Nat → Nat

/-- The CPUs, the threads, the counters of the run lists and the timer. -/
structure State (n : Nat) where
  cpus : Fin n → Cpu
  thread : Nat → Thread
  iterations : Fin 4 → Nat
  timerTicks : BitVec 64

variable {n : Nat}

/-- Write the state of a CPU. -/
def State.setCpu (s : State n) (c : Fin n) (cpu : Cpu) : State n :=
  { s with cpus := Function.update s.cpus c cpu }

/-- Write a thread. -/
def State.setThread (s : State n) (t : Nat) (thread : Thread) : State n :=
  { s with thread := Function.update s.thread t thread }

/-! ## The functions -/

/-- `ThreadCanRun`, with `checkThreadAffinity`. -/
def threadCanRun (cpuId : Nat) (t : Thread) : Bool :=
  t.status = statusCanRun && t.affinity.getLsbD cpuId && t.timeSliceIndex < t.priority

/-- The thread an assignment is about. -/
def Update.target (u : Update) (idleThread : Nat) (cpu : Cpu) : Nat :=
  match u with
  | .unblockIdle | .backReady | .backStop | .markReady | .markStop | .keepRunning => cpu.cur
  | .backIdle => idleThread
  | .callEnter | .callLeave | .callReady | .scanMark | .scanClear => cpu.thread
  | .takeSlice | .takeRunning => cpu.newThread

/-- The field an assignment is about. -/
def Update.get (u : Update) (t : Thread) : BitVec 32 :=
  match u with
  | .callEnter | .callLeave => t.flags
  | .takeSlice => t.timeSliceIndex
  | _ => t.status

/-- Write that field. -/
def Update.put (u : Update) (v : BitVec 32) (t : Thread) : Thread :=
  match u with
  | .callEnter | .callLeave => { t with flags := v }
  | .takeSlice => { t with timeSliceIndex := v }
  | _ => { t with status := v }

/-- The value an assignment makes of the one it has read. -/
def Update.apply (u : Update) (v : BitVec 32) : BitVec 32 :=
  match u with
  | .unblockIdle | .callReady => v &&& ~~~statusBlocked
  | .backReady | .markReady => v ||| statusCanRun
  | .backStop | .markStop => v &&& ~~~statusRunning
  | .backIdle | .keepRunning | .takeRunning => (v &&& ~~~statusCanRun) ||| statusRunning
  | .callEnter => v ||| flagsCallingBlockCallback
  | .callLeave => v &&& ~~~flagsCallingBlockCallback
  | .scanMark => v ||| statusClearTimeSliceIndex
  | .scanClear => v &&& ~~~statusClearTimeSliceIndex
  | .takeSlice => v + 1

/-- The statement after an assignment. -/
def Update.after (u : Update) : Label :=
  match u with
  | .unblockIdle | .keepRunning | .takeRunning => .release
  | .backReady => .load .backStop
  | .backStop => .backAffinity
  | .backIdle => .backSwitch
  | .markReady => .load .markStop
  | .markStop => .markAffinity
  | .callEnter => .callRun
  | .callLeave => .callEnd
  | .callReady => .callNext
  | .scanMark => .scanRun
  | .scanClear => .scanZero
  | .takeSlice => .load .takeRunning

/-- The loop of `findThreadPriorityList`: the highest list that has threads and turns left. -/
def highestList (size iterations : Fin 4 → Nat) : Option (Fin 4) :=
  [3, 2, 1, 0].find? fun i => 0 < size i && iterations i < (1#32 <<< i.val).toNat

/-- `findThreadPriorityList`: the list, and the counters afterwards. All are cleared when the idle
list has had its turn. If no list has threads, the counter it increments lies in front of the
lists. -/
def findThreadPriorityList (size iterations : Fin 4 → Nat) : Fin 4 × (Fin 4 → Nat) :=
  let iterations := if 1 ≤ iterations 0 then fun _ => 0 else iterations
  match highestList size iterations with
  | some i => (i, Function.update iterations i ((iterations i + 1) % 2 ^ 64))
  | none => (0, iterations)

/-- One step of `schedule` on a CPU. `answer` is what a block callback returns. -/
def next (m : Machine n) (s : State n) (c : Fin n) (answer : Bool) : State n :=
  let cpu := s.cpus c
  match cpu.label with
  | .outside =>
    { s.setCpu c { cpu with label := .readCurrent } with
      timerTicks := if m.cpuId c = 0 then s.timerTicks + 1 else s.timerTicks }
  | .readCurrent => s.setCpu c { cpu with cur := cpu.currentThread, label := .testLock }
  | .testLock => s.setCpu c { cpu with label := if cpu.schedulerLock then .outside else .setLock }
  | .setLock => s.setCpu c { cpu with schedulerLock := true, label := .testIdle }
  | .testIdle =>
    if cpu.cur ≠ 0 ∧ cpu.cur = m.idleThread c ∧
        (s.thread cpu.cur).status &&& statusBlocked ≠ 0 then
      s.setCpu c { cpu with label := .waitIdle }
    else s.setCpu c { cpu with i := 0, nCpusInScheduler := 0, label := .count }
  | .waitIdle => s.setCpu c { cpu with label := if answer then .load .unblockIdle else .waitIdle }
  | .count =>
    if h : cpu.i < n then
      let one := if (s.cpus ⟨cpu.i, h⟩).schedulerLock then 1 else 0
      s.setCpu c { cpu with nCpusInScheduler := cpu.nCpusInScheduler + one, i := cpu.i + 1 }
    else if cpu.nCpusInScheduler ≠ 1 then s.setCpu c { cpu with label := .backClear }
    else s.setCpu c
      { cpu with list := 3, label := if cpu.cur = 0 then .callList else .markStamp }
  | .backClear =>
    s.setCpu c
      { cpu with schedulerLock := false, label := if cpu.cur = 0 then .outside else .backTest }
  | .backTest =>
    let canRun := threadCanRun (m.cpuId c) (s.thread cpu.cur)
    s.setCpu c { cpu with label := if canRun then .outside else .backStamp }
  | .backStamp =>
    (s.setThread cpu.cur { s.thread cpu.cur with lastTimePreempted := s.timerTicks }).setCpu c
      { cpu with label := .load .backReady }
  | .backAffinity =>
    (s.setThread cpu.cur
      { s.thread cpu.cur with affinity := (s.thread cpu.cur).ogAffinity }).setCpu c
      { cpu with label := .load .backIdle }
  | .backSwitch =>
    s.setCpu c { cpu with currentThread := m.idleThread c, label := .outside }
  | .markStamp =>
    (s.setThread cpu.cur { s.thread cpu.cur with lastTimePreempted := s.timerTicks }).setCpu c
      { cpu with label := .markTest }
  | .markTest =>
    let dead := (s.thread cpu.cur).status &&& statusDead ≠ 0
    s.setCpu c { cpu with label := .load (if dead then .markStop else .markReady) }
  | .markAffinity =>
    (s.setThread cpu.cur
      { s.thread cpu.cur with affinity := (s.thread cpu.cur).ogAffinity }).setCpu c
      { cpu with label := .callList }
  | .callList => s.setCpu c { cpu with thread := m.head cpu.list, label := .callTest }
  | .callTest =>
    if cpu.thread = 0 then
      if cpu.list = 0 then s.setCpu c { cpu with label := .chooseList }
      else s.setCpu c { cpu with list := cpu.list - 1, label := .callList }
    else
      let blocked := (s.thread cpu.thread).status &&& statusBlocked ≠ 0
      s.setCpu c { cpu with label := if blocked then .callSpin else .callNext }
  | .callSpin =>
    let calling := (s.thread cpu.thread).flags &&& flagsCallingBlockCallback ≠ 0
    s.setCpu c { cpu with label := if calling then .callSpin else .load .callEnter }
  | .callRun => s.setCpu c { cpu with callbackRet := answer, label := .load .callLeave }
  | .callEnd =>
    s.setCpu c { cpu with label := if cpu.callbackRet then .load .callReady else .callNext }
  | .callNext => s.setCpu c { cpu with thread := m.nextRun cpu.thread, label := .callTest }
  | .chooseList =>
    let r := findThreadPriorityList m.size s.iterations
    { s.setCpu c { cpu with list := r.1, foundHighPriority := 0, label := .scanList } with
      iterations := r.2 }
  | .scanList => s.setCpu c { cpu with thread := m.tail cpu.list, ret := 0, label := .scanTest }
  | .scanTest =>
    if cpu.thread = 0 then s.setCpu c { cpu with newThread := cpu.ret, label := .found }
    else
      let clear := (s.thread cpu.thread).status &&& statusClearTimeSliceIndex ≠ 0
      s.setCpu c { cpu with clearTimeSliceIndex := clear, label := .scanSlice }
  | .scanSlice =>
    let used := (s.thread cpu.thread).priority ≤ (s.thread cpu.thread).timeSliceIndex
    s.setCpu c { cpu with label := if used then .load .scanMark else .scanRun }
  | .scanRun =>
    let canRun := threadCanRun (m.cpuId c) (s.thread cpu.thread)
    s.setCpu c { cpu with label := if canRun then .scanCompare else .scanEnd }
  | .scanCompare =>
    let earlier := (s.thread cpu.thread).lastTimePreempted < (s.thread cpu.ret).lastTimePreempted
    s.setCpu c
      { cpu with ret := if cpu.ret = 0 ∨ earlier then cpu.thread else cpu.ret, label := .scanEnd }
  | .scanEnd =>
    s.setCpu c
      { cpu with label := if cpu.clearTimeSliceIndex then .load .scanClear else .scanNext }
  | .scanZero =>
    (s.setThread cpu.thread { s.thread cpu.thread with timeSliceIndex := 0 }).setCpu c
      { cpu with label := .scanNext }
  | .scanNext => s.setCpu c { cpu with thread := m.prevRun cpu.thread, label := .scanTest }
  | .found =>
    -- a list without a runnable thread is followed by the one below it, at most twice around; a
    -- null thread that is left after more turns is read at address 0
    let high := if cpu.newThread = 0 ∧ cpu.list = 3 then cpu.foundHighPriority + 1
      else cpu.foundHighPriority
    let list := if cpu.newThread = 0 then cpu.list - 1 else cpu.list
    if cpu.newThread = 0 ∧ high < 2 then
      s.setCpu c { cpu with foundHighPriority := high, list := list, label := .scanList }
    else
      let newThread := if high = 2 then m.idleThread c else cpu.newThread
      s.setCpu c { cpu with
        foundHighPriority := high, list := list, newThread := newThread, label := .checkRunning }
  | .checkRunning =>
    let running := (s.thread cpu.newThread).status &&& statusRunning ≠ 0
    if cpu.newThread = cpu.cur then s.setCpu c { cpu with label := .keepAffinity }
    else if running then s.setCpu c { cpu with label := .scanList }
    else
      let newThread := if cpu.newThread = 0 then m.idleThread c else cpu.newThread
      s.setCpu c { cpu with newThread := newThread, label := .takeAffinity }
  | .keepAffinity =>
    (s.setThread cpu.cur { s.thread cpu.cur with affinity := 1#128 <<< m.cpuId c }).setCpu c
      { cpu with label := .load .keepRunning }
  | .takeAffinity =>
    -- the shift is one of 64 bits
    (s.setThread cpu.newThread { s.thread cpu.newThread with
      affinity := (1#64 <<< (m.cpuId c % 64)).setWidth 128 }).setCpu c
      { cpu with label := .takeCurrent }
  | .takeCurrent =>
    s.setCpu c { cpu with currentThread := cpu.newThread, label := .load .takeSlice }
  | .release => s.setCpu c { cpu with schedulerLock := false, label := .outside }
  | .load u =>
    s.setCpu c
      { cpu with tmp := u.get (s.thread (u.target (m.idleThread c) cpu)), label := .store u }
  | .store u =>
    let t := u.target (m.idleThread c) cpu
    (s.setThread t (u.put (u.apply cpu.tmp) (s.thread t))).setCpu c { cpu with label := u.after }

section Frame

variable {m : Machine n} {s : State n} {c : Fin n} {answer : Bool}

@[simp] theorem setCpu_cpus_self (s : State n) (c : Fin n) (cpu : Cpu) :
    (s.setCpu c cpu).cpus c = cpu :=
  Function.update_self ..

/-- A CPU changes no other one. -/
theorem next_cpus_of_ne {d : Fin n} (hd : d ≠ c) : (next m s c answer).cpus d = s.cpus d := by
  have hset (s' : State n) (cpu : Cpu) : (s'.setCpu c cpu).cpus d = s'.cpus d :=
    Function.update_of_ne hd _ _
  unfold next
  split <;> simp only [] <;> (repeat' split) <;> simp only [hset, State.setThread]

end Frame

end Obos.Scheduler
