import Obos.Lib.DList
import Obos.Lib.Run

/-!
# Threads and thread handles

A thread object is in two intrusive lists: the run list of its priority, through
`next_run` and `prev_run`, and the list of the threads of its process, through
`next_list` and `prev_list`. A thread handle holds a pointer to a thread object, which
counts the handles in its `references` field and is deleted when it is dead and they
are closed.

The functions are those of the class `ThreadHandle`, `ExitThreadImpl` and
`TerminateProcess`, each taken as one step. The stacks of the threads and their saved
contexts are not part of the state.
-/

namespace Obos.Multitasking

open Lib Option Function

/-! ## The state -/

/-- `THREAD_STATUS_DEAD`. -/
def statusDead : BitVec 32 := 0x01

/-- `THREAD_STATUS_CAN_RUN`. -/
def statusCanRun : BitVec 32 := 0x02

/-- `THREAD_STATUS_PAUSED`. -/
def statusPaused : BitVec 32 := 0x08

/-- `THREAD_FLAGS_IS_EXITING_PROCESS`. -/
def flagsIsExitingProcess : BitVec 32 := 0x08

/-- `Thread`, without its links. A null `priorityList` is `none`, the other pointers are addresses;
a process stands for its list of threads. -/
structure Thread where
  tid : BitVec 32
  status : BitVec 32
  priority : BitVec 32
  timeSliceIndex : BitVec 32
  exitCode : BitVec 32
  lastTimePreempted : BitVec 64
  references : BitVec 32
  flags : BitVec 32
  owner : Nat
  priorityList : Option (Fin 4)
  threadList : Nat
  affinity : BitVec 128
  ogAffinity : BitVec 128
  driverIdentity : Nat

/-- There is a first run list. -/
instance instNeZeroFour : NeZero 4 := ⟨by decide⟩

/-- The bytes of a `Thread` that is not constructed, or is deleted. -/
def Thread.zero : Thread := ⟨0, 0, 0, 0, 0, 0, 0, 0, 0, none, 0, 0, 0, 0⟩

/-- `Thread::ThreadList`. -/
structure ThreadList where
  head : Nat
  tail : Nat
  size : Nat

/-- One of the two pairs of link fields of the thread objects. -/
structure Links where
  next : Nat → Nat
  prev : Nat → Nat

/-- The thread objects and the lists they are in. `objects` are those that are constructed and not
deleted. `died` and `deletions` record what happened to the object last constructed at an address;
no function reads them. -/
structure Kernel where
  thread : Nat → Thread
  run : Links
  list : Links
  priorityLists : Fin 4 → ThreadList
  threads : Nat → ThreadList
  processes : List Nat
  nextTid : BitVec 32
  defaultAffinity : BitVec 64
  cpuIds : List Nat
  objects : Nat → Bool
  died : Nat → Bool
  deletions : Nat → Nat

/-- The errors these functions set. -/
inductive ThreadError where
  | noSuchObject
  | invalidParameter
  | alreadyExists
  | unopenedHandle
  | threadDied
  | accessDenied
  deriving DecidableEq

/-! ## The lists -/

/-- A list with the links it goes through. -/
def Links.through (links : Links) (l : ThreadList) : DList Nat :=
  ⟨links.next, links.prev, l.head, l.tail⟩

/-- Append an object to a list. -/
def Links.pushBack (links : Links) (l : ThreadList) (obj : Nat) : Links × ThreadList :=
  let d := (links.through l).pushBack 0 obj
  (⟨d.next, d.prev⟩, ⟨d.head, d.tail, (l.size + 1) % 2 ^ 64⟩)

/-- The way `SetThreadPriority` appends an object: its `prev` field is written only if the list is
not empty. -/
def Links.moveBack (links : Links) (l : ThreadList) (obj : Nat) : Links × ThreadList :=
  (⟨if l.tail ≠ 0 then update links.next l.tail obj else links.next,
    if l.tail ≠ 0 then update links.prev obj l.tail else links.prev⟩,
   ⟨if l.head = 0 then obj else l.head, obj, (l.size + 1) % 2 ^ 64⟩)

/-- Take an object out of a list. -/
def Links.unlink (links : Links) (l : ThreadList) (obj : Nat) : Links × ThreadList :=
  let d := (links.through l).unlink 0 obj
  (⟨d.next, d.prev⟩, ⟨d.head, d.tail, (l.size + (2 ^ 64 - 1)) % 2 ^ 64⟩)

/-- The way `CloseHandle` takes an object out of the list of its process: the second link is
written on the condition of the first, and through a null pointer if the object is the last. -/
def Links.unlinkClosed (links : Links) (l : ThreadList) (obj : Nat) : Option (Links × ThreadList) :=
  let next := links.next obj
  let prev := links.prev obj
  if prev ≠ 0 ∧ next = 0 then none
  else some
    (⟨if prev ≠ 0 then update links.next prev next else links.next,
      if prev ≠ 0 then update links.prev next prev else links.prev⟩,
     ⟨if l.head = obj then next else l.head, if l.tail = obj then prev else l.tail,
      (l.size + (2 ^ 64 - 1)) % 2 ^ 64⟩)

namespace Kernel

/-- A run list of the kernel. -/
def runList (k : Kernel) (i : Fin 4) : DList Nat := k.run.through (k.priorityLists i)

/-- Write the fields of a thread object. -/
def setThread (k : Kernel) (obj : Nat) (t : Thread) : Kernel :=
  { k with thread := update k.thread obj t }

/-- Write the number of references of a thread object. -/
def setReferences (k : Kernel) (obj : Nat) (references : BitVec 32) : Kernel :=
  k.setThread obj { k.thread obj with references := references }

section

variable (k : Kernel)
include k

variable (currentThread tproc obj : Nat)

variable (references : BitVec 32)

/-- Counting references changes nothing else of an object. -/
@[simp] theorem setReferences_thread (x : Nat) :
    (k.setReferences obj references).thread x = { k.thread x with
      references := if x = obj then references else (k.thread x).references } := by
  by_cases hx : x = obj
  · subst hx
    simp [setReferences, setThread]
  · simp [setReferences, setThread, hx]

@[simp] theorem setReferences_objects : (k.setReferences obj references).objects = k.objects := rfl

@[simp] theorem setReferences_died : (k.setReferences obj references).died = k.died := rfl

/-- Write the links and one of the run lists. -/
def setRun (k : Kernel) (i : Fin 4) (r : Links × ThreadList) : Kernel :=
  { k with run := r.1, priorityLists := update k.priorityLists i r.2 }

/-- Write the links and one of the lists of the processes. -/
def setList (k : Kernel) (proc : Nat) (r : Links × ThreadList) : Kernel :=
  { k with list := r.1, threads := update k.threads proc r.2 }

/-- Take an object out of the run list it points to; a null pointer faults. -/
def unlinkRun (k : Kernel) (obj : Nat) : Option Kernel :=
  (k.thread obj).priorityList.map fun i => k.setRun i (k.run.unlink (k.priorityLists i) obj)

omit k in
theorem unlinkRun_eq {k k' : Kernel} {obj : Nat} (h : k.unlinkRun obj = some k') :
    k' = { k with run := k'.run, priorityLists := k'.priorityLists } := by
  obtain ⟨i, -, rfl⟩ := map_eq_some_iff.1 h
  rfl

/-- `new Thread{}`, at the address the slab allocator gives out. -/
def construct (k : Kernel) (obj : Nat) (t : Thread) : Kernel :=
  { k with
    thread := update k.thread obj t
    run := ⟨update k.run.next obj 0, update k.run.prev obj 0⟩
    list := ⟨update k.list.next obj 0, update k.list.prev obj 0⟩
    objects := update k.objects obj true
    died := update k.died obj false
    deletions := update k.deletions obj 0 }

/-- `delete` of a thread object, which `ImplSlabFree` fills with zeros. -/
def delete (k : Kernel) (obj : Nat) : Kernel :=
  { k with
    thread := update k.thread obj Thread.zero
    run := ⟨update k.run.next obj 0, update k.run.prev obj 0⟩
    list := ⟨update k.list.next obj 0, update k.list.prev obj 0⟩
    objects := update k.objects obj false
    deletions := update k.deletions obj (k.deletions obj + 1) }

/-- Give a thread object the status of a dead thread. -/
def markDead (k : Kernel) (obj : Nat) (exitCode flags : BitVec 32) : Kernel :=
  { k with
    thread := update k.thread obj
      { k.thread obj with status := statusDead, exitCode := exitCode, flags := flags }
    died := update k.died obj true }

/-! ## Handles -/

/-- The loop of `lookForThreadInList`: the first object from `ret` on with the thread id, or null.
It does not return where the walk is not over when the fuel is. -/
def lookForThreadInList (k : Kernel) (tid : BitVec 32) : Nat → Nat → Option Nat
  | 0, _ => none
  | fuel + 1, ret =>
    if ret = 0 then some 0
    else if (k.thread ret).tid = tid then some ret
    else lookForThreadInList k tid fuel (k.run.next ret)

/-- A walk over more objects than there are addresses has met one twice, and does not end. -/
def walkFuel : Nat := 2 ^ 64

/-- The object `OpenThread` finds: the four run lists in turn. -/
def findThread (k : Kernel) (tid : BitVec 32) : Option Nat :=
  [0, 1, 2, 3].foldlM (fun obj i =>
    if obj = 0 then k.lookForThreadInList tid walkFuel (k.priorityLists i).head else some obj) 0

/-- `ThreadHandle::OpenThread`: the object the handle points to afterwards. -/
def openThread (k : Kernel) (tid : BitVec 32) : Option (Kernel × Except ThreadError Nat) :=
  (k.findThread tid).map fun obj =>
    if obj = 0 then (k, .error .noSuchObject)
    else (k.setReferences obj ((k.thread obj).references + 1), .ok obj)

/-- `__builtin_ctz`, with the value the compiled code gives for 0, for which it is undefined. -/
def ctz (ofZero : Nat) (x : BitVec 32) : Nat := ((List.range 32).find? x.getLsbD).getD ofZero

/-- The arguments of `CreateThread`, with the address `new` returns and the value of
`__builtin_ctz(0)`. -/
structure NewThread where
  obj : Nat
  ctzOfZero : Nat
  priority : BitVec 32
  affinity : BitVec 128
  process : Nat
  startPaused : Bool

variable (par : NewThread) (i : Fin 4)

/-- The first lines of `CreateThread`, which set the default affinity if there is none. -/
def fixDefaultAffinity (k : Kernel) : Kernel :=
  if k.defaultAffinity = 0 then
    { k with defaultAffinity := k.cpuIds.foldl (fun a cpuId => a ||| 1#64 <<< (cpuId % 64)) 0 }
  else k

theorem fixDefaultAffinity_eq :
    k.fixDefaultAffinity = { k with defaultAffinity := k.fixDefaultAffinity.defaultAffinity } := by
  unfold fixDefaultAffinity
  split <;> rfl

@[simp] theorem fixDefaultAffinity_thread : k.fixDefaultAffinity.thread = k.thread := by
  rw [fixDefaultAffinity_eq]

@[simp] theorem fixDefaultAffinity_objects : k.fixDefaultAffinity.objects = k.objects := by
  rw [fixDefaultAffinity_eq]

/-- The object `CreateThread` makes. -/
def newThread (k : Kernel) (currentThread : Nat) (par : NewThread) (i : Fin 4) (tproc : Nat) :
    Thread :=
  let affinity := if par.affinity = 0 then k.defaultAffinity.setWidth 128 else par.affinity
  { tid := k.nextTid
    status := statusCanRun ||| (if par.startPaused then statusPaused else 0)
    priority := par.priority
    timeSliceIndex := 0
    exitCode := 0
    lastTimePreempted := 0
    references := 1
    flags := 0
    owner := tproc
    priorityList := some i
    threadList := tproc
    affinity := affinity
    ogAffinity := affinity
    driverIdentity := (k.thread currentThread).driverIdentity }

theorem newThread_status : (k.newThread currentThread par i tproc).status ≠ statusDead := by
  simp only [newThread]
  cases par.startPaused <;> decide

/-- Construct a thread and append it to both of its lists. -/
def addThread (k : Kernel) (currentThread : Nat) (par : NewThread) (i : Fin 4) (tproc : Nat) :
    Kernel :=
  let k1 := { k with nextTid := k.nextTid + 1 }.construct par.obj
    (k.newThread currentThread par i tproc)
  let k2 := k1.setRun i (k1.run.pushBack (k1.priorityLists i) par.obj)
  k2.setList tproc (k2.list.pushBack (k2.threads tproc) par.obj)

@[simp] theorem addThread_thread :
    (k.addThread currentThread par i tproc).thread =
      update k.thread par.obj (k.newThread currentThread par i tproc) := rfl

@[simp] theorem addThread_objects :
    (k.addThread currentThread par i tproc).objects =
      update k.objects par.obj true := rfl

@[simp] theorem addThread_died :
    (k.addThread currentThread par i tproc).died =
      update k.died par.obj false := rfl

@[simp] theorem addThread_deletions :
    (k.addThread currentThread par i tproc).deletions =
      update k.deletions par.obj 0 := rfl

end

/-- `ThreadHandle::CreateThread`: the object the handle points to afterwards. A process that is null
faults. -/
def createThread (k : Kernel) (currentThread m_obj : Nat) (par : NewThread) :
    Option (Kernel × Except ThreadError Nat) :=
  if m_obj ≠ 0 then some (k, .error .alreadyExists)
  else
    let k := k.fixDefaultAffinity
    if h : ctz par.ctzOfZero par.priority < 4 then
      let tproc := if par.process ≠ 0 then par.process else (k.thread currentThread).owner
      if tproc = 0 then none
      else some (k.addThread currentThread par ⟨_, h⟩ tproc, .ok par.obj)
    else some (k, .error .invalidParameter)

/-- The run list of a priority, the `switch` of `SetThreadPriority`. -/
def priorityListOf (priority : BitVec 32) : Option (Fin 4) :=
  if priority = 1 then some 0
  else if priority = 2 then some 1
  else if priority = 4 then some 2
  else if priority = 8 then some 3
  else none

/-- `ThreadHandle::SetThreadPriority`. -/
def setThreadPriority (k : Kernel) (m_obj : Nat) (priority : BitVec 32) :
    Option (Kernel × Except ThreadError Unit) :=
  if m_obj = 0 then some (k, .error .unopenedHandle)
  else if (k.thread m_obj).status = statusDead then some (k, .error .threadDied)
  else if (k.thread m_obj).priority = priority then some (k, .ok ())
  else
    match priorityListOf priority with
    | none => some (k, .error .invalidParameter)
    | some i => (k.unlinkRun m_obj).map fun k =>
      let k := k.setRun i (k.run.moveBack (k.priorityLists i) m_obj)
      (k.setThread m_obj { k.thread m_obj with priorityList := some i, priority := priority },
        .ok ())

/-- `ThreadHandle::TerminateThread`. -/
def terminateThread (k : Kernel) (currentThread m_obj : Nat) (exitCode : BitVec 32) :
    Option (Kernel × Except ThreadError Unit) :=
  if m_obj = 0 then some (k, .error .unopenedHandle)
  else if (k.thread m_obj).status = statusDead then some (k, .error .threadDied)
  else if m_obj = currentThread then some (k, .error .accessDenied)
  else ((k.markDead m_obj exitCode (k.thread m_obj).flags).unlinkRun m_obj).map fun k => (k, .ok ())

/-- The end of `CloseHandle` where the last reference to a dead thread is given up. -/
def deleteClosed (k : Kernel) (obj : Nat) : Option Kernel :=
  let proc := (k.thread obj).threadList
  if proc = 0 then none
  else (k.list.unlinkClosed (k.threads proc) obj).map fun r => (k.setList proc r).delete obj

/-- `ThreadHandle::CloseHandle`: the pointer the handle holds afterwards. The references of a thread
that is not dead are not counted down, and a handle whose object is deleted keeps its pointer. -/
def closeHandle (k : Kernel) (m_obj : Nat) : Option (Kernel × Except ThreadError Nat) :=
  if m_obj = 0 then some (k, .error .unopenedHandle)
  else if (k.thread m_obj).status = statusDead then
    let references := (k.thread m_obj).references - 1
    let k := k.setReferences m_obj references
    if references = 0 then (k.deleteClosed m_obj).map fun k => (k, .ok m_obj)
    else some (k, .ok 0)
  else some (k, .ok 0)

/-! ## What the calls on handles can do -/

section Cases

variable {k k' : Kernel} {currentThread m_obj obj : Nat}

variable {r : Except ThreadError Nat}

/-- `OpenThread` counts the handle on the object it finds. -/
theorem openThread_cases {tid : BitVec 32} (h : k.openThread tid = some (k', r)) :
    (k.findThread tid = some 0 ∧ k' = k ∧ r = .error .noSuchObject) ∨
      ∃ obj, k.findThread tid = some obj ∧ obj ≠ 0 ∧ r = .ok obj ∧
        k' = k.setReferences obj ((k.thread obj).references + 1) := by
  obtain ⟨obj, hfind, heq⟩ := map_eq_some_iff.1 h
  by_cases hobj : obj = 0
  · rw [if_pos hobj] at heq
    cases heq
    exact .inl ⟨hobj ▸ hfind, rfl, rfl⟩
  · rw [if_neg hobj] at heq
    cases heq
    exact .inr ⟨obj, hfind, hobj, rfl, rfl⟩

/-- `CreateThread` fails, with the default affinity set, or adds a thread to the list of the lowest
bit of its priority. -/
theorem createThread_cases {par : NewThread}
    (h : k.createThread currentThread m_obj par = some (k', r)) :
    ((k' = k ∨ k' = k.fixDefaultAffinity) ∧ ∃ e, r = .error e) ∨
      ∃ i : Fin 4, ∃ tproc, m_obj = 0 ∧ ctz par.ctzOfZero par.priority = i ∧
        k' = k.fixDefaultAffinity.addThread currentThread par i tproc ∧ r = .ok par.obj := by
  unfold createThread at h
  split at h
  · cases h
    exact .inl ⟨.inl rfl, _, rfl⟩
  · rename_i hnull
    by_cases hlist : ctz par.ctzOfZero par.priority < 4
    · rw [dif_pos hlist] at h
      generalize (if par.process ≠ 0 then par.process
        else (k.fixDefaultAffinity.thread currentThread).owner) = tproc at h
      by_cases hproc : tproc = 0
      · rw [if_pos hproc] at h
        cases h
      · rw [if_neg hproc] at h
        cases h
        exact .inr ⟨⟨_, hlist⟩, tproc, not_not.1 hnull, rfl, rfl, rfl⟩
    · rw [dif_neg hlist] at h
      cases h
      exact .inl ⟨.inr rfl, _, rfl⟩

/-- `SetThreadPriority` fails, or moves a thread that is not dead. -/
theorem setThreadPriority_cases {priority : BitVec 32} {r : Except ThreadError Unit}
    (h : k.setThreadPriority m_obj priority = some (k', r)) :
    k' = k ∨
      ∃ i k1, m_obj ≠ 0 ∧ (k.thread m_obj).status ≠ statusDead ∧
        (k.thread m_obj).priority ≠ priority ∧ priorityListOf priority = some i ∧
        k.unlinkRun m_obj = some k1 ∧
        k' = (k1.setRun i (k1.run.moveBack (k1.priorityLists i) m_obj)).setThread m_obj
          { k1.thread m_obj with priorityList := some i, priority := priority } := by
  unfold setThreadPriority at h
  split at h
  · cases h
    exact .inl rfl
  split at h
  · cases h
    exact .inl rfl
  split at h
  · cases h
    exact .inl rfl
  split at h
  · cases h
    exact .inl rfl
  · rename_i hnull hdead hsame _ i hi
    obtain ⟨k1, hunlink, heq⟩ := map_eq_some_iff.1 h
    cases heq
    exact .inr ⟨i, k1, hnull, hdead, hsame, hi, hunlink, rfl⟩

/-- `TerminateThread` fails, or kills a thread that is neither dead nor the caller. -/
theorem terminateThread_cases {exitCode : BitVec 32} {r : Except ThreadError Unit}
    (h : k.terminateThread currentThread m_obj exitCode = some (k', r)) :
    (k' = k ∧ (m_obj = 0 ∨ (k.thread m_obj).status = statusDead ∨ m_obj = currentThread)) ∨
      (m_obj ≠ 0 ∧ (k.thread m_obj).status ≠ statusDead ∧
        (k.markDead m_obj exitCode (k.thread m_obj).flags).unlinkRun m_obj = some k') := by
  unfold terminateThread at h
  split at h
  · rename_i hnull
    cases h
    exact .inl ⟨rfl, .inl hnull⟩
  split at h
  · rename_i hdead
    cases h
    exact .inl ⟨rfl, .inr (.inl hdead)⟩
  split at h
  · rename_i hcurrent
    cases h
    exact .inl ⟨rfl, .inr (.inr hcurrent)⟩
  · rename_i hnull hdead _
    obtain ⟨k1, hunlink, heq⟩ := map_eq_some_iff.1 h
    cases heq
    exact .inr ⟨hnull, hdead, hunlink⟩

/-- `CloseHandle` counts the handle down only if the thread is dead, and deletes the object with the
last reference. -/
theorem closeHandle_cases (h : k.closeHandle m_obj = some (k', r)) :
    (m_obj = 0 ∧ k' = k ∧ r = .error .unopenedHandle) ∨
      (m_obj ≠ 0 ∧ (k.thread m_obj).status ≠ statusDead ∧ k' = k ∧ r = .ok 0) ∨
      (m_obj ≠ 0 ∧ (k.thread m_obj).status = statusDead ∧ (k.thread m_obj).references - 1 ≠ 0 ∧
        k' = k.setReferences m_obj ((k.thread m_obj).references - 1) ∧ r = .ok 0) ∨
      (m_obj ≠ 0 ∧ (k.thread m_obj).status = statusDead ∧ (k.thread m_obj).references - 1 = 0 ∧
        r = .ok m_obj ∧ ∃ proc list, k' = ((k.setReferences m_obj 0).setList proc list).delete
          m_obj) := by
  unfold closeHandle at h
  split at h
  · rename_i hnull
    cases h
    exact .inl ⟨hnull, rfl, rfl⟩
  rename_i hnull
  split at h
  · rename_i hdead
    simp only at h
    split at h
    · rename_i hlast
      obtain ⟨k1, hdelete, heq⟩ := map_eq_some_iff.1 h
      cases heq
      unfold deleteClosed at hdelete
      simp only at hdelete
      split at hdelete
      · cases hdelete
      · obtain ⟨list, -, rfl⟩ := map_eq_some_iff.1 hdelete
        rw [hlast]
        exact .inr (.inr (.inr ⟨hnull, hdead, rfl, rfl, _, list, rfl⟩))
    · rename_i hlast
      cases h
      exact .inr (.inr (.inl ⟨hnull, hdead, hlast, rfl, rfl⟩))
  · rename_i hdead
    cases h
    exact .inr (.inl ⟨hnull, hdead, rfl, rfl⟩)

end Cases

/-! ## Exit -/

/-- The pointer a handle holds after a call. -/
def pointer (m_obj : Nat) : Except ThreadError Nat → Nat
  | .ok obj => obj
  | .error _ => m_obj

/-- One thread of the loop of `TerminateProcess`: it is opened by its id, terminated and closed, and
the handle is destroyed. -/
def terminateOpened (k : Kernel) (currentThread : Nat) (tid : BitVec 32) : Option Kernel := do
  let (k, opened) ← k.openThread tid
  let (k, _) ← k.terminateThread currentThread (pointer 0 opened) 0
  let (k, closed) ← k.closeHandle (pointer 0 opened)
  let (k, _) ← k.closeHandle (pointer (pointer 0 opened) closed)
  some k

/-- The loop of `TerminateProcess` over the threads of the process. -/
def terminateThreads (currentThread : Nat) : Nat → Nat → Kernel → Option Kernel
  | 0, _, _ => none
  | fuel + 1, thread, k =>
    if thread = 0 then some k
    else do
      let next := k.list.next thread
      let k ← k.terminateOpened currentThread (k.thread thread).tid
      terminateThreads currentThread fuel next k

/-- `TerminateProcess`, and whether it returns. A process that is not in the list is an error; a
thread that terminates its own process goes on in `ExitProcessCallback`, which leaves a dead thread
as it is and calls the scheduler. -/
def terminateProcess (k : Kernel) (currentThread process : Nat) (isCurrentProcess : Bool) :
    Option (Kernel × Bool) :=
  if process ∉ k.processes then some (k, true)
  else
    (terminateThreads currentThread walkFuel (k.threads process).head k).map fun k =>
      let t := k.thread currentThread
      if t.owner ≠ process ∧ isCurrentProcess = false then (k, true)
      else (k.setThread currentThread { t with flags := t.flags ||| flagsIsExitingProcess }, false)

/-- `SlabHasObject`: the search of `HasNode` returns true whether it finds the object or not. -/
def slabHasObject (_obj : Nat) : Bool := true

/-- Take an object out of the list of its process. -/
def unlinkList (k : Kernel) (obj : Nat) : Kernel :=
  let proc := (k.thread obj).threadList
  k.setList proc (k.list.unlink (k.threads proc) obj)

/-- The end of `ExitThreadImpl` for a thread no handle refers to. Terminating the process of its
last thread does not return, and the object is not deleted then. -/
def reap (k : Kernel) (currentThread : Nat) : Option Kernel :=
  let t := k.thread currentThread
  if t.threadList = 0 then none
  else if ((k.unlinkList currentThread).threads t.threadList).size = 0 then
    ((k.unlinkList currentThread).terminateProcess currentThread t.owner true).map fun r =>
      if r.2 then r.1.delete currentThread else r.1
  else some ((k.unlinkList currentThread).delete currentThread)

/-- `ExitThreadImpl`, up to the freeing of the stack. -/
def exitThreadImpl (k : Kernel) (currentThread : Nat) (exitCode : BitVec 32) : Option Kernel :=
  if slabHasObject currentThread then
    ((k.markDead currentThread exitCode 0).unlinkRun currentThread).bind fun k =>
      if (k.thread currentThread).references = 0 then k.reap currentThread else some k
  else some k

section Cases

variable {k k' : Kernel} {currentThread : Nat}

/-- `TerminateProcess` of the caller's own process returns only if there is no such process. -/
theorem terminateProcess_cases {process : Nat} {returns : Bool}
    (h : k.terminateProcess currentThread process true = some (k', returns)) :
    (process ∉ k.processes ∧ k' = k ∧ returns = true) ∨
      (process ∈ k.processes ∧ returns = false ∧ ∃ k1 flags,
        terminateThreads currentThread walkFuel (k.threads process).head k = some k1 ∧
        k' = k1.setThread currentThread { k1.thread currentThread with flags := flags }) := by
  unfold terminateProcess at h
  split at h
  · rename_i hno
    cases h
    exact .inl ⟨hno, rfl, rfl⟩
  · rename_i hyes
    obtain ⟨k1, hloop, heq⟩ := map_eq_some_iff.1 h
    rw [if_neg (by simp)] at heq
    cases heq
    exact .inr ⟨not_not.1 hyes, rfl, k1, _, hloop, rfl⟩

/-- The object of a thread without handles is deleted, unless the thread is the last of a
process. -/
theorem reap_cases (h : k.reap currentThread = some k') :
    (k' = (k.unlinkList currentThread).delete currentThread ∧
        (((k.unlinkList currentThread).threads (k.thread currentThread).threadList).size ≠ 0 ∨
          (k.thread currentThread).owner ∉ k.processes)) ∨
      (((k.unlinkList currentThread).threads (k.thread currentThread).threadList).size = 0 ∧
        (k.thread currentThread).owner ∈ k.processes ∧ ∃ k1 flags,
          terminateThreads currentThread walkFuel
            ((k.unlinkList currentThread).threads (k.thread currentThread).owner).head
            (k.unlinkList currentThread) = some k1 ∧
          k' = k1.setThread currentThread { k1.thread currentThread with flags := flags }) := by
  unfold reap at h
  simp only at h
  split at h
  · cases h
  split at h
  · rename_i hsize
    obtain ⟨⟨k1, returns⟩, hterminate, rfl⟩ := map_eq_some_iff.1 h
    rcases terminateProcess_cases hterminate with ⟨hno, rfl, rfl⟩ | ⟨hyes, rfl, hloop⟩
    · exact .inl ⟨rfl, .inr hno⟩
    · exact .inr ⟨hsize, hyes, hloop⟩
  · rename_i hsize
    cases h
    exact .inl ⟨rfl, .inl hsize⟩

/-- `ExitThreadImpl` kills the caller, and reaps it if it has no references. -/
theorem exitThreadImpl_cases {exitCode : BitVec 32}
    (h : k.exitThreadImpl currentThread exitCode = some k') :
    ∃ k1, (k.markDead currentThread exitCode 0).unlinkRun currentThread = some k1 ∧
      (((k.thread currentThread).references ≠ 0 ∧ k' = k1) ∨
        ((k.thread currentThread).references = 0 ∧ k1.reap currentThread = some k')) := by
  obtain ⟨k1, hkill, hrest⟩ := bind_eq_some_iff.1 h
  have hreferences :
      (k1.thread currentThread).references = (k.thread currentThread).references := by
    rw [unlinkRun_eq hkill]
    simp [markDead]
  rw [hreferences] at hrest
  refine ⟨k1, hkill, ?_⟩
  split at hrest
  · rename_i hzero
    exact .inr ⟨hzero, hrest⟩
  · rename_i hne
    cases hrest
    exact .inl ⟨hne, rfl⟩

end Cases

end Kernel

/-! ## Runs -/

/-- A kernel with its thread handles. `m_obj` is the pointer each handle holds; `opened` records the
object it was opened on and not closed since, which no function reads. -/
structure System (H : Type) where
  kernel : Kernel
  m_obj : H → Nat
  opened : H → Option Nat

/-- The calls a thread makes. -/
inductive Call (H : Type) where
  | openThread (h : H) (tid : BitVec 32)
  | createThread (h : H) (par : Kernel.NewThread)
  | setThreadPriority (h : H) (priority : BitVec 32)
  | terminateThread (h : H) (exitCode : BitVec 32)
  | closeHandle (h : H)
  | exitThread (exitCode : BitVec 32)

namespace System

variable {H : Type} [DecidableEq H]

/-- Store what `OpenThread` or `CreateThread` did to a handle. -/
def assign (s : System H) (h : H) (r : Kernel × Except ThreadError Nat) : System H :=
  match r.2 with
  | .ok obj => ⟨r.1, update s.m_obj h obj, update s.opened h (some obj)⟩
  | .error _ => { s with kernel := r.1 }

/-- Store what `CloseHandle` did to a handle. -/
def release (s : System H) (h : H) (r : Kernel × Except ThreadError Nat) : System H :=
  match r.2 with
  | .ok obj => ⟨r.1, update s.m_obj h obj, update s.opened h none⟩
  | .error _ => { s with kernel := r.1 }

/-- A call made by the thread `currentThread`. -/
def call (s : System H) (currentThread : Nat) : Call H → Option (System H)
  | .openThread h tid => (s.kernel.openThread tid).map (s.assign h)
  | .createThread h par => (s.kernel.createThread currentThread (s.m_obj h) par).map (s.assign h)
  | .setThreadPriority h priority =>
    (s.kernel.setThreadPriority (s.m_obj h) priority).map fun r => { s with kernel := r.1 }
  | .terminateThread h exitCode =>
    (s.kernel.terminateThread currentThread (s.m_obj h) exitCode).map fun r =>
      { s with kernel := r.1 }
  | .closeHandle h => (s.kernel.closeHandle (s.m_obj h)).map (s.release h)
  | .exitThread exitCode =>
    (s.kernel.exitThreadImpl currentThread exitCode).map fun k => { s with kernel := k }

/-- A call is made by a thread that exists and is not dead, and `new` gives out an address at which
there is no thread object. -/
def Possible (s : System H) (currentThread : Nat) (c : Call H) : Prop :=
  (s.kernel.objects currentThread = true ∧ (s.kernel.thread currentThread).status ≠ statusDead) ∧
    match c with
    | .createThread _ par => 0 < par.obj ∧ par.obj < 2 ^ 64 ∧ s.kernel.objects par.obj = false
    | _ => True

/-- A step of the system: a thread, and the call it makes. -/
def Step (s : System H) (a : Nat × Call H) (s' : System H) : Prop :=
  s.Possible a.1 a.2 ∧ s.call a.1 a.2 = some s'

end System

end Obos.Multitasking
