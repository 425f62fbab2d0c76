import Obos.Multitasking.Scheduler

/-!
# The first threads

`InitializeScheduler` makes the main thread of the kernel and an idle thread for every CPU. One loop
appends the idle threads to two lists, the one of the threads of the kernel process and run list 0.
For the run list it writes the wrong fields: `next_list` of the last thread instead of `next_run`,
and `next_run` of the new thread instead of `prev_run`. The first of the two happens to be what the
other list needs, so that the list of the process is right, and run list 0 is right if there is only
one thread on it (`initializeScheduler_lists_iff`).
-/

namespace Obos.Multitasking

open Lib Function List Kernel

open Obos.Scheduler (statusRunning)

namespace Kernel

/-! ## The program -/

/-- The main thread of the kernel. -/
def mainThread (k : Kernel) (threadList : Nat) : Thread :=
  { Thread.zero with
    tid := k.nextTid
    status := statusRunning
    priority := 4
    priorityList := some 2
    threadList := threadList
    affinity := 1
    ogAffinity := 1 }

/-- The idle thread of a CPU. It is on the list of the main thread, but does not point to it. -/
def idleThread (k : Kernel) (cpuId : Nat) : Thread :=
  { Thread.zero with
    tid := k.nextTid
    status := statusCanRun
    priority := 1
    priorityList := some 0
    affinity := (1#64 <<< (cpuId % 64)).setWidth 128
    ogAffinity := (1#64 <<< (cpuId % 64)).setWidth 128 }

/-- Construct the main thread and the two lists it is on. -/
def addMainThread (k : Kernel) (main threadList : Nat) : Kernel :=
  let k := { k with nextTid := k.nextTid + 1 }.construct main (k.mainThread threadList)
  { k with
    threads := update k.threads threadList ⟨main, main, 1⟩
    priorityLists := update k.priorityLists 2
      ⟨main, main, ((k.priorityLists 2).size + 1) % 2 ^ 64⟩ }

/-- Construct the idle thread of a CPU at `obj`. -/
def constructIdle (k : Kernel) (cpuId obj : Nat) : Kernel :=
  { k with nextTid := k.nextTid + 1 }.construct obj (k.idleThread cpuId)

/-- The lines that append an idle thread to the list of the main thread's process. -/
def appendIdleList (k : Kernel) (main obj : Nat) : Kernel :=
  let proc := (k.thread main).threadList
  k.setList proc (k.list.pushBack (k.threads proc) obj)

/-- The lines that append an idle thread to run list 0. -/
def appendIdleRun (k : Kernel) (obj : Nat) : Kernel :=
  let l := k.priorityLists 0
  { k with
    -- the last thread of the run list gets a link of the other list
    list := ⟨if l.tail ≠ 0 then update k.list.next l.tail obj else k.list.next,
      k.list.prev⟩
    run := ⟨update k.run.next obj l.tail, k.run.prev⟩
    priorityLists := update k.priorityLists 0
      ⟨if l.head = 0 then obj else l.head, obj, (l.size + 1) % 2 ^ 64⟩ }

/-- The body of the loop over the CPUs, with the address `new` returns. -/
def addIdleThread (k : Kernel) (main cpuId obj : Nat) : Kernel :=
  ((k.constructIdle cpuId obj).appendIdleList main obj).appendIdleRun obj

/-- `InitializeScheduler`, with the addresses `new` returns for the main thread, for the list of the
kernel process and for the idle threads. -/
def initializeScheduler (k : Kernel) (main threadList : Nat) (idle : List Nat) : Kernel :=
  let k := k.addMainThread main threadList
  let k := { k with
    defaultAffinity := k.cpuIds.foldl (fun a cpuId => a ||| 1#64 <<< (cpuId % 64))
      k.defaultAffinity }
  (k.cpuIds.zip idle).foldl (fun k cpu => k.addIdleThread main cpu.1 cpu.2) k

end Kernel

/-- Run list 0 consists of the idle threads, and the list of the kernel process of the main thread
and the idle threads. -/
structure FirstThreads (k : Kernel) (main threadList : Nat) (idle : List Nat) : Prop where
  run : ∃ xs, xs.Perm idle ∧ (k.runList 0).IsList 0 xs
  list : ∃ xs, xs.Perm (main :: idle) ∧ (k.list.through (k.threads threadList)).IsList 0 xs

/-! ## The loop -/

/-- What the loop has made of the threads constructed so far. -/
structure Started (main threadList : Nat) (k : Kernel) (done : List Nat) : Prop where
  owner : (k.thread main).threadList = threadList
  list : (k.list.through (k.threads threadList)).IsList 0 (main :: done)
  head : (k.priorityLists 0).head = done.head?.getD 0
  tail : (k.priorityLists 0).tail = done.getLast?.getD 0
  next : ∀ x, done.head? = some x → k.run.next x = 0
  prev : ∀ x ∈ done, k.run.prev x = 0

section Loop

variable {k : Kernel} {l : ThreadList} {main threadList obj : Nat} {done idle : List Nat}

/-- The state the loop starts from. -/
theorem started_addMainThread (hmain : main ≠ 0) (hempty : k.priorityLists 0 = ⟨0, 0, 0⟩)
    (affinity : BitVec 64) :
    Started main threadList
      { k.addMainThread main threadList with defaultAffinity := affinity } [] := by
  refine ⟨?_, ⟨?_, by simp, by simp [hmain.symm]⟩, ?_, ?_, by simp, by simp⟩
  · simp [addMainThread, construct, mainThread]
  · simp [DList.Adjacent, DList.succ, DList.pred, Links.through, addMainThread,
      construct, hmain]
  · simp [addMainThread, construct, hempty]
  · simp [addMainThread, construct, hempty]

section

variable (h : Started main threadList k done)
include h

/-- A new thread is not on a list, and its links are null. -/
theorem Started.constructIdle (cpuId : Nat) (hmem : obj ∉ main :: done)
    : Started main threadList (k.constructIdle cpuId obj) done := by
  have hne : ∀ x ∈ main :: done, x ≠ obj := fun x hx he => hmem (he ▸ hx)
  refine ⟨?_, ?_, h.head, h.tail, fun x hx => ?_, fun x hx => ?_⟩
  · rw [← h.owner]
    exact congrArg _ (update_of_ne (hne main mem_cons_self) _ _)
  · refine h.list.congr rfl rfl (fun x hx => ?_) fun x hx => ?_
    · exact update_of_ne (hne x hx) _ _
    · exact update_of_ne (hne x hx) _ _
  · rw [← h.next x hx]
    exact update_of_ne (hne x (.tail _ (mem_of_mem_head? hx))) _ _
  · rw [← h.prev x hx]
    exact update_of_ne (hne x (.tail _ hx)) _ _

theorem Started.appendIdleList (hobj : obj ≠ 0) (hmem : obj ∉ main :: done)
    (hnext : k.list.next obj = 0) :
    ((k.appendIdleList main obj).list.through
      ((k.appendIdleList main obj).threads threadList)).IsList 0 (main :: (done ++ [obj])) := by
  have hpushed := h.list.pushBack hobj hmem hnext
  refine hpushed.congr ?_ ?_ (fun x _ => ?_) fun x _ => ?_
  all_goals simp [Kernel.appendIdleList, Kernel.setList, Links.through, Links.pushBack, h.owner]

omit h in
/-- The write to `next_list` of the last thread finds the value it writes. -/
theorem appendIdleRun_list (hlist : (k.list.through l).IsList 0 (main :: (done ++ [obj])))
    (htail : (k.priorityLists 0).tail = done.getLast?.getD 0) :
    (k.appendIdleRun obj).list = k.list := by
  rcases eq_nil_or_concat done with rfl | ⟨as, x, rfl⟩
  · simp [appendIdleRun, htail]
  · have htail : (k.priorityLists 0).tail = x := by simpa using htail
    have hnext : k.list.next x = obj := by
      have hsplit : main :: (as.concat x ++ [obj]) = (main :: as) ++ x :: [obj] := by simp
      rw [hsplit] at hlist
      exact hlist.neighbours.2
    have hupdate : update k.list.next x obj = k.list.next := by
      rw [← hnext, update_eq_self]
    simp only [appendIdleRun, htail, hupdate, ite_self]

/-- One round of the loop. -/
theorem Started.addIdleThread (cpuId : Nat) (hobj : obj ≠ 0) (hmem : obj ∉ main :: done) :
    Started main threadList (k.addIdleThread main cpuId obj) (done ++ [obj]) := by
  have h1 := h.constructIdle cpuId hmem
  have hlist := h1.appendIdleList hobj hmem (update_self _ _ _)
  set k1 := k.constructIdle cpuId obj with hk1
  have hprev : k1.run.prev obj = 0 := update_self _ _ _
  have hzero : 0 ∉ done := fun hx => h.list.null_notMem (.tail _ hx)
  refine ⟨h1.owner, ?_, ?_, ?_, fun x hx => ?_, fun x hx => ?_⟩
  · show (((k1.appendIdleList main obj).appendIdleRun obj).list.through _).IsList 0 _
    rw [appendIdleRun_list hlist h1.tail]
    exact hlist
  · show (if (k1.priorityLists 0).head = 0 then obj else (k1.priorityLists 0).head) = _
    rw [h1.head]
    cases done with
    | nil => rfl
    | cons y ys =>
      have hy : y ≠ 0 := fun he => hzero (he ▸ mem_cons_self)
      simp [hy]
  · simp [Kernel.addIdleThread, Kernel.appendIdleRun]
  · show update k1.run.next obj (k1.priorityLists 0).tail x = 0
    rw [h1.tail]
    cases done with
    | nil => simp_all
    | cons y ys =>
      obtain rfl : y = x := by simpa using hx
      rw [update_of_ne (fun he => hmem (by simp [he]))]
      exact h1.next y rfl
  · rcases mem_append.1 hx with hx | hx
    · exact h1.prev x hx
    · rw [mem_singleton.1 hx]
      exact hprev

/-- The loop from any state in the middle of it. -/
theorem Started.foldl_addIdleThread (cpuIds : List Nat) (hlen : cpuIds.length = idle.length)
    (hnodup : (0 :: main :: (done ++ idle)).Nodup) :
    Started main threadList
      ((cpuIds.zip idle).foldl (fun k cpu => k.addIdleThread main cpu.1 cpu.2) k)
      (done ++ idle) := by
  induction idle generalizing k done cpuIds with
  | nil => simpa using h
  | cons obj idle ih =>
    obtain ⟨cpuId, cpuIds, rfl⟩ := exists_cons_of_length_eq_add_one hlen
    have hsplit : done ++ obj :: idle = (done ++ [obj]) ++ idle := by simp
    have hobj : obj ≠ 0 := fun he => (nodup_cons.1 hnodup).1 (by simp [he])
    have hmem : obj ∉ main :: done := by
      have hcons := (nodup_cons.1 hnodup).2
      exact fun hx => (nodup_append.1 hcons).2.2 obj hx obj mem_cons_self rfl
    rw [hsplit] at hnodup ⊢
    exact ih (h.addIdleThread cpuId hobj hmem) cpuIds (by simpa using hlen) hnodup

end

theorem started_initializeScheduler (hcpus : k.cpuIds.length = idle.length)
    (hnew : (0 :: main :: idle).Nodup) (hempty : k.priorityLists 0 = ⟨0, 0, 0⟩) :
    Started main threadList (k.initializeScheduler main threadList idle) idle := by
  have hmain : main ≠ 0 := fun he => (nodup_cons.1 hnew).1 (by simp [he])
  exact (started_addMainThread hmain hempty _).foldl_addIdleThread k.cpuIds hcpus hnew

/-- Only the first thread can be on run list 0: it has no successor. -/
theorem Started.length_of_run (h : Started main threadList k idle) (hidle : idle ≠ [])
    {xs : List Nat} (hperm : xs.Perm idle) (hrun : (k.runList 0).IsList 0 xs) :
    idle.length = 1 := by
  obtain ⟨y, ys, rfl⟩ := exists_cons_of_ne_nil hidle
  obtain ⟨x, rest, rfl⟩ := exists_cons_of_ne_nil (l := xs) fun he => by simp [he] at hperm
  have hhead : x = y := by
    have hx := hrun.head_eq
    rw [show (k.runList 0).head = y from h.head] at hx
    simpa using hx.symm
  have hnext : k.run.next x = 0 := h.next x (by simp [hhead])
  have hsplit : (k.runList 0).IsList 0 ([] ++ x :: rest) := hrun
  have hneighbour : k.run.next x = (rest ++ [0]).head (by simp) := hsplit.neighbours.2
  cases rest with
  | nil => simpa using hperm.length_eq.symm
  | cons z rest =>
    have hz : z = 0 := by simpa [hnext] using hneighbour.symm
    exact absurd (by simp [hz]) hrun.null_notMem

/-- A single thread is a list. -/
theorem Started.run_of_length (h : Started main threadList k [obj]) (hobj : obj ≠ 0) :
    (k.runList 0).IsList 0 [obj] := by
  have hhead := h.head
  have htail := h.tail
  have hnext : k.run.next obj = 0 := h.next obj rfl
  have hprev : k.run.prev obj = 0 := h.prev obj mem_cons_self
  refine ⟨?_, by simp, by simp [hobj.symm]⟩
  simp [DList.Adjacent, DList.succ, DList.pred, runList, Links.through, hobj, hhead, htail,
    hnext, hprev]

end Loop

/-- The lists are those of the first threads exactly if there is one CPU. `new` returns different
addresses, and the run lists start empty. -/
theorem initializeScheduler_lists_iff (k : Kernel) (main threadList : Nat) (idle : List Nat)
    (hcpus : k.cpuIds.length = idle.length) (hpos : 1 ≤ k.cpuIds.length)
    (hnew : (0 :: main :: idle).Nodup) (hempty : k.priorityLists 0 = ⟨0, 0, 0⟩) :
    FirstThreads (k.initializeScheduler main threadList idle) main threadList idle ↔
      k.cpuIds.length = 1 := by
  have hstarted : Started main threadList (k.initializeScheduler main threadList idle) idle :=
    started_initializeScheduler hcpus hnew hempty
  rw [hcpus] at hpos ⊢
  constructor
  · intro h
    obtain ⟨xs, hperm, hrun⟩ := h.run
    exact hstarted.length_of_run (ne_nil_of_length_pos hpos) hperm hrun
  · intro hlen
    obtain ⟨obj, rfl⟩ := length_eq_one_iff.1 hlen
    have hobj : obj ≠ 0 := fun he => (nodup_cons.1 hnew).1 (by simp [he])
    exact ⟨⟨_, .refl _, hstarted.run_of_length hobj⟩, ⟨_, .refl _, hstarted.list⟩⟩

/-- The kernel before `InitializeScheduler`, on a machine with the given CPUs. -/
def Kernel.boot (cpuIds : List Nat) : Kernel where
  thread _ := Thread.zero
  run := ⟨fun _ => 0, fun _ => 0⟩
  list := ⟨fun _ => 0, fun _ => 0⟩
  priorityLists _ := ⟨0, 0, 0⟩
  threads _ := ⟨0, 0, 0⟩
  processes := []
  nextTid := 0
  defaultAffinity := 0
  cpuIds := cpuIds
  objects _ := false
  died _ := false
  deletions _ := 0

/-- One CPU. -/
theorem initializeScheduler_lists_one :
    FirstThreads ((Kernel.boot [0]).initializeScheduler 0x1000 0x2000 [0x3000])
      0x1000 0x2000 [0x3000] :=
  (initializeScheduler_lists_iff (boot [0]) 0x1000 0x2000 [0x3000] rfl (by decide)
    (by decide) rfl).2 rfl

/-- Two CPUs: the first idle thread is the head of run list 0 and has no successor, while the second
one has it as its `next_run`. -/
theorem initializeScheduler_lists_two :
    let k := (boot [0, 1]).initializeScheduler 0x1000 0x2000 [0x3000, 0x4000]
    (k.priorityLists 0).head = 0x3000 ∧ k.run.next 0x3000 = 0 ∧ k.run.next 0x4000 = 0x3000 ∧
      k.run.prev 0x4000 = 0 ∧ ¬ FirstThreads k 0x1000 0x2000 [0x3000, 0x4000] := by
  refine ⟨by decide, by decide, by decide, by decide, fun h => ?_⟩
  obtain ⟨xs, hperm, hrun⟩ := h.run
  have hstarted : Started 0x1000 0x2000
      ((boot [0, 1]).initializeScheduler 0x1000 0x2000 [0x3000, 0x4000]) [0x3000, 0x4000] :=
    started_initializeScheduler rfl (by decide) rfl
  exact absurd (hstarted.length_of_run (by decide) hperm hrun) (by decide)

end Obos.Multitasking
