import Obos.Multitasking.Scheduler
import Obos.Lib.FlagCount

/-!
# One CPU in the scheduler

A CPU that has found no `schedulerLock` set but its own goes on to choose a thread, and clears
its flag when it has one. `schedule_exclusive` says that there is at most one such CPU, however
the CPUs take turns: `getCpusInScheduler` is the counting of `Lib.FlagCount`, one flag a step,
and `Watched.next_simulated` says that `schedule` makes no move that protocol does not have.
-/

namespace Obos.Scheduler

open Lib Obos.Multitasking Function Option

/-! ## Where a CPU is -/

/-- The parts of `schedule`. -/
inductive Phase where
  | outside
  | entering
  | entered
  | waiting
  | counting
  | backing
  | leaving
  | marking
  | calling
  | unblocking
  | scanning
  | comparing
  | rewriting
  | found
  | choosing
  | keeping
  | taking
  | releasing
  deriving DecidableEq

/-- The part an assignment belongs to. -/
def Update.phase : Update → Phase
  | .unblockIdle => .waiting
  | .backReady => .backing
  | .backStop | .backIdle => .leaving
  | .markReady | .markStop => .marking
  | .callEnter | .callLeave | .callReady => .calling
  | .scanMark | .scanClear => .scanning
  | .keepRunning => .keeping
  | .takeSlice | .takeRunning => .taking

/-- The part a statement belongs to. -/
def Label.phase : Label → Phase
  | .outside | .readCurrent => .outside
  | .testLock | .setLock => .entering
  | .testIdle | .backClear => .entered
  | .waitIdle => .waiting
  | .count => .counting
  | .backTest | .backStamp => .backing
  | .backAffinity | .backSwitch => .leaving
  | .markStamp | .markTest | .markAffinity => .marking
  | .callList | .callTest | .callSpin | .callRun | .callEnd | .callNext => .calling
  | .chooseList | .scanList => .calling
  | .scanTest | .scanSlice | .scanRun | .scanEnd | .scanZero | .scanNext => .scanning
  | .scanCompare => .comparing
  | .found | .checkRunning => .found
  | .takeAffinity | .takeCurrent => .choosing
  | .keepAffinity => .keeping
  | .release => .releasing
  | .load u => u.phase
  | .store .callReady => .unblocking
  | .store .scanMark | .store .scanClear => .rewriting
  | .store u => u.phase

/-- The flag of the CPU is set. -/
def Phase.flagged : Phase → Bool
  | .outside | .entering | .backing | .leaving => false
  | _ => true

/-- The CPU has counted itself only, and is choosing a thread. -/
def Phase.inside : Phase → Bool
  | .entered | .waiting | .counting | .releasing => false
  | p => p.flagged

variable {n : Nat}

theorem Phase.flagged_of_inside {p : Phase} (h : p.inside = true) : p.flagged = true := by
  revert h
  cases p <;> decide

/-! ## The protocol -/

/-- The scheduler together with the CPUs that have passed the test of `getCpusInScheduler` and have
not cleared their flag since. -/
structure Watched (n : Nat) where
  state : State n
  passed : Fin n → Bool

/-- The next step of the CPU passes the test. -/
def passes (s : State n) (c : Fin n) : Bool :=
  (s.cpus c).label = .count && n ≤ (s.cpus c).i && (s.cpus c).nCpusInScheduler = 1

/-- One step of `schedule` on a CPU. -/
def Watched.next (m : Machine n) (w : Watched n) (c : Fin n) (answer : Bool) : Watched n :=
  let s := Scheduler.next m w.state c answer
  ⟨s, Function.update w.passed c
    ((passes w.state c || w.passed c) && (s.cpus c).schedulerLock)⟩

/-- Nobody is in `schedule`. -/
def State.Quiet (s : State n) : Prop :=
  ∀ c, (s.cpus c).label = .outside ∧ (s.cpus c).schedulerLock = false

/-- The place of a CPU in the counting protocol. -/
def Cpu.place (cpu : Cpu) (passed : Bool) : FlagCount.Place :=
  if passed then .inside
  else if cpu.label = .count then .counting cpu.i cpu.nCpusInScheduler
  else if cpu.schedulerLock then .raised
  else .idle

open Cpu (place)

/-- The places of all CPUs. -/
def Watched.places (w : Watched n) (c : Fin n) : FlagCount.Place :=
  (w.state.cpus c).place (w.passed c)

/-- The flag of a CPU is that of the place where it is, one that is choosing a thread has passed,
and one that has passed is past the test. -/
structure Cpu.Tracked (cpu : Cpu) (passed : Bool) : Prop where
  flag : cpu.schedulerLock = cpu.label.phase.flagged
  inside : cpu.label.phase.inside = true → passed = true
  passed : passed = true → cpu.label.phase.inside = true ∨ cpu.label = .release

/-- From a statement to another one that has the same flag, without beginning to count, and without
going where a thread is chosen or coming back from there. -/
def Label.keeps (l l' : Label) : Bool :=
  l'.phase.flagged == l.phase.flagged && (l'.phase.inside == l.phase.inside || l' = .release) &&
    !(l' = .count)

/-- The CPU does not change its flag, and goes on in this way. -/
structure Cpu.Keeps (cpu cpu' : Cpu) : Prop where
  lock : cpu'.schedulerLock = cpu.schedulerLock
  label : cpu.label.keeps cpu'.label = true

section Steps

variable {m : Machine n} {s : State n} {c : Fin n} {answer : Bool}

theorem keeps_update (u : Update) :
    (Label.load u).keeps (.store u) = true ∧ (Label.store u).keeps u.after = true := by
  cases u <;> decide

/-- Most statements of `schedule` keep the flag. -/
theorem next_keeps (hl : (s.cpus c).label ∉
    [Label.count, .setLock, .testIdle, .backClear, .release]) :
    (s.cpus c).Keeps ((next m s c answer).cpus c) := by
  cases h : (s.cpus c).label with
  | count | setLock | testIdle | backClear | release =>
    rw [h] at hl
    exact absurd hl (by decide)
  | load u =>
    simp only [next, h, setCpu_cpus_self]
    exact ⟨rfl, by rw [h]; exact (keeps_update u).1⟩
  | store u =>
    simp only [next, h, setCpu_cpus_self]
    exact ⟨rfl, by rw [h]; exact (keeps_update u).2⟩
  | _ =>
    simp only [next, h]
    repeat' split
    all_goals
      simp only [setCpu_cpus_self]
      exact ⟨rfl, by rw [h]; rfl⟩

/-- The flag in the protocol is that of the CPU. -/
theorem Cpu.Tracked.flag_place {cpu : Cpu} {passed : Bool} (h : cpu.Tracked passed) :
    (cpu.place passed).flag = cpu.schedulerLock := by
  cases passed with
  | true =>
    rw [h.flag]
    rcases h.passed rfl with hin | hrelease
    · exact (Phase.flagged_of_inside hin).symm
    · rw [hrelease]
      rfl
  | false =>
    by_cases hcount : cpu.label = .count
    · rw [h.flag, place, if_pos hcount, hcount]
      rfl
    · rw [place, if_neg hcount]
      cases cpu.schedulerLock <;> rfl

/-- A CPU that keeps its flag stays where it is in the protocol. -/
theorem Cpu.Keeps.stays {cpu cpu' : Cpu} {passed : Bool} (hk : cpu.Keeps cpu')
    (h : cpu.Tracked passed) (hcount : cpu.label ≠ .count) (hrelease : cpu.label ≠ .release) :
    cpu'.Tracked (passed && cpu'.schedulerLock) ∧
      cpu'.place (passed && cpu'.schedulerLock) = cpu.place passed := by
  obtain ⟨hlock, hlabel⟩ := hk
  simp only [Label.keeps, Bool.and_eq_true, Bool.or_eq_true, beq_iff_eq, Bool.not_eq_true',
    decide_eq_true_eq, decide_eq_false_iff_not] at hlabel
  obtain ⟨⟨hflagged, hinside⟩, hcount'⟩ := hlabel
  have hflag : cpu'.schedulerLock = cpu'.label.phase.flagged := by
    rw [hlock, h.flag, hflagged]
  cases passed with
  | false =>
    refine ⟨⟨hflag, fun hin => ?_, nofun⟩, by simp [place, hcount, hcount', hlock]⟩
    rcases hinside with heq | hto
    · exact absurd (h.inside (heq ▸ hin)) Bool.false_ne_true
    · rw [hto] at hin
      cases hin
  | true =>
    have hup : cpu'.schedulerLock = true := by
      rw [hlock, ← h.flag_place]
      rfl
    rw [hup]
    refine ⟨⟨hflag, fun _ => rfl, fun _ => ?_⟩, rfl⟩
    exact hinside.imp_left fun heq => heq.trans ((h.passed rfl).resolve_right hrelease)

/-- A step of a CPU keeps its place known, and is a move of the protocol. -/
def Simulated (m : Machine n) (c : Fin n) (answer : Bool) (w : Watched n) : Prop :=
  ((w.next m c answer).state.cpus c).Tracked ((w.next m c answer).passed c) ∧
    FlagCount.Move w.places c ((w.next m c answer).places c)

variable {w : Watched n}

/-- A CPU counts, passes the test or fails it. -/
theorem next_count (hw : ∀ d, (w.state.cpus d).Tracked (w.passed d))
    (hl : (w.state.cpus c).label = .count) : Simulated m c answer w := by
  have hflag : (w.state.cpus c).schedulerLock = true := by
    rw [(hw c).flag, hl]
    rfl
  have hpassed : w.passed c = false := by
    rw [← Bool.not_eq_true]
    intro h
    have := (hw c).passed h
    rw [hl] at this
    exact absurd this (by decide)
  have hplace : w.places c = .counting (w.state.cpus c).i (w.state.cpus c).nCpusInScheduler := by
    simp [Watched.places, place, hpassed, hl]
  by_cases hi : (w.state.cpus c).i < n
  · -- it reads one flag
    have hpasses : passes w.state c = false := by
      simp [passes, hi]
    have hnext : (next m w.state c answer).cpus c = { w.state.cpus c with
        nCpusInScheduler := (w.state.cpus c).nCpusInScheduler +
          (if (w.state.cpus ⟨(w.state.cpus c).i, hi⟩).schedulerLock then 1 else 0),
        i := (w.state.cpus c).i + 1 } := by
      simp only [next, hl, dif_pos hi, setCpu_cpus_self]
    have hmove := FlagCount.Move.read ⟨(w.state.cpus c).i, hi⟩ _ hplace
    rw [Watched.places, (hw _).flag_place] at hmove
    simp only [Simulated, Watched.next, Watched.places, update_self, hpasses, hpassed,
      hnext, Bool.or_self, Bool.false_and]
    refine ⟨⟨by simp only [hflag, hl]; rfl, fun h => ?_, nofun⟩, ?_⟩
    · rw [hl] at h
      cases h
    simpa only [place, Bool.false_eq_true, if_false, hl, if_true] using hmove
  · by_cases hone : (w.state.cpus c).nCpusInScheduler = 1
    · have hpasses : passes w.state c = true := by
        simp [passes, hl, hone, Nat.le_of_not_lt hi]
      have hnext : (next m w.state c answer).cpus c = { w.state.cpus c with
          list := 3, label := if (w.state.cpus c).cur = 0 then .callList else .markStamp } := by
        simp only [next, hl, dif_neg hi, hone, ne_eq, not_true_eq_false, if_false, setCpu_cpus_self]
      rw [hone] at hplace
      have hmove := FlagCount.Move.enter _ (Nat.le_of_not_lt hi) hplace
      simp only [Simulated, Watched.next, Watched.places, update_self, hpasses, hnext,
        hflag, Bool.true_or, Bool.and_self]
      refine ⟨⟨?_, fun _ => rfl, fun _ => .inl ?_⟩, hmove⟩
      · split <;> rfl
      · split <;> rfl
    · have hpasses : passes w.state c = false := by
        simp [passes, hone]
      have hnext : (next m w.state c answer).cpus c =
          { w.state.cpus c with label := .backClear } := by
        simp only [next, hl, dif_neg hi, hone, ne_eq, not_false_eq_true, if_true, setCpu_cpus_self]
      have hmove := FlagCount.Move.stop _ _ hplace
      simp only [Simulated, Watched.next, Watched.places, update_self, hpasses, hpassed,
        hnext, Bool.or_self, Bool.false_and]
      refine ⟨⟨by simp only [hflag]; rfl, nofun, nofun⟩, ?_⟩
      simpa [place, hflag] using hmove

/-- A CPU that has not passed, or lowers its flag, goes where its flag is. -/
theorem next_not_passed (hl : (w.state.cpus c).label ≠ .count) {cpu' : Cpu}
    (hnext : (next m w.state c answer).cpus c = cpu')
    (hpassed : w.passed c = false ∨ cpu'.schedulerLock = false)
    (hflag : cpu'.schedulerLock = cpu'.label.phase.flagged) (hin : cpu'.label.phase.inside = false)
    (hmove : FlagCount.Move w.places c (cpu'.place false)) : Simulated m c answer w := by
  have hnot : ((passes w.state c || w.passed c) && cpu'.schedulerLock) = false := by
    rcases hpassed with h | h
    · simp [passes, hl, h]
    · simp [h]
  simp only [Simulated, Watched.next, Watched.places, update_self, hnext, hnot]
  exact ⟨⟨hflag, fun h => hin.symm.trans h, nofun⟩, hmove⟩

/-- A CPU that raises its flag. -/
theorem next_setLock (hw : (w.state.cpus c).Tracked (w.passed c))
    (hl : (w.state.cpus c).label = .setLock) : Simulated m c answer w := by
  obtain ⟨hflag, -, hpassed⟩ := hw
  rw [hl] at hflag hpassed
  have hnot : w.passed c = false := Bool.eq_false_iff.2 fun h => absurd (hpassed h) (by decide)
  have hnext : (next m w.state c answer).cpus c =
      { w.state.cpus c with schedulerLock := true, label := .testIdle } := by
    simp only [next, hl, setCpu_cpus_self]
  refine next_not_passed (by simp [hl]) hnext (.inl hnot) rfl rfl (.raise ?_)
  rw [Watched.places, place, hnot, hl, hflag]
  rfl

/-- A CPU whose flag is up waits for its idle thread or begins to count. -/
theorem next_testIdle (hw : (w.state.cpus c).Tracked (w.passed c))
    (hl : (w.state.cpus c).label = .testIdle) : Simulated m c answer w := by
  obtain ⟨hflag, -, hpassed⟩ := hw
  rw [hl] at hflag hpassed
  have hnot : w.passed c = false := Bool.eq_false_iff.2 fun h => absurd (hpassed h) (by decide)
  have hraised : w.places c = .raised := by
    rw [Watched.places, place, hnot, hl, hflag]
    rfl
  by_cases hidle : (w.state.cpus c).cur ≠ 0 ∧ (w.state.cpus c).cur = m.idleThread c ∧
      (w.state.thread (w.state.cpus c).cur).status &&& statusBlocked ≠ 0
  · have hnext : (next m w.state c answer).cpus c =
        { w.state.cpus c with label := .waitIdle } := by
      simp only [next, hl, if_pos hidle, setCpu_cpus_self]
    have hplace : place { w.state.cpus c with label := .waitIdle } false = w.places c := by
      rw [hraised, place, hflag]
      rfl
    refine next_not_passed (by simp [hl]) hnext (.inl hnot) hflag rfl ?_
    rw [hplace]
    exact .stay
  · have hnext : (next m w.state c answer).cpus c =
        { w.state.cpus c with i := 0, nCpusInScheduler := 0, label := .count } := by
      simp only [next, hl, if_neg hidle, setCpu_cpus_self]
    exact next_not_passed (by simp [hl]) hnext (.inl hnot) hflag rfl (.start hraised)

/-- A CPU that lowers its flag, because it backs off or because it is done. -/
theorem next_clear (hl : (w.state.cpus c).label = .backClear ∨ (w.state.cpus c).label = .release) :
    Simulated m c answer w := by
  have hnext : ∃ l ∈ [Label.outside, .backTest], (next m w.state c answer).cpus c =
      { w.state.cpus c with schedulerLock := false, label := l } := by
    rcases hl with hl | hl
    · simp only [next, hl, setCpu_cpus_self]
      split
      · exact ⟨_, by simp, rfl⟩
      · exact ⟨_, by simp, rfl⟩
    · exact ⟨.outside, by simp, by simp only [next, hl, setCpu_cpus_self]⟩
  obtain ⟨l, hmem, hnext⟩ := hnext
  have hcount : (w.state.cpus c).label ≠ .count := by
    rcases hl with hl | hl <;> simp [hl]
  simp only [List.mem_cons, List.not_mem_nil, or_false] at hmem
  rcases hmem with rfl | rfl
  · exact next_not_passed hcount hnext (.inr rfl) rfl rfl .lower
  · exact next_not_passed hcount hnext (.inr rfl) rfl rfl .lower

/-- A step of `schedule` is a move of the counting protocol. -/
theorem Watched.next_simulated (m : Machine n) (c : Fin n) (answer : Bool)
    (hw : ∀ d, (w.state.cpus d).Tracked (w.passed d)) : Simulated m c answer w := by
  by_cases hkeep : (w.state.cpus c).label ∈
      [Label.count, .setLock, .testIdle, .backClear, .release]
  · simp only [List.mem_cons, List.not_mem_nil, or_false] at hkeep
    rcases hkeep with hl | hl | hl | hl
    · exact next_count hw hl
    · exact next_setLock (hw c) hl
    · exact next_testIdle (hw c) hl
    · exact next_clear hl
  · have hcount : (w.state.cpus c).label ≠ .count := fun h => hkeep (by simp [h])
    have hrelease : (w.state.cpus c).label ≠ .release := fun h => hkeep (by simp [h])
    have hpasses : passes w.state c = false := by
      simp [passes, hcount]
    have hkeeps : (w.state.cpus c).Keeps ((Scheduler.next m w.state c answer).cpus c) :=
      next_keeps hkeep
    obtain ⟨htracked, hplace⟩ := hkeeps.stays (hw c) hcount hrelease
    simp only [Simulated, Watched.next, Watched.places, update_self, hpasses,
      Bool.false_or, hplace]
    exact ⟨htracked, .stay⟩

/-- The places of all CPUs after a step. -/
theorem Watched.next_step (m : Machine n) (c : Fin n) (answer : Bool)
    (hw : ∀ d, (w.state.cpus d).Tracked (w.passed d)) :
    FlagCount.Step w.places c (w.next m c answer).places ∧
      ∀ d, ((w.next m c answer).state.cpus d).Tracked ((w.next m c answer).passed d) := by
  obtain ⟨htracked, hmove⟩ := Watched.next_simulated m c answer hw
  have hother {d : Fin n} (hd : d ≠ c) : ((w.next m c answer).state.cpus d =
      w.state.cpus d) ∧ (w.next m c answer).passed d = w.passed d :=
    ⟨next_cpus_of_ne hd, update_of_ne hd _ _⟩
  refine ⟨⟨_, hmove, funext fun d => ?_⟩, fun d => ?_⟩
  · by_cases hd : d = c
    · rw [hd, update_self]
    · rw [update_of_ne hd, Watched.places, Watched.places, (hother hd).1, (hother hd).2]
  · by_cases hd : d = c
    · rw [hd]
      exact htracked
    · rw [(hother hd).1, (hother hd).2]
      exact hw d

/-- Before the first step. -/
theorem State.Quiet.start (hs : s.Quiet) :
    Watched.places ⟨s, fun _ => false⟩ = FlagCount.start ∧ ∀ d, (s.cpus d).Tracked false := by
  refine ⟨funext fun d => ?_, fun d => ?_⟩
  · simp [FlagCount.start, Watched.places, place, (hs d).1, (hs d).2]
  · refine ⟨?_, ?_, nofun⟩
    · rw [(hs d).1, (hs d).2]
      rfl
    · rw [(hs d).1]
      nofun

/-- The CPUs are at places of the counting protocol in which at most one is inside. -/
def Exclusive (s : State n) : Prop :=
  ∃ passed : Fin n → Bool, (∀ d, (s.cpus d).Tracked (passed d)) ∧
    FlagCount.Inv (Watched.places ⟨s, passed⟩)

theorem State.Quiet.exclusive (hs : s.Quiet) : Exclusive s :=
  ⟨fun _ => false, hs.start.2, hs.start.1 ▸ FlagCount.inv_start⟩

theorem Exclusive.next (h : Exclusive s) : Exclusive (next m s c answer) := by
  obtain ⟨passed, htracked, hinv⟩ := h
  obtain ⟨hstep, htracked'⟩ := Watched.next_step (w := ⟨s, passed⟩) m c answer htracked
  exact ⟨_, htracked', hinv.step hstep⟩

/-- No two CPUs choose a thread. -/
theorem Exclusive.unique (h : Exclusive s) {d : Fin n} (hc : (s.cpus c).label.phase.inside = true)
    (hd : (s.cpus d).label.phase.inside = true) : c = d := by
  obtain ⟨passed, htracked, hinv⟩ := h
  have hplace {c : Fin n} (hin : (s.cpus c).label.phase.inside = true) :
      Watched.places ⟨s, passed⟩ c = .inside := if_pos ((htracked c).inside hin)
  exact hinv.exclusive (hplace hc) (hplace hd)

end Steps

/-! ## Runs -/

/-- Two CPUs whose threads are on the list of normal priority, with the idle threads 11 and 12. -/
def twoCpus : Machine 2 where
  cpuId c := c.val
  idleThread c := 11 + c.val
  head i := if i = 2 then 21 else if i = 0 then 11 else 0
  tail i := if i = 2 then 22 else if i = 0 then 12 else 0
  size i := if i = 2 ∨ i = 0 then 2 else 0
  nextRun t := if t = 21 then 22 else if t = 11 then 12 else 0
  prevRun t := if t = 22 then 21 else if t = 12 then 11 else 0

/-- The CPUs run the threads 21 and 22. -/
def bothRunning : State 2 where
  cpus c := .outside (21 + c.val)
  thread t :=
    if t = 11 then { Thread.zero with
      status := statusCanRun, priority := 1, affinity := 1, ogAffinity := 1 }
    else if t = 12 then { Thread.zero with
      status := statusCanRun, priority := 1, affinity := 2, ogAffinity := 2 }
    else { Thread.zero with
      status := statusRunning, priority := 4, affinity := 3, ogAffinity := 3 }
  iterations _ := 0
  timerTicks := 0

end Obos.Scheduler
