import Obos.Multitasking.Exclusion

/-!
# One CPU for every thread

No two CPUs run the same thread: `schedule` takes a thread only if its status says that
it can run and is not running, and only one CPU at a time looks for one.

The path that backs off makes the current thread runnable before it replaces it, with the
flag of the CPU already clear, so that another CPU can find the thread in between.
`currentThread_distinct` says that no two CPUs have the same current thread in every run in
which no CPU tests a thread that another one is leaving in this way.
-/

namespace Obos.Scheduler

open Lib Obos.Multitasking Function

/-! ## The invariant -/

/-- The CPU is leaving its current thread, which it has made runnable. -/
def Phase.leaves : Phase → Bool
  | .leaving => true
  | _ => false

variable {n : Nat}

/-- No other CPU runs the thread or has it for its idle thread. -/
def Free (m : Machine n) (s : State n) (c : Fin n) (t : Nat) : Prop :=
  ∀ d ≠ c, (s.cpus d).currentThread ≠ t ∧ m.idleThread d ≠ t

/-- A status that was read with the bit `THREAD_STATUS_CAN_RUN` is not that of a thread another CPU
is running, unless it is leaving it or idle. -/
def Stale (m : Machine n) (s : State n) (c : Fin n) (cpu : Cpu) : Prop :=
  cpu.tmp.getLsbD 1 = true → ∀ d ≠ c, (s.cpus d).currentThread = cpu.thread → cpu.thread ≠ 0 →
    cpu.thread = m.idleThread d ∨ (s.cpus d).label.phase.leaves = true

/-- What a CPU knows in a part of `schedule`. -/
def Knows (m : Machine n) (s : State n) (c : Fin n) (cpu : Cpu) : Phase → Prop
  | .outside | .releasing => True
  | .entering | .entered | .counting | .calling | .keeping => cpu.cur = cpu.currentThread
  | .waiting => cpu.cur = cpu.currentThread ∧ cpu.cur = m.idleThread c
  | .backing | .leaving | .marking => cpu.cur = cpu.currentThread ∧ cpu.cur ≠ 0
  | .unblocking => cpu.cur = cpu.currentThread ∧ Stale m s c cpu
  | .scanning => cpu.cur = cpu.currentThread ∧ (cpu.ret ≠ 0 → Free m s c cpu.ret)
  | .comparing => cpu.cur = cpu.currentThread ∧ (cpu.ret ≠ 0 → Free m s c cpu.ret) ∧
      (cpu.thread ≠ 0 → Free m s c cpu.thread)
  | .rewriting => cpu.cur = cpu.currentThread ∧ (cpu.ret ≠ 0 → Free m s c cpu.ret) ∧
      Stale m s c cpu
  | .found => cpu.cur = cpu.currentThread ∧ (cpu.newThread ≠ 0 → Free m s c cpu.newThread)
  | .choosing => cpu.cur = cpu.currentThread ∧ Free m s c cpu.newThread
  | .taking => cpu.newThread = cpu.currentThread

/-- The current thread of a CPU that is neither choosing nor leaving it, and is not an idle thread,
does not look runnable. -/
def Settled (m : Machine n) (thread : Nat → Thread) (cpu : Cpu) : Prop :=
  cpu.currentThread ≠ 0 → (∀ d, cpu.currentThread ≠ m.idleThread d) →
    cpu.label.phase.inside = false → cpu.label.phase.leaves = false →
    (thread cpu.currentThread).status.getLsbD 1 = false

/-- An idle thread may run on its own CPU only. -/
def IdleBound (m : Machine n) (thread : Nat → Thread) : Prop :=
  ∀ d e, e ≠ d → (thread (m.idleThread d)).affinity.getLsbD (m.cpuId e) = false ∧
    (thread (m.idleThread d)).ogAffinity.getLsbD (m.cpuId e) = false

/-- What holds in every state of a run. -/
structure Inv (m : Machine n) (s : State n) : Prop where
  knows : ∀ c, Knows m s c (s.cpus c) (s.cpus c).label.phase
  distinct : ∀ c d, c ≠ d → (s.cpus c).currentThread = (s.cpus d).currentThread →
    (s.cpus c).currentThread = 0
  idle : ∀ c d, (s.cpus c).currentThread = m.idleThread d → c = d
  bound : IdleBound m s.thread
  settled : ∀ c, Settled m s.thread (s.cpus c)

/-- The CPUs have ids below 64 and idle threads of their own. -/
structure Machine.Ready (m : Machine n) : Prop where
  cpuId_lt : ∀ c, m.cpuId c < 64
  cpuId_inj : ∀ c d, m.cpuId c = m.cpuId d → c = d
  idle_ne : ∀ c, m.idleThread c ≠ 0
  idle_inj : ∀ c d, m.idleThread c = m.idleThread d → c = d

/-- No CPU tests a thread that another one is leaving. -/
def Undisturbed (s : State n) (c : Fin n) : Prop :=
  (s.cpus c).label = .scanRun → ∀ d ≠ c, (s.cpus d).label.phase.leaves = true →
    (s.cpus d).currentThread ≠ (s.cpus c).thread

instance (s : State n) (c : Fin n) : Decidable (Undisturbed s c) :=
  inferInstanceAs (Decidable (_ → ∀ _, _ → _ → _))

/-! ## What one CPU may change -/

section Update

variable {m : Machine n} {s s' : State n} {c : Fin n} {cpu : Cpu}

/-- What a CPU knows stays true if threads that are free stay free and what it has read stays
stale. -/
theorem Knows.mono {p : Phase} (h : Knows m s c cpu p)
    (hfree : ∀ t, p.inside = true → Free m s c t → Free m s' c t)
    (hstale : p.inside = true → Stale m s c cpu → Stale m s' c cpu) : Knows m s' c cpu p := by
  cases p with
  | unblocking => exact ⟨h.1, hstale rfl h.2⟩
  | scanning => exact ⟨h.1, fun hne => hfree _ rfl (h.2 hne)⟩
  | comparing => exact ⟨h.1, fun hne => hfree _ rfl (h.2.1 hne), fun hne => hfree _ rfl (h.2.2 hne)⟩
  | rewriting => exact ⟨h.1, fun hne => hfree _ rfl (h.2.1 hne), hstale rfl h.2.2⟩
  | found => exact ⟨h.1, fun hne => hfree _ rfl (h.2 hne)⟩
  | choosing => exact ⟨h.1, hfree _ rfl h.2⟩
  | _ => exact h

theorem Knows.congr {p : Phase} (h : Knows m s c cpu p) (hsame : ∀ d ≠ c, s'.cpus d = s.cpus d) :
    Knows m s' c cpu p := by
  refine h.mono (fun t _ ht d hd => ?_) fun _ hst htmp d hd => ?_
  · rw [hsame d hd]
    exact ht d hd
  · rw [hsame d hd]
    exact hst htmp d hd

/-- What a CPU knows of the others stays true when another one goes to its idle thread, or chooses
one while this one does not. -/
theorem Knows.frame {p : Phase} {d : Fin n} {cpu' : Cpu} (h : Knows m s d cpu p)
    (hcpus : s'.cpus = update s.cpus c cpu') (hcurrent : p.inside = true →
      cpu'.currentThread = (s.cpus c).currentThread ∨ cpu'.currentThread = m.idleThread c)
    (hleaving : (s.cpus c).label.phase.leaves = true →
      cpu'.label.phase.leaves = true ∨ cpu'.currentThread = m.idleThread c) :
    Knows m s' d cpu p := by
  refine h.mono (fun t hin ht e he => ⟨?_, (ht e he).2⟩) fun hin hst htmp e he => ?_
  · rw [hcpus]
    by_cases hec : e = c
    · subst hec
      rw [update_self]
      rcases hcurrent hin with hsame | hidle
      · rw [hsame]
        exact (ht e he).1
      · rw [hidle]
        exact (ht e he).2
    · rw [update_of_ne hec]
      exact (ht e he).1
  · rw [hcpus]
    by_cases hec : e = c
    · subst hec
      rw [update_self]
      intro heq hne
      rcases hcurrent hin with hsame | hidle
      · rcases hst htmp e he (hsame ▸ heq) hne with hidle | hleave
        · exact .inl hidle
        · rcases hleaving hleave with hleave' | hidle
          · exact .inr hleave'
          · exact .inl (heq ▸ hidle)
      · exact .inl (heq ▸ hidle)
    · rw [update_of_ne hec]
      exact hst htmp e he

/-- A step of one CPU keeps the invariant if it keeps what the others rely on. -/
theorem Inv.update (hm : m.Ready) (hx : Exclusive s) (hs : Inv m s) {cpu' : Cpu}
    (hcpus : s'.cpus = update s.cpus c cpu') (hknows : Knows m s c cpu' cpu'.label.phase)
    (hcurrent : cpu'.currentThread = (s.cpus c).currentThread ∨
      cpu'.currentThread = m.idleThread c ∨
      ((s.cpus c).label.phase.inside = true ∧ Free m s c cpu'.currentThread))
    (hleaving : (s.cpus c).label.phase.leaves = true →
      cpu'.label.phase.leaves = true ∨ cpu'.currentThread = m.idleThread c)
    (hbound : IdleBound m s'.thread)
    (hothers : ∀ d ≠ c, Settled m s.thread (s.cpus d) → Settled m s'.thread (s.cpus d))
    (hself : Settled m s'.thread cpu') : Inv m s' := by
  have hat : s'.cpus c = cpu' := by rw [hcpus, update_self]
  have hother : ∀ d ≠ c, s'.cpus d = s.cpus d := fun d hd => by
    rw [hcpus, update_of_ne hd]
  -- the current threads of the others are not the new one
  have hnew {d : Fin n} (hd : d ≠ c) (heq : cpu'.currentThread = (s.cpus d).currentThread) :
      cpu'.currentThread = 0 := by
    rcases hcurrent with hsame | hidle | ⟨-, hfree⟩
    · rw [hsame] at heq ⊢
      exact hs.distinct c d hd.symm heq
    · exact absurd (hs.idle d c (heq ▸ hidle)) hd
    · exact absurd heq.symm (hfree d hd).1
  refine ⟨fun d => ?_, fun d e hde heq => ?_, fun d e heq => ?_, hbound, fun d => ?_⟩
  · by_cases hd : d = c
    · subst hd
      rw [hat]
      exact hknows.congr hother
    · rw [hother d hd]
      refine (hs.knows d).frame hcpus (fun hin => ?_) hleaving
      rcases hcurrent with hsame | hidle | ⟨hin', -⟩
      · exact Or.inl hsame
      · exact Or.inr hidle
      · exact absurd (hx.unique hin hin') hd
  · by_cases hd : d = c
    · subst hd
      rw [hat, hother e (Ne.symm hde)] at heq
      rw [hat]
      exact hnew (Ne.symm hde) heq
    · by_cases he : e = c
      · subst he
        rw [hat, hother d hd] at heq
        rw [hother d hd, heq]
        exact hnew hd heq.symm
      · rw [hother d hd, hother e he] at heq
        rw [hother d hd]
        exact hs.distinct d e hde heq
  · by_cases hd : d = c
    · subst hd
      rw [hat] at heq
      rcases hcurrent with hsame | hidle | ⟨-, hfree⟩
      · exact hs.idle d e (hsame ▸ heq)
      · exact hm.idle_inj d e (hidle ▸ heq)
      · by_contra hne
        exact (hfree e (Ne.symm hne)).2 heq.symm
    · rw [hother d hd] at heq
      exact hs.idle d e heq
  · by_cases hd : d = c
    · subst hd
      rw [hat]
      exact hself
    · rw [hother d hd]
      exact hothers d hd (hs.settled d)

end Update

/-! ## The steps -/

section Steps

variable {m : Machine n} {s s' : State n} {c : Fin n} {cpu' : Cpu}

variable {f : Nat → Thread} {t : Nat} {u : Update}

theorem update_field {β : Type} (field : Thread → β) {thread : Thread}
    (h : field thread = field (f t)) (x : Nat) : field (update f t thread x) = field (f x) := by
  by_cases hx : x = t
  · rw [hx, update_self, h]
  · rw [update_of_ne hx]

theorem IdleBound.write (h : IdleBound m f) {thread : Thread}
    (haffinity : thread.affinity = (f t).affinity) (hog : thread.ogAffinity = (f t).ogAffinity) :
    IdleBound m (update f t thread) := by
  intro d e hne
  rw [update_field Thread.affinity haffinity, update_field Thread.ogAffinity hog]
  exact h d e hne

/-- The affinity a thread was created with keeps an idle thread bound. -/
theorem IdleBound.restore (h : IdleBound m f) (t : Nat) :
    IdleBound m (update f t { f t with affinity := (f t).ogAffinity }) := by
  intro d e hne
  by_cases hd : m.idleThread d = t
  · rw [hd, update_self, ← hd]
    exact ⟨(h d e hne).2, (h d e hne).2⟩
  · rw [update_of_ne hd]
    exact h d e hne

/-- The affinity with one CPU keeps the idle thread of that CPU bound. -/
theorem IdleBound.pin (h : IdleBound m f) {affinity : BitVec 128}
    (hidle : ∀ d ≠ c, m.idleThread d ≠ t) (hbits : ∀ e ≠ c, affinity.getLsbD (m.cpuId e) = false) :
    IdleBound m (update f t { f t with affinity := affinity }) := by
  intro d e hne
  by_cases hd : m.idleThread d = t
  · have hdc : d = c := by
      by_contra hdc
      exact hidle d hdc hd
    rw [hd, update_self, ← hd]
    exact ⟨hbits e (hdc ▸ hne), (h d e hne).2⟩
  · rw [update_of_ne hd]
    exact h d e hne

theorem shift_getLsbD {i j : Nat} (hne : j ≠ i) : (1#128 <<< i).getLsbD j = false := by
  rcases Nat.lt_or_gt_of_ne hne with h | h
  · simp [h]
  · simp [Nat.sub_ne_zero_of_lt h]

/-- The 64-bit shift gives the same affinity. -/
theorem shift_setWidth {i : Nat} (h : i < 64) : (1#64 <<< (i % 64)).setWidth 128 = 1#128 <<< i := by
  rw [Nat.mod_eq_of_lt h]
  apply BitVec.eq_of_getLsbD_eq
  intro j hj
  by_cases hji : j = i
  · simp [hji, h]
  · by_cases hlt : j < i
    · simp [hlt]
    · simp [Nat.sub_ne_zero_of_lt (Nat.lt_of_le_of_ne (Nat.le_of_not_lt hlt) (Ne.symm hji))]

theorem Update.apply_getLsbD (hu : u = .callReady ∨ u = .scanMark ∨ u = .scanClear)
    (v : BitVec 32) : (u.apply v).getLsbD 1 = v.getLsbD 1 := by
  rcases hu with rfl | rfl | rfl <;>
    simp [Update.apply, statusBlocked, statusClearTimeSliceIndex]

theorem running_getLsbD (v : BitVec 32) :
    ((v &&& ~~~statusCanRun) ||| statusRunning).getLsbD 1 = false := by
  simp [statusCanRun, statusRunning]

section Moves

variable (hm : m.Ready) (hx : Exclusive s) (hs : Inv m s) {l : Label} (hl : (s.cpus c).label = l)
  (hcpus : s'.cpus = Function.update s.cpus c cpu')
include hm hx hs hl hcpus

/-- A step that does not write the status of a thread or the current thread of the CPU. -/
theorem Inv.quiet (hstatus : ∀ x, (s'.thread x).status = (s.thread x).status)
    (hbound : IdleBound m s'.thread) (hknows : Knows m s c cpu' cpu'.label.phase)
    (hcurrent : cpu'.currentThread = (s.cpus c).currentThread)
    (hinside : (!l.phase.inside || cpu'.label.phase.inside) = true)
    (hleaving : cpu'.label.phase.leaves = l.phase.leaves) : Inv m s' := by
  subst hl
  refine hs.update hm hx hcpus hknows (.inl hcurrent) (fun h => .inl (hleaving ▸ h)) hbound
    (fun d _ hd hne hidle hin hl => ?_) fun hne hidle hin hl => ?_
  · rw [hstatus]
    exact hd hne hidle hin hl
  · rw [hcurrent] at hne hidle ⊢
    rw [hstatus]
    refine hs.settled c hne hidle (Bool.eq_false_iff.2 fun h => ?_) (hleaving ▸ hl)
    rw [h, hin] at hinside
    cases hinside

/-- A step that moves the CPU only. -/
theorem Inv.move (hthread : s'.thread = s.thread) (hknows : Knows m s c cpu' cpu'.label.phase)
    (hcurrent : cpu'.currentThread = (s.cpus c).currentThread)
    (hinside : (!l.phase.inside || cpu'.label.phase.inside) = true)
    (hleaving : cpu'.label.phase.leaves = l.phase.leaves) : Inv m s' :=
  hs.quiet hm hx hl hcpus (fun _ => by rw [hthread]) (hthread ▸ hs.bound) hknows hcurrent hinside
    hleaving

end Moves

variable (hm : m.Ready) (hx : Exclusive s) (hs : Inv m s) (answer : Bool)
include hm hx hs

/-- A CPU moves on the way in, or waits for its idle thread. -/
theorem Inv.step_enter (hlabel : (s.cpus c).label ∈
      ({.outside, .readCurrent, .testLock, .setLock, .testIdle, .waitIdle} : Set Label)) :
    Inv m (next m s c answer) := by
  have hknows := hs.knows c
  rcases hlabel with hl | hl | hl | hl | hl | (hl : _ = _) <;> simp only [next, hl] <;>
    rw [hl] at hknows
  · exact hs.move hm hx hl rfl rfl trivial rfl rfl rfl
  · exact hs.move hm hx hl rfl rfl rfl rfl rfl rfl
  · split
    · exact hs.move hm hx hl rfl rfl trivial rfl rfl rfl
    · exact hs.move hm hx hl rfl rfl hknows rfl rfl rfl
  · exact hs.move hm hx hl rfl rfl hknows rfl rfl rfl
  · split
    · rename_i hidle
      exact hs.move hm hx hl rfl rfl ⟨hknows, hidle.2.1⟩ rfl rfl rfl
    · exact hs.move hm hx hl rfl rfl hknows rfl rfl rfl
  · cases answer <;> exact hs.move hm hx hl rfl rfl hknows rfl rfl rfl

/-- A CPU counts a flag, or has counted all of them. -/
theorem Inv.step_count (hl : (s.cpus c).label = .count) : Inv m (next m s c answer) := by
  have hknows := hs.knows c
  simp only [next, hl]
  rw [hl] at hknows
  split
  · exact hs.move hm hx hl rfl rfl hknows rfl rfl rfl
  · split
    · exact hs.move hm hx hl rfl rfl hknows rfl rfl rfl
    · by_cases hz : (s.cpus c).cur = 0
      · simp only [hz, if_true]
        exact hs.move hm hx hl rfl rfl (hz ▸ hknows) rfl rfl rfl
      · simp only [hz, if_false]
        exact hs.move hm hx hl rfl rfl ⟨hknows, hz⟩ rfl rfl rfl

omit hx in
theorem Inv.free_idle : Free m s c (m.idleThread c) :=
  fun d hd => ⟨fun h => hd (hs.idle d c h), fun h => hd (hm.idle_inj d c h)⟩

omit hm in
/-- A thread that looks runnable to the CPU that is choosing is not the current thread of another
one, unless that one is idle or leaving it. -/
theorem Inv.stale (hin : (s.cpus c).label.phase.inside = true)
    (hbit : (s.thread t).status.getLsbD 1 = true) {d : Fin n} (hd : d ≠ c)
    (heq : (s.cpus d).currentThread = t) (hne : t ≠ 0) :
    t = m.idleThread d ∨ (s.cpus d).label.phase.leaves = true := by
  subst heq
  by_contra hcon
  obtain ⟨hidle, hleave⟩ := not_or.1 hcon
  have hclear := hs.settled d hne (fun e he => hidle (he.trans (congrArg _ (hs.idle d e he).symm)))
    (Bool.eq_false_iff.2 fun h => hd (hx.unique h hin)) (Bool.eq_false_iff.2 hleave)
  rw [hclear] at hbit
  cases hbit

/-- The path that backs off, apart from its writes of a status. -/
theorem Inv.step_back (hlabel : (s.cpus c).label ∈
      ({.backClear, .backTest, .backStamp, .backAffinity, .backSwitch} : Set Label)) :
    Inv m (next m s c answer) := by
  have hknows := hs.knows c
  rcases hlabel with hl | hl | hl | hl | (hl : _ = _) <;> simp only [next, hl] <;>
    rw [hl] at hknows
  · by_cases hz : (s.cpus c).cur = 0
    · rw [if_pos hz]
      exact hs.move hm hx hl rfl rfl trivial rfl rfl rfl
    · rw [if_neg hz]
      exact hs.move hm hx hl rfl rfl ⟨hknows, hz⟩ rfl rfl rfl
  · cases threadCanRun (m.cpuId c) (s.thread (s.cpus c).cur)
    · exact hs.move hm hx hl rfl rfl hknows rfl rfl rfl
    · exact hs.move hm hx hl rfl rfl trivial rfl rfl rfl
  · exact hs.quiet hm hx hl rfl (update_field Thread.status rfl) (hs.bound.write rfl rfl) hknows rfl
      rfl rfl
  · exact hs.quiet hm hx hl rfl (update_field Thread.status rfl) (hs.bound.restore _) hknows rfl
      rfl rfl
  · exact hs.update hm hx rfl trivial (.inr (.inl rfl)) (fun _ => .inr rfl) hs.bound
      (fun _ _ h => h) fun _ hidle => absurd rfl (hidle c)

/-- The current thread is made runnable, apart from the writes of its status. -/
theorem Inv.step_mark (hlabel : (s.cpus c).label ∈
      ({.markStamp, .markTest, .markAffinity} : Set Label)) : Inv m (next m s c answer) := by
  have hknows := hs.knows c
  rcases hlabel with hl | hl | (hl : _ = _) <;> simp only [next, hl] <;> rw [hl] at hknows
  · exact hs.quiet hm hx hl rfl (update_field Thread.status rfl) (hs.bound.write rfl rfl) hknows rfl
      rfl rfl
  · split <;> exact hs.move hm hx hl rfl rfl hknows rfl rfl rfl
  · exact hs.quiet hm hx hl rfl (update_field Thread.status rfl) (hs.bound.restore _) hknows.1 rfl
      rfl rfl

/-- The loops over the block callbacks. -/
theorem Inv.step_call (hlabel : (s.cpus c).label ∈
      ({.callList, .callTest, .callSpin, .callRun, .callEnd, .callNext, .chooseList} : Set Label)) :
    Inv m (next m s c answer) := by
  have hknows := hs.knows c
  rcases hlabel with hl | hl | hl | hl | hl | hl | (hl : _ = _) <;> simp only [next, hl] <;>
    rw [hl] at hknows <;> repeat' split
  all_goals exact hs.move hm hx hl rfl rfl hknows rfl rfl rfl

omit hm in
/-- A thread that can run on the CPU that is choosing, and that no other CPU is leaving, is free. -/
theorem Inv.free_of_canRun (hin : (s.cpus c).label.phase.inside = true) (hne : t ≠ 0)
    (hcan : threadCanRun (m.cpuId c) (s.thread t) = true)
    (hcond : ∀ d ≠ c, (s.cpus d).label.phase.leaves = true → (s.cpus d).currentThread ≠ t) :
    Free m s c t := by
  simp only [threadCanRun, Bool.and_eq_true, decide_eq_true_eq] at hcan
  obtain ⟨⟨hstatus, haffinity⟩, -⟩ := hcan
  have hidle : ∀ d ≠ c, m.idleThread d ≠ t := by
    intro d hd he
    have hbound := (hs.bound d c (Ne.symm hd)).1
    rw [he, haffinity] at hbound
    cases hbound
  refine fun d hd => ⟨fun he => ?_, hidle d hd⟩
  have hbit : (s.thread t).status.getLsbD 1 = true := by
    rw [hstatus]
    rfl
  rcases hs.stale hx hin hbit hd he hne with hi | hleave
  · exact hidle d hd hi.symm
  · exact hcond d hd hleave he

/-- The loop over a run list, apart from its writes of a status. -/
theorem Inv.step_scan (hcond : Undisturbed s c)
    (hlabel : (s.cpus c).label ∈ ({.scanList, .scanTest, .scanSlice, .scanRun, .scanCompare,
      .scanEnd, .scanZero, .scanNext} : Set Label)) : Inv m (next m s c answer) := by
  have hknows := hs.knows c
  rcases hlabel with hl | hl | hl | hl | hl | hl | hl | (hl : _ = _) <;> simp only [next, hl] <;>
    rw [hl] at hknows
  · exact hs.move hm hx hl rfl rfl ⟨hknows, absurd rfl⟩ rfl rfl rfl
  · split <;> exact hs.move hm hx hl rfl rfl hknows rfl rfl rfl
  · split <;> exact hs.move hm hx hl rfl rfl hknows rfl rfl rfl
  · split
    · rename_i hcan
      refine hs.move hm hx hl rfl rfl ⟨hknows.1, hknows.2, ?_⟩ rfl rfl rfl
      exact fun hne => hs.free_of_canRun hx (hl ▸ rfl) hne hcan (hcond hl)
    · exact hs.move hm hx hl rfl rfl hknows rfl rfl rfl
  · refine hs.move hm hx hl rfl rfl ⟨hknows.1, fun hne => ?_⟩ rfl rfl rfl
    split at hne
    · rename_i hif
      simp only [hif, if_true]
      exact hknows.2.2 hne
    · rename_i hif
      simp only [hif, if_false]
      exact hknows.2.1 hne
  · split <;> exact hs.move hm hx hl rfl rfl hknows rfl rfl rfl
  · exact hs.quiet hm hx hl rfl (update_field Thread.status rfl) (hs.bound.write rfl rfl) hknows rfl
      rfl rfl
  · exact hs.move hm hx hl rfl rfl hknows rfl rfl rfl

/-- A thread is chosen, or kept, or taken, apart from the writes of its status. -/
theorem Inv.step_choose (hlabel : (s.cpus c).label ∈
      ({.found, .checkRunning, .keepAffinity, .takeAffinity, .takeCurrent, .release} : Set Label)) :
    Inv m (next m s c answer) := by
  have hknows := hs.knows c
  have hidle := hs.free_idle hm (c := c)
  have hbits : ∀ e ≠ c, (1#128 <<< m.cpuId c).getLsbD (m.cpuId e) = false :=
    fun e he => shift_getLsbD fun h => he (hm.cpuId_inj e c h)
  rcases hlabel with hl | hl | hl | hl | hl | (hl : _ = _) <;> simp only [next, hl] <;>
    rw [hl] at hknows
  · generalize (if (s.cpus c).newThread = 0 ∧ (s.cpus c).list = 3 then _ else _) = high
    split
    · exact hs.move hm hx hl rfl rfl hknows.1 rfl rfl rfl
    · by_cases htwo : high = 2
      · simp only [htwo, if_true]
        exact hs.move hm hx hl rfl rfl ⟨hknows.1, fun _ => hidle⟩ rfl rfl rfl
      · simp only [htwo, if_false]
        exact hs.move hm hx hl rfl rfl hknows rfl rfl rfl
  · split
    · exact hs.move hm hx hl rfl rfl hknows.1 rfl rfl rfl
    · split
      · exact hs.move hm hx hl rfl rfl hknows.1 rfl rfl rfl
      · refine hs.move hm hx hl rfl rfl ⟨hknows.1, ?_⟩ rfl rfl rfl
        split
        · exact hidle
        · rename_i hne
          exact hknows.2 hne
  · have hcur := hknows
    refine hs.quiet hm hx hl rfl (update_field Thread.status rfl) (hs.bound.pin ?_ hbits) hknows rfl
      rfl rfl
    exact fun d hd he => hd (hs.idle c d (he ▸ hcur.symm)).symm
  · rw [shift_setWidth (hm.cpuId_lt c)]
    exact hs.quiet hm hx hl rfl (update_field Thread.status rfl)
      (hs.bound.pin (fun d hd => (hknows.2 d hd).2) hbits) hknows rfl rfl rfl
  · exact hs.update hm hx rfl rfl (.inr (.inr ⟨hl ▸ rfl, hknows.2⟩))
      (fun h => by rw [hl] at h; cases h) hs.bound (fun _ _ h => h) fun _ _ hin => by cases hin
  · exact hs.move hm hx hl rfl rfl trivial rfl rfl rfl

/-- A CPU reads what it is about to write. -/
theorem Inv.step_load (hl : (s.cpus c).label = .load u) : Inv m (next m s c answer) := by
  have hknows := hs.knows c
  simp only [next, hl]
  rw [hl] at hknows
  cases u
  case unblockIdle | backReady | backStop | backIdle =>
    exact hs.move hm hx hl rfl rfl hknows rfl rfl rfl
  case callReady =>
    refine hs.move hm hx hl rfl rfl ⟨hknows, ?_⟩ rfl rfl rfl
    exact fun hbit d hd => hs.stale hx (hl ▸ rfl) hbit hd
  case scanMark | scanClear =>
    refine hs.move hm hx hl rfl rfl ⟨hknows.1, hknows.2, ?_⟩ rfl rfl rfl
    exact fun hbit d hd => hs.stale hx (hl ▸ rfl) hbit hd
  all_goals exact hs.move hm hx hl rfl rfl hknows rfl rfl rfl

/-- A step that writes the status of a thread. -/
theorem Inv.status {l : Label} (hl : (s.cpus c).label = l) {v : BitVec 32}
    (hcpus : s'.cpus = Function.update s.cpus c cpu')
    (hthread : s'.thread = Function.update s.thread t { s.thread t with status := v })
    (hknows : Knows m s c cpu' cpu'.label.phase)
    (hcurrent : cpu'.currentThread = (s.cpus c).currentThread)
    (hleaving : (!l.phase.leaves || cpu'.label.phase.leaves) = true)
    (hsafe : ∀ d ≠ c, (s.cpus d).currentThread = t → t ≠ 0 → t = m.idleThread d ∨
      (s.cpus d).label.phase.leaves = true ∨ v.getLsbD 1 = false)
    (hself : (cpu'.label.phase.inside || cpu'.label.phase.leaves) = true ∨
      cpu'.currentThread = m.idleThread c ∨ (cpu'.currentThread = t ∧ v.getLsbD 1 = false)) :
    Inv m s' := by
  subst hl
  refine hs.update hm hx hcpus hknows (.inl hcurrent) (fun h => .inl (by simpa [h] using hleaving))
    (hthread ▸ hs.bound.write rfl rfl) (fun d hd hset hne hidle hin hstay => ?_)
    fun hne hidle hin hstay => ?_
  · have hold := hset hne hidle hin hstay
    rw [hthread]
    by_cases ht : (s.cpus d).currentThread = t
    · rw [ht, update_self]
      rcases hsafe d hd ht (ht ▸ hne) with hi | hleave | hbit
      · exact absurd (ht.trans hi) (hidle d)
      · rw [hstay] at hleave
        cases hleave
      · exact hbit
    · rwa [update_of_ne ht]
  · rcases hself with hphase | hi | ⟨ht, hbit⟩
    · rw [hin, hstay] at hphase
      cases hphase
    · exact absurd hi (hidle c)
    · rw [hthread, ht, update_self]
      exact hbit

/-- A CPU writes what it has made of what it read. -/
theorem Inv.step_store (hl : (s.cpus c).label = .store u) : Inv m (next m s c answer) := by
  have hknows := hs.knows c
  -- the own thread of the CPU is no other's
  have hown {t : Nat} (ht : t = (s.cpus c).currentThread) {P : Fin n → Prop} :
      ∀ d ≠ c, (s.cpus d).currentThread = t → t ≠ 0 → P d := fun d hd he hne =>
    absurd (hs.distinct c d (Ne.symm hd) (ht ▸ he.symm)) (ht ▸ hne)
  -- a status that was read with the bit is written with it, and not to a thread that is running
  have hstale {u : Update} (hu : u = .callReady ∨ u = .scanMark ∨ u = .scanClear)
      (hst : Stale m s c (s.cpus c)) : ∀ d ≠ c, (s.cpus d).currentThread = (s.cpus c).thread →
      (s.cpus c).thread ≠ 0 → (s.cpus c).thread = m.idleThread d ∨
        (s.cpus d).label.phase.leaves = true ∨ (u.apply (s.cpus c).tmp).getLsbD 1 = false := by
    intro d hd he hne
    rw [Update.apply_getLsbD hu]
    cases hbit : (s.cpus c).tmp.getLsbD 1 with
    | false => exact .inr (.inr rfl)
    | true => exact (hst hbit d hd he hne).imp_right .inl
  simp only [next, hl]
  rw [hl] at hknows
  cases u
  case unblockIdle =>
    exact hs.status hm hx hl rfl rfl trivial rfl rfl (hown hknows.1)
      (.inr (.inl (hknows.1.symm.trans hknows.2)))
  case backReady | backStop =>
    exact hs.status hm hx hl rfl rfl hknows rfl rfl (hown hknows.1) (.inl rfl)
  case backIdle =>
    exact hs.status hm hx hl rfl rfl hknows rfl rfl
      (fun d hd he _ => absurd he (hs.free_idle hm d hd).1) (.inl rfl)
  case markReady | markStop =>
    exact hs.status hm hx hl rfl rfl hknows rfl rfl (hown hknows.1) (.inl rfl)
  case callEnter | callLeave | takeSlice =>
    exact hs.quiet hm hx hl rfl (update_field Thread.status rfl) (hs.bound.write rfl rfl) hknows rfl
      rfl rfl
  case callReady =>
    exact hs.status hm hx hl rfl rfl hknows.1 rfl rfl (hstale (.inl rfl) hknows.2) (.inl rfl)
  case scanMark | scanClear =>
    exact hs.status hm hx hl rfl rfl ⟨hknows.1, hknows.2.1⟩ rfl rfl (hstale (by simp) hknows.2.2)
      (.inl rfl)
  case keepRunning | takeRunning =>
    exact hs.status hm hx hl rfl rfl trivial rfl rfl (hown hknows)
      (.inr (.inr ⟨Eq.symm hknows, running_getLsbD _⟩))

/-- Every step keeps the invariant if the CPU does not test a thread another one is leaving. -/
theorem Inv.step (hcond : Undisturbed s c) : Inv m (next m s c answer) := by
  cases hl : (s.cpus c).label with
  | outside | readCurrent | testLock | setLock | testIdle | waitIdle =>
    exact hs.step_enter hm hx answer (by simp [hl])
  | count => exact hs.step_count hm hx answer hl
  | backClear | backTest | backStamp | backAffinity | backSwitch =>
    exact hs.step_back hm hx answer (by simp [hl])
  | markStamp | markTest | markAffinity => exact hs.step_mark hm hx answer (by simp [hl])
  | callList | callTest | callSpin | callRun | callEnd | callNext | chooseList =>
    exact hs.step_call hm hx answer (by simp [hl])
  | scanList | scanTest | scanSlice | scanRun | scanCompare | scanEnd | scanZero | scanNext =>
    exact hs.step_scan hm hx answer hcond (by simp [hl])
  | found | checkRunning | keepAffinity | takeAffinity | takeCurrent | release =>
    exact hs.step_choose hm hx answer (by simp [hl])
  | load u => exact hs.step_load hm hx answer hl
  | store u => exact hs.step_store hm hx answer hl

end Steps

/-! ## Runs -/

/-- A state outside `schedule`: the CPUs run different threads, an idle thread is bound to its CPU
and runs on no other, and a thread that runs does not look runnable. -/
structure Start (m : Machine n) (s : State n) : Prop where
  ready : m.Ready
  label : ∀ c, (s.cpus c).label = .outside
  schedulerLock : ∀ c, (s.cpus c).schedulerLock = false
  distinct : ∀ c d, c ≠ d → (s.cpus c).currentThread = (s.cpus d).currentThread →
    (s.cpus c).currentThread = 0
  idle : ∀ c d, (s.cpus c).currentThread = m.idleThread d → c = d
  bound : IdleBound m s.thread
  running : ∀ c, (s.cpus c).currentThread ≠ 0 → (∀ d, (s.cpus c).currentThread ≠ m.idleThread d) →
    (s.thread (s.cpus c).currentThread).status.getLsbD 1 = false

/-- A step of a CPU, with the answer of the block callback it may call. -/
def Step (m : Machine n) (s : State n) (a : Fin n × Bool) (s' : State n) : Prop :=
  some (next m s a.1 a.2) = some s'

/-- The invariant holds outside `schedule`. -/
theorem Start.inv {m : Machine n} {s : State n} (h : Start m s) : Inv m s where
  knows c := by
    rw [h.label]
    trivial
  distinct := h.distinct
  idle := h.idle
  bound := h.bound
  settled c hne hidle _ _ := h.running c hne hidle

/-- In every run in which no CPU tests a thread another one is leaving, no two CPUs have the same
current thread. -/
theorem currentThread_distinct {m : Machine n} {s s' : State n} (hstart : Start m s)
    (hrun : Reaches (fun s a => Undisturbed s a.1) (Step m) s s') (c d : Fin n) (hne : c ≠ d)
    (heq : (s'.cpus c).currentThread = (s'.cpus d).currentThread) :
    (s'.cpus c).currentThread = 0 := by
  have hquiet : s.Quiet := fun c => ⟨hstart.label c, hstart.schedulerLock c⟩
  have hinv : Exclusive s' ∧ Inv m s' := by
    refine hrun.invariant (fun s => Exclusive s ∧ Inv m s) ⟨hquiet.exclusive, hstart.inv⟩ ?_
    rintro s a s' ⟨hx, hs⟩ hcond hstep
    cases hstep
    exact ⟨hx.next, hs.step hstart.ready hx a.2 hcond⟩
  exact hinv.2.distinct c d hne heq

/-- The second CPU finds the flag of the first one set and takes `k` steps to back off, while the
first one waits and then looks for a thread. -/
def backOff (k : Nat) : List (Fin 2 × Bool) :=
  List.replicate 4 (1, false) ++ List.replicate 4 (0, false) ++ List.replicate k (1, false) ++
    List.replicate 46 (0, false)

theorem bothRunning_start : Start twoCpus bothRunning where
  ready := ⟨by decide, by decide, by decide, by decide⟩
  label _ := rfl
  schedulerLock _ := rfl
  distinct := by decide
  idle := by decide
  bound := by
    unfold IdleBound
    decide
  running := by decide

/-- A run along a list of steps, with what its last state is found to be. -/
theorem reaches_of_execute (cond : State 2 → Fin 2 × Bool → Prop) [∀ s a, Decidable (cond s a)]
    (as : List (Fin 2 × Bool)) (first second : Nat) {m : Machine 2} {s : State 2}
    (h : (execute cond (fun s a => some (next m s a.1 a.2)) s as).map
      (fun s => ((s.cpus 0).currentThread, (s.cpus 1).currentThread)) = some (first, second)) :
    ∃ s', Reaches cond (Step m) s s' ∧ (s'.cpus 0).currentThread = first ∧
      (s'.cpus 1).currentThread = second := by
  obtain ⟨s', hs', heq⟩ := Option.map_eq_some_iff.1 h
  obtain ⟨hfirst, hsecond⟩ := Prod.mk.inj heq
  exact ⟨s', Reaches.of_execute hs', hfirst, hsecond⟩

/-- The second CPU is done with backing off when the first one finds its thread. -/
theorem currentThread_distinct_after_backOff : ∃ s', Reaches (fun s a => Undisturbed s a.1)
    (Step twoCpus) bothRunning s' ∧ (s'.cpus 0).currentThread = 22 ∧
    ∀ c d, c ≠ d → (s'.cpus c).currentThread = (s'.cpus d).currentThread →
      (s'.cpus c).currentThread = 0 := by
  obtain ⟨s', hrun, hfirst, -⟩ := reaches_of_execute (fun s a => Undisturbed s a.1)
    (backOff 15) 22 12 (m := twoCpus) (s := bothRunning) (by decide +kernel)
  exact ⟨s', hrun, hfirst, currentThread_distinct bothRunning_start hrun⟩

/-- The first CPU takes the thread that the second one is leaving: both have it. -/
theorem backOff_shares_thread : ∃ s', Start twoCpus bothRunning ∧
    Reaches (fun _ _ => True) (Step twoCpus) bothRunning s' ∧
    (s'.cpus 0).currentThread = 22 ∧ (s'.cpus 1).currentThread = 22 := by
  obtain ⟨s', hrun, hfirst, hsecond⟩ := reaches_of_execute (fun _ _ => True) (backOff 12) 22 22
    (m := twoCpus) (s := bothRunning) (by decide +kernel)
  exact ⟨s', bothRunning_start, hrun, hfirst, hsecond⟩

end Obos.Scheduler
