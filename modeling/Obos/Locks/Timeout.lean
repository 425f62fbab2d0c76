import Obos.Locks.Mutex

/-!
# Timeouts of the mutex

A thread calls `Lock` with a timeout while another thread holds the mutex and keeps it. The call is
followed access by access; between two of them the other threads and the timer do what they like,
as long as the mutex stays as it is.

The last loop of `Lock` goes round while the deadline has passed, so a thread that reaches the
deadline before this loop never leaves it; and a blocked thread is released at once, and is given
the mutex if the deadline has not passed behind the loop. `Lock` returns false only if the deadline
passes between the last test of the loop and the test behind it (`lock_timesOut_iff`). -/

namespace Obos.Locks

open Lib Function Option

variable {Thread : Type} [DecidableEq Thread]

/-- What may happen between two accesses of a thread: the timer ticks, without starting over, and
the other threads leave the mutex as it is. -/
def Others (initialized : Bool) (t : Thread) (s : State Thread) : Action Thread → Prop
  | .tick => s.timerTicks + 1 < 2 ^ 64
  | .lock u _ _ | .unlock u => u ≠ t
  | .run u => u ≠ t ∧ ∀ s', runThread initialized s u = some s' → s'.mutex = s.mutex
  | .schedule u => u ≠ t

/-- An access of a thread that is in a call, or of the scheduler on its behalf. -/
inductive Access (initialized : Bool) (t : Thread) (s s' : State Thread) : Prop
  | run (h : Step initialized s (.run t) s')
  | schedule (h : Step initialized s (.schedule t) s')
  | outside (h : s.control t = .idle) (heq : s' = s)

/-- A call `Lock(timeout)` on a mutex that another thread holds throughout: its accesses take
`before n` to `after n`, and the tick counter reaches the deadline. -/
structure LockCall (initialized : Bool) (t : Thread) (timeout : Nat)
    (before after : Nat → State Thread) : Prop where
  enters : (before 0).control t = .lockEntry timeout true
  timeout_ne : timeout ≠ 0
  locked : (before 0).mutex.locked = true
  owner : (before 0).mutex.ownerThread ≠ some t
  bound : (before 0).timerTicks < 2 ^ 64
  access : ∀ n, Access initialized t (before n) (after n)
  others : ∀ n, Reaches (Others initialized t) (Step initialized) (after n) (before (n + 1))
  expires : ∃ n, (before 1).timerTicks + timeout ≤ (before n).timerTicks

/-- The call returns false, not before the deadline, and has not changed the mutex. -/
def TimesOut (t : Thread) (timeout : Nat) (before after : Nat → State Thread) : Prop :=
  ∃ n, (before n).control t ≠ .idle ∧ (after n).control t = .idle ∧
    (after n).held = (before n).held ∧
    (before 1).timerTicks + timeout ≤ (before n).timerTicks ∧
    (after n).mutex = (before 0).mutex

section Call

variable {initialized : Bool} {t : Thread} {timeout n : Nat} {s s' : State Thread}
  {before after : Nat → State Thread}

/-- An access of a thread moves no other thread, and not the timer. -/
theorem runThread_frame {u : Thread} (h : runThread initialized s u = some s') :
    (∀ t, t ≠ u → s'.control t = s.control t) ∧ s'.timerTicks = s.timerTicks := by
  have hgoto : ∀ (s : State Thread) c t, t ≠ u → (s.goto u c).control t = s.control t :=
    fun s c t hne => update_of_ne hne _ _
  unfold runThread compareExchange State.leaveLock at h
  split at h
  all_goals try split_ifs at h
  all_goals cases h
  all_goals first
    | exact ⟨hgoto _ _, rfl⟩
    | exact ⟨fun t _ => rfl, rfl⟩

/-- A thread in a call that is not blocked has a next access. -/
theorem runThread_progress (hidle : s.control t ≠ .idle)
    (hblocked : ∀ w, s.control t ≠ .blocked w) : ∃ s', runThread initialized s t = some s' := by
  unfold runThread
  split
  all_goals try split_ifs
  all_goals first
    | exact ⟨_, rfl⟩
    | contradiction
    | simp_all

/-- A scheduler pass releases a blocked thread or does nothing. -/
theorem schedule_cases {u : Thread} (h : Step initialized s (.schedule u) s') :
    ∃ w, s.control u = .blocked w ∧
      (blockCallback s w = true ∧ s' = s.goto u (.exchange w false) ∨
        blockCallback s w = false ∧ s' = s) := by
  simp only [Step, next] at h
  split at h
  · rename_i w hw
    refine ⟨w, hw, ?_⟩
    split_ifs at h with hcall
    · exact .inl ⟨hcall, (some.inj h).symm⟩
    · exact .inr ⟨by simpa using hcall, (some.inj h).symm⟩
  · cases h

/-- The other threads move neither the mutex nor the thread, and the counter does not decrease. -/
theorem others_frame (h : Reaches (Others initialized t) (Step initialized) s s')
    (hbound : s.timerTicks < 2 ^ 64) :
    s'.mutex = s.mutex ∧ s'.control t = s.control t ∧ s.timerTicks ≤ s'.timerTicks ∧
      s'.timerTicks < 2 ^ 64 := by
  refine h.invariant (fun s' => s'.mutex = s.mutex ∧ s'.control t = s.control t ∧
    s.timerTicks ≤ s'.timerTicks ∧ s'.timerTicks < 2 ^ 64) ⟨rfl, rfl, le_rfl, hbound⟩ ?_
  rintro s1 a s2 ⟨hmutex, hcontrol, hle, hlt⟩ hother hstep
  cases a with
  | lock u timeout block =>
    have hut : t ≠ u := Ne.symm hother
    simp only [Step, next, ite_none_right_eq_some, some.injEq] at hstep
    obtain ⟨-, rfl⟩ := hstep
    exact ⟨hmutex, by simp [State.goto, hut, hcontrol], hle, hlt⟩
  | unlock u =>
    have hut : t ≠ u := Ne.symm hother
    simp only [Step, next, ite_none_right_eq_some, some.injEq] at hstep
    obtain ⟨-, rfl⟩ := hstep
    exact ⟨hmutex, by simp [State.goto, hut, hcontrol], hle, hlt⟩
  | run u =>
    obtain ⟨hframe, hticks⟩ := runThread_frame hstep
    exact ⟨(hother.2 s2 hstep).trans hmutex, (hframe t hother.1.symm).trans hcontrol,
      hticks ▸ hle, hticks ▸ hlt⟩
  | schedule u =>
    have hut : t ≠ u := Ne.symm hother
    obtain ⟨w, -, ⟨-, rfl⟩ | ⟨-, rfl⟩⟩ := schedule_cases hstep
    · exact ⟨hmutex, by simp [State.goto, hut, hcontrol], hle, hlt⟩
    · exact ⟨hmutex, hcontrol, hle, hlt⟩
  | tick =>
    cases hstep
    have hnowrap := Nat.mod_eq_of_lt hother
    refine ⟨hmutex, hcontrol, ?_, ?_⟩
    · show s.timerTicks ≤ (s1.timerTicks + 1) % 2 ^ 64
      omega
    · exact Nat.mod_lt _ (by decide)

/-- A thread that can run does its next access itself. -/
theorem Access.runThread (h : Access initialized t s s')
    (hrun : (runThread initialized s t).isSome) : runThread initialized s t = some s' := by
  cases h with
  | run h => exact h
  | schedule h =>
    obtain ⟨w, hw, -⟩ := schedule_cases h
    simp [Locks.runThread, hw] at hrun
  | outside h heq => simp [Locks.runThread, h] at hrun

theorem Access.schedule_of_blocked {w : Nat} (h : Access initialized t s s')
    (hblocked : s.control t = .blocked w) : Step initialized s (.schedule t) s' := by
  cases h with
  | run h => simp [Step, next, Locks.runThread, hblocked] at h
  | schedule h => exact h
  | outside h heq => simp [hblocked] at h

/-- The timer does not tick in an access. -/
theorem Access.timerTicks (h : Access initialized t s s') : s'.timerTicks = s.timerTicks := by
  cases h with
  | run h => exact (runThread_frame h).2
  | schedule h =>
    obtain ⟨w, -, ⟨-, rfl⟩ | ⟨-, rfl⟩⟩ := schedule_cases h
    · rfl
    · rfl
  | outside h heq => rw [heq]

/-- Before its access `n` the thread stands at `c`, and the mutex is as it was. -/
structure At (t : Thread) (before : Nat → State Thread) (n : Nat) (c : Control) : Prop where
  control : (before n).control t = c
  mutex : (before n).mutex = (before 0).mutex

namespace LockCall

variable (h : LockCall initialized t timeout before after)
include h

theorem ticks_lt (n : Nat) : (before n).timerTicks < 2 ^ 64 := by
  induction n with
  | zero => exact h.bound
  | succ n ih => exact (others_frame (h.others n) ((h.access n).timerTicks ▸ ih)).2.2.2

theorem meanwhile (n : Nat) :
    (before (n + 1)).mutex = (after n).mutex ∧ (before (n + 1)).control t = (after n).control t ∧
      (before n).timerTicks ≤ (before (n + 1)).timerTicks := by
  have hticks := (h.access n).timerTicks
  obtain ⟨hmutex, hcontrol, hle, -⟩ := others_frame (h.others n) (hticks ▸ h.ticks_lt n)
  exact ⟨hmutex, hcontrol, hticks ▸ hle⟩

theorem ticks_mono : Monotone fun n => (before n).timerTicks :=
  monotone_nat_of_le_succ fun n => (h.meanwhile n).2.2

/-- An access that only moves the thread. -/
theorem at_succ {c c' : Control} (hat : At t before n c)
    (hstep : runThread initialized (before n) t = some ((before n).goto t c')) :
    At t before (n + 1) c' := by
  have hrun := (h.access n).runThread (by simp [hstep])
  have hafter := some.inj (hrun.symm.trans hstep)
  obtain ⟨hmutex, hcontrol, -⟩ := h.meanwhile n
  rw [hafter] at hmutex hcontrol
  exact ⟨hcontrol.trans (update_self _ _ _), hmutex.trans hat.mutex⟩

/-- The call computes its deadline. -/
theorem at_lockTest : At t before 2 (.lockTest ((before 1).timerTicks + timeout)) := by
  have h0 : At t before 0 (.lockEntry timeout true) := ⟨h.enters, rfl⟩
  have h1 : At t before 1 (.lockDeadline timeout) :=
    h.at_succ h0 (by simp [runThread, h0.control])
  have hnowrap : (before 1).timerTicks + timeout < 2 ^ 64 := by
    obtain ⟨n, hn⟩ := h.expires
    exact hn.trans_lt (h.ticks_lt n)
  refine h.at_succ h1 ?_
  simp only [runThread, h1.control, if_neg h.timeout_ne, Nat.mod_eq_of_lt hnowrap]

theorem at_exchangeFailed {w : Nat}
    (hat : At t before n (.exchange w false)) : At t before (n + 1) (.exchangeFailed w true) := by
  have hlocked := hat.mutex ▸ h.locked
  refine h.at_succ hat ?_
  simp [runThread, hat.control, compareExchange, hlocked]

/-- A second exchange succeeds, and the loop goes on. -/
theorem at_exchange_stuck {w : Nat}
    (hat : At t before n (.exchange w true)) (m : Nat) (hm : n ≤ m) :
    At t before m (.exchange w true) := by
  induction m, hm using Nat.le_induction with
  | base => exact hat
  | succ m hm ih =>
    have hlocked := ih.mutex ▸ h.locked
    have hrun := (h.access m).runThread (by simp [runThread, ih.control, compareExchange])
    simp only [runThread, ih.control, compareExchange, hlocked, if_true, some.injEq]
      at hrun
    obtain ⟨hmutex, hcontrol, -⟩ := h.meanwhile m
    rw [← hrun] at hmutex hcontrol
    refine ⟨hcontrol.trans (update_self _ _ _), hmutex.trans ?_⟩
    rw [← ih.mutex]
    simp [State.goto, State.setLocked, ← hlocked]

/-- A call that has returned stays returned. -/
theorem idle_of_le (hidle : (after n).control t = .idle) (m : Nat) (hm : n + 1 ≤ m) :
    (before m).control t = .idle := by
  induction m, hm using Nat.le_induction with
  | base => rw [(h.meanwhile n).2.1, hidle]
  | succ m hm ih =>
    have hafter : after m = before m := by
      cases h.access m with
      | run hstep => simp [Step, next, runThread, ih] at hstep
      | schedule hstep =>
        obtain ⟨w, hw, -⟩ := schedule_cases hstep
        simp [ih] at hw
      | outside _ heq => exact heq
    rw [(h.meanwhile m).2.1, hafter, ih]

theorem not_timesOut_of_stuck {w : Nat}
    (hat : At t before n (.exchange w true)) : ¬ TimesOut t timeout before after := by
  rintro ⟨k, -, hidle, -⟩
  have hstuck := (h.at_exchange_stuck hat (max n (k + 1)) (le_max_left _ _)).control
  rw [h.idle_of_le hidle (max n (k + 1)) (le_max_right _ _)] at hstuck
  cases hstuck

/-- A call whose exchange fails behind the deadline does not return. -/
theorem not_timesOut_of_late {w : Nat} (hat : At t before n (.exchangeFailed w true))
    (hlate : (before 0).mutex.wake = true ∨ w ≤ (before n).timerTicks) :
    ¬ TimesOut t timeout before after := by
  have hstep : runThread initialized (before n) t =
      some ((before n).goto t (.exchange w true)) := by
    rcases hlate with hwake | hticks
    · have hwake' := hat.mutex ▸ hwake
      simp [runThread, hat.control, hwake']
    · simp [runThread, hat.control, hticks]
  exact h.not_timesOut_of_stuck (h.at_succ hat hstep)

/-- A thread that spins leaves the loop at the deadline, and is caught in the next one. -/
theorem not_timesOut_of_spin (hspin : At t before 3 (.spin ((before 1).timerTicks + timeout))) :
    ¬ TimesOut t timeout before after := by
  set w := (before 1).timerTicks + timeout with hw
  -- the first access behind the deadline, or with `m_wake`
  have hleaves : ∃ n, 3 ≤ n ∧ ((before 0).mutex.wake = true ∨ w ≤ (before n).timerTicks) := by
    obtain ⟨n, hn⟩ := h.expires
    exact ⟨max 3 n, le_max_left _ _, .inr (hn.trans (h.ticks_mono (le_max_right 3 n)))⟩
  obtain ⟨hlo, hleave⟩ := Nat.find_spec hleaves
  set n := Nat.find hleaves
  have hat : ∀ m, 3 ≤ m → m ≤ n → At t before m (.spin w) := by
    intro m hm
    induction m, hm using Nat.le_induction with
    | base => exact fun _ => hspin
    | succ m hm ih =>
      intro hle
      have hat := ih (by omega)
      have hstay : ¬ ((before 0).mutex.wake = true ∨ w ≤ (before m).timerTicks) := fun hex =>
        Nat.find_min hleaves (show m < n by omega) ⟨hm, hex⟩
      push Not at hstay
      have hgoto : (before m).goto t (.spin w) = before m := by
        have hupdate : update (before m).control t (.spin w) = (before m).control := by
          rw [← hat.control, update_eq_self]
        simp only [State.goto, hupdate]
      refine h.at_succ hat ?_
      rw [hgoto]
      have hlocked := hat.mutex ▸ h.locked
      have hwake : (before m).mutex.wake = false := by simpa [hat.mutex] using hstay.1
      simp [runThread, hat.control, hlocked, hwake, hstay.2]
  have hn := hat n hlo le_rfl
  have hexchange : At t before (n + 1) (.exchange w false) := by
    refine h.at_succ hn ?_
    rcases hleave with hwake | hticks
    · have hwake' := hn.mutex ▸ hwake
      simp [runThread, hn.control, hwake']
    · simp [runThread, hn.control, hticks]
  refine h.not_timesOut_of_late (h.at_exchangeFailed hexchange) ?_
  exact hleave.imp_right fun hticks => hticks.trans (h.ticks_mono (by omega : n ≤ n + 2))

/-- A blocked thread is released by the next scheduler pass, since the mutex is held. -/
theorem at_released {w : Nat}
    (hat : At t before n (.blocked w)) : At t before (n + 1) (.exchange w false) := by
  have hlocked := hat.mutex ▸ h.locked
  obtain ⟨w', hw', hcases⟩ := schedule_cases ((h.access n).schedule_of_blocked hat.control)
  obtain rfl : w = w' := by simpa [hat.control] using hw'
  have hcall : blockCallback (before n) w = true := by simp [blockCallback, hlocked]
  have hafter : after n = (before n).goto t (.exchange w false) := by
    rcases hcases with ⟨-, hafter⟩ | ⟨hno, -⟩
    · exact hafter
    · simp [hcall] at hno
  obtain ⟨hmutex, hcontrol, -⟩ := h.meanwhile n
  rw [hafter] at hmutex hcontrol
  exact ⟨hcontrol.trans (update_self _ _ _), hmutex.trans hat.mutex⟩

/-- A call that sets the owner returns true. -/
theorem not_timesOut_of_owner
    (hat : At t before n .lockOwner) : ¬ TimesOut t timeout before after := by
  rintro ⟨k, hcall, hidle, hheld, -⟩
  have hrun := (h.access n).runThread (by simp [runThread, hat.control])
  simp only [runThread, hat.control, some.injEq] at hrun
  have hreturned : (after n).control t = .idle := by
    rw [← hrun]
    exact update_self _ _ _
  have hle : n ≤ k := by
    by_contra hlt
    have hcontrol := h.idle_of_le hidle n (by omega)
    rw [hat.control] at hcontrol
    cases hcontrol
  have hge : k ≤ n := by
    by_contra hlt
    exact hcall (h.idle_of_le hreturned k (by omega))
  obtain rfl : k = n := by omega
  rw [← hrun] at hheld
  exact absurd (congrArg List.length hheld) (by simp)

end LockCall

end Call

/-- `Lock` returns false at the deadline exactly if its thread blocks and the deadline passes
between the last two tests of the call. -/
theorem lock_timesOut_iff {initialized : Bool} {t : Thread} {timeout : Nat}
    {before after : Nat → State Thread} (h : LockCall initialized t timeout before after) :
    TimesOut t timeout before after ↔
      initialized = true ∧ (before 0).mutex.canUseMultitasking = true ∧
        (before 0).mutex.wake = false ∧
        (before 5).timerTicks < (before 1).timerTicks + timeout ∧
        (before 1).timerTicks + timeout ≤ (before 6).timerTicks := by
  have htest := h.at_lockTest
  have hlocked := htest.mutex ▸ h.locked
  by_cases hblocks : initialized = true ∧ (before 0).mutex.canUseMultitasking = true
  swap
  · have hspin : At t before 3 (.spin ((before 1).timerTicks + timeout)) := by
      refine h.at_succ htest ?_
      have hno : ¬ ((before 2).mutex.canUseMultitasking && initialized) = true := by
        simpa [htest.mutex, and_comm] using hblocks
      simp only [runThread, htest.control, hlocked, if_true, if_neg hno]
    exact iff_of_false (h.not_timesOut_of_spin hspin) fun hcond => hblocks ⟨hcond.1, hcond.2.1⟩
  have hblocked : At t before 3 (.blocked ((before 1).timerTicks + timeout)) := by
    refine h.at_succ htest ?_
    have hyes : ((before 2).mutex.canUseMultitasking && initialized) = true := by
      simp [htest.mutex, hblocks.1, hblocks.2]
    simp only [runThread, htest.control, hlocked, if_true, if_pos hyes]
  have hfailed := h.at_exchangeFailed (h.at_released hblocked)
  by_cases hlate : (before 0).mutex.wake = true ∨
      (before 1).timerTicks + timeout ≤ (before 5).timerTicks
  · refine iff_of_false (h.not_timesOut_of_late hfailed hlate) ?_
    rintro ⟨-, -, hwake, hbefore, -⟩
    rcases hlate with hlate | hlate
    · simp [hwake] at hlate
    · omega
  have hwake : (before 0).mutex.wake = false := by simpa using fun hw => hlate (.inl hw)
  have hbefore : (before 5).timerTicks < (before 1).timerTicks + timeout := by
    by_contra hle
    exact hlate (.inr (by omega))
  have htimeout : At t before 6 (.lockTimeout ((before 1).timerTicks + timeout)) := by
    refine h.at_succ hfailed ?_
    simp [runThread, hfailed.control, hfailed.mutex, hwake, hbefore]
  have hrun := (h.access 6).runThread (by simp [runThread, htimeout.control, apply_ite])
  by_cases hdeadline : (before 1).timerTicks + timeout ≤ (before 6).timerTicks
  · refine iff_of_true ⟨6, ?_⟩ ⟨hblocks.1, hblocks.2, hwake, hbefore, hdeadline⟩
    simp only [runThread, htimeout.control, if_pos hdeadline, some.injEq] at hrun
    refine ⟨by simp [htimeout.control], ?_, ?_, hdeadline, ?_⟩
    · rw [← hrun]
      exact update_self _ _ _
    · rw [← hrun]
      rfl
    · rw [← hrun]
      exact htimeout.mutex
  · refine iff_of_false ?_ fun hcond => hdeadline hcond.2.2.2.2
    refine h.not_timesOut_of_owner (h.at_succ htimeout ?_)
    simp only [runThread, htimeout.control, if_neg hdeadline]

/-- The next access of thread `true`. -/
def callAccess (initialized : Bool) (s : State Bool) : State Bool :=
  match s.control true with
  | .idle => s
  | .blocked _ => (next initialized s (.schedule true)).getD s
  | _ => (runThread initialized s true).getD s

/-- The timer ticks ten times. -/
def callTick (s : State Bool) : State Bool :=
  if s.timerTicks < 10 then { s with timerTicks := s.timerTicks + 1 } else s

/-- The states before the accesses of a call, with a tick after each. -/
def callBefore (initialized : Bool) (s : State Bool) : Nat → State Bool
  | 0 => s
  | n + 1 => callTick (callAccess initialized (callBefore initialized s n))

/-- Thread `false` holds the mutex, and thread `true` enters `Lock`. -/
def heldMutex (canUseMultitasking : Bool) (timeout : Nat) : State Bool where
  mutex := ⟨false, true, canUseMultitasking, some false⟩
  timerTicks := 0
  control := fun t => if t then .lockEntry timeout true else .idle
  took := fun _ => false
  held := [false]

theorem access_callAccess (initialized : Bool) (s : State Bool) :
    Access initialized true s (callAccess initialized s) := by
  unfold callAccess
  split
  · rename_i hc
    exact .outside hc rfl
  · rename_i w hc
    refine .schedule ?_
    simp only [Step, next, hc]
    split_ifs
    · rfl
    · rfl
  · rename_i hidle hblocked
    obtain ⟨s', hs'⟩ := @runThread_progress Bool _ initialized true s hidle hblocked
    rw [hs']
    exact .run hs'

theorem others_callTick (initialized : Bool) (s : State Bool) :
    Reaches (Others initialized true) (Step initialized) s (callTick s) := by
  unfold callTick
  split_ifs with hlt
  · refine .single ⟨.tick, show s.timerTicks + 1 < 2 ^ 64 by omega, ?_⟩
    have hnowrap : (s.timerTicks + 1) % 2 ^ 64 = s.timerTicks + 1 := Nat.mod_eq_of_lt (by omega)
    simp only [Step, next, hnowrap]
  · exact .refl

theorem lockCall_heldMutex {initialized canUse : Bool} {timeout : Nat} (hne : timeout ≠ 0)
    (hexpires : ∃ n, (callBefore initialized (heldMutex canUse timeout) 1).timerTicks + timeout ≤
      (callBefore initialized (heldMutex canUse timeout) n).timerTicks) :
    LockCall initialized true timeout (callBefore initialized (heldMutex canUse timeout))
      fun n => callAccess initialized (callBefore initialized (heldMutex canUse timeout) n) where
  enters := rfl
  timeout_ne := hne
  locked := rfl
  owner := by simp [callBefore, heldMutex]
  bound := by simp [callBefore, heldMutex]
  access n := access_callAccess initialized _
  others n := others_callTick initialized _
  expires := hexpires

/-- The sixth tick is the deadline of a thread that blocks. -/
theorem lock_timesOut_sixth :
    TimesOut true 5 (callBefore true (heldMutex true 5))
      fun n => callAccess true (callBefore true (heldMutex true 5) n) :=
  (lock_timesOut_iff (lockCall_heldMutex (by decide) ⟨6, by decide⟩)).2 (by decide)

/-- A thread that spins for one tick stays in `Lock` for ever. -/
theorem lock_never_returns :
    LockCall true true 1 (callBefore true (heldMutex false 1))
        (fun n => callAccess true (callBefore true (heldMutex false 1) n)) ∧
      (∀ n, (callBefore true (heldMutex false 1) n).control true ≠ .idle) ∧
      ¬ TimesOut true 1 (callBefore true (heldMutex false 1))
        fun n => callAccess true (callBefore true (heldMutex false 1) n) := by
  have hcall : LockCall true true 1 (callBefore true (heldMutex false 1))
      fun n => callAccess true (callBefore true (heldMutex false 1) n) :=
    lockCall_heldMutex (by decide) ⟨2, by decide⟩
  have hat : At true (callBefore true (heldMutex false 1)) 6 (.exchange 2 true) :=
    ⟨by decide, by rfl⟩
  refine ⟨hcall, fun n => ?_, hcall.not_timesOut_of_stuck hat⟩
  by_cases hn : 6 ≤ n
  · rw [(hcall.at_exchange_stuck hat n hn).control]
    simp
  · have hearly : ∀ m < 6, (callBefore true (heldMutex false 1) m).control true ≠ .idle := by
      decide
    exact hearly n (by omega)

end Obos.Locks
