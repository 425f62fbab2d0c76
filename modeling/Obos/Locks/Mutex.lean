import Obos.Lib.Run
import Mathlib.Tactic

/-!
# The mutex of `multitasking/locks/mutex.cpp`

`Mutex::Lock` and `Mutex::Unlock` run on any number of threads, one access to
shared data at a time. A thread that finds the flag set either spins or blocks;
a blocked thread is released by the scheduler pass `callBlockCallbacksOnList`,
which asks the callback that `Lock` registered. The last loop of `Lock` repeats
while its compare-and-exchange *succeeds*, so it also ends when the flag was set
by somebody else: `lock_returns_twice` runs two threads into the critical
section. `mutual_exclusion` says which runs are safe: those in which a call that
has not set the flag itself only exchanges while the flag is clear and no
`Unlock` is halfway.
-/

namespace Obos.Locks

open Lib List Option

/-- The fields of a `Mutex` that `Lock` and `Unlock` use. -/
structure Mutex (Thread : Type) where
  wake : Bool
  locked : Bool
  canUseMultitasking : Bool
  ownerThread : Option Thread

/-- Where a thread stands in `Lock` or `Unlock`, with the locals that are live there. -/
inductive Control where
  /-- Not in a call. -/
  | idle
  /-- `if (!block && Locked())`. -/
  | lockEntry (timeout : Nat) (block : Bool)
  /-- `wakeupTime = g_timerTicks + timeout`. -/
  | lockDeadline (timeout : Nat)
  /-- `if (m_locked)`. -/
  | lockTest (wakeupTime : Nat)
  /-- The block callback is registered and the status is `CAN_RUN | BLOCKED`. -/
  | blocked (wakeupTime : Nat)
  /-- `while (m_locked && !m_wake && g_timerTicks < wakeupTime)`. -/
  | spin (wakeupTime : Nat)
  /-- The compare-and-exchange of the last loop. -/
  | exchange (wakeupTime : Nat) (expected : Bool)
  /-- The rest of that loop's condition, after a failed exchange. -/
  | exchangeFailed (wakeupTime : Nat) (expected : Bool)
  /-- `if (g_timerTicks >= wakeupTime)`. -/
  | lockTimeout (wakeupTime : Nat)
  /-- `m_ownerThread = currentThread; return true`. -/
  | lockOwner
  /-- The owner test of `Unlock`. -/
  | unlockEntry
  /-- The load of `atomic_clear`. -/
  | unlockLoad
  /-- The `lock cmpxchg` of `atomic_clear`, with the loaded byte. -/
  | unlockExchange (al : Bool)
  /-- `m_ownerThread = nullptr; return true`. -/
  | unlockOwner
  deriving DecidableEq

/-- The mutex, the tick counter and the threads. `took` and `held` are history: `took t` says
that the current `Lock` call of `t` changed the flag from clear to set, and `held` lists the
threads to which `Lock` has returned true and whose `Unlock` has not completed since. -/
structure State (Thread : Type) where
  mutex : Mutex Thread
  timerTicks : Nat
  control : Thread → Control
  took : Thread → Bool
  held : List Thread

/-- What can happen next: a thread enters a call, a thread does its next access, a scheduler pass
asks the block callback of a thread, or the timer ticks. -/
inductive Action (Thread : Type) where
  | lock (t : Thread) (timeout : Nat) (block : Bool)
  | unlock (t : Thread)
  | run (t : Thread)
  | schedule (t : Thread)
  | tick

variable {Thread : Type} [DecidableEq Thread]

namespace State

/-- Move a thread to another point of the code. -/
def goto (s : State Thread) (t : Thread) (c : Control) : State Thread :=
  { s with control := Function.update s.control t c }

/-- Leave `Lock`, with the history of the call closed. -/
def leaveLock (s : State Thread) (t : Thread) : State Thread :=
  { s.goto t .idle with took := Function.update s.took t false }

/-- Overwrite `m_locked`. -/
def setLocked (s : State Thread) (b : Bool) : State Thread :=
  { s with mutex := { s.mutex with locked := b } }

/-- Overwrite `m_ownerThread`. -/
def setOwner (s : State Thread) (o : Option Thread) : State Thread :=
  { s with mutex := { s.mutex with ownerThread := o } }

end State

/-- The block callback that `Lock` registers: whether the scheduler may unblock the thread. -/
def blockCallback (s : State Thread) (wakeupTime : Nat) : Bool :=
  s.mutex.locked || s.mutex.wake || decide (s.timerTicks < wakeupTime)

/-- `__atomic_compare_exchange_n(&m_locked, &expected, true, …)` at the head of the last loop:
the loop goes round again when it succeeds. -/
def compareExchange (s : State Thread) (t : Thread) (wakeupTime : Nat) (expected : Bool) :
    State Thread :=
  if s.mutex.locked = expected then
    let taken := { s with took := Function.update s.took t (s.took t || !s.mutex.locked) }
    (taken.setLocked true).goto t (.exchange wakeupTime expected)
  else s.goto t (.exchangeFailed wakeupTime s.mutex.locked)

/-- The next access of a thread. `initialized` is `thread::g_initialized`. -/
def runThread (initialized : Bool) (s : State Thread) (t : Thread) : Option (State Thread) :=
  match s.control t with
  | .idle => none
  | .lockEntry timeout block =>
    -- `Locked()` is only called when the caller asked not to block
    if !block && s.mutex.locked then some (s.leaveLock t)
    else some (s.goto t (.lockDeadline timeout))
  | .lockDeadline timeout =>
    let wakeupTime := if timeout = 0 then 2 ^ 64 - 1 else (s.timerTicks + timeout) % 2 ^ 64
    some (s.goto t (.lockTest wakeupTime))
  | .lockTest wakeupTime =>
    if s.mutex.locked then
      if s.mutex.canUseMultitasking && initialized then some (s.goto t (.blocked wakeupTime))
      else some (s.goto t (.spin wakeupTime))
    else some (s.goto t (.exchange wakeupTime false))
  | .blocked _ => none
  | .spin wakeupTime =>
    if s.mutex.locked && !s.mutex.wake && decide (s.timerTicks < wakeupTime) then some s
    else some (s.goto t (.exchange wakeupTime false))
  | .exchange wakeupTime expected => some (compareExchange s t wakeupTime expected)
  | .exchangeFailed wakeupTime expected =>
    if s.mutex.wake || decide (wakeupTime ≤ s.timerTicks) then
      some (s.goto t (.exchange wakeupTime expected))
    else some (s.goto t (.lockTimeout wakeupTime))
  | .lockTimeout wakeupTime =>
    if wakeupTime ≤ s.timerTicks then some (s.leaveLock t) else some (s.goto t .lockOwner)
  | .lockOwner =>
    let owned := if initialized && s.mutex.canUseMultitasking then s.setOwner (some t) else s
    some { owned.leaveLock t with held := t :: s.held }
  | .unlockEntry =>
    if initialized && s.mutex.canUseMultitasking && s.mutex.ownerThread != some t then
      some (s.goto t .idle)
    else some (s.goto t .unlockLoad)
  | .unlockLoad => some (s.goto t (.unlockExchange s.mutex.locked))
  | .unlockExchange al =>
    let cleared := if s.mutex.locked = al then s.setLocked false else s
    some (cleared.goto t .unlockOwner)
  | .unlockOwner => some { (s.setOwner none).goto t .idle with held := s.held.erase t }

/-- One atomic step of the system. -/
def next (initialized : Bool) (s : State Thread) : Action Thread → Option (State Thread)
  | .lock t timeout block =>
    if s.control t = .idle then some (s.goto t (.lockEntry timeout block)) else none
  | .unlock t => if s.control t = .idle then some (s.goto t .unlockEntry) else none
  | .run t => runThread initialized s t
  | .schedule t =>
    -- `callBlockCallbacksOnList` clears BLOCKED when the callback returns true
    match s.control t with
    | .blocked wakeupTime =>
      if blockCallback s wakeupTime then some (s.goto t (.exchange wakeupTime false))
      else some s
    | _ => none
  | .tick => some { s with timerTicks := (s.timerTicks + 1) % 2 ^ 64 }

/-- A mutex that nobody has locked, with all threads outside its functions. -/
def start (wake canUseMultitasking : Bool) (ticks : Nat) : State Thread where
  mutex := ⟨wake, false, canUseMultitasking, none⟩
  timerTicks := ticks
  control := fun _ => .idle
  took := fun _ => false
  held := []

/-- The step relation of the atomic steps. -/
def Step (initialized : Bool) (s : State Thread) (a : Action Thread) (s' : State Thread) : Prop :=
  next initialized s a = some s'

/-- The property of a state: at most one `Lock` call that returned true is still outstanding. -/
def Exclusive (s : State Thread) : Prop := s.held.length ≤ 1

/-- A thread that blocks on a held mutex is released at once by the callback, its exchange fails,
and `Lock` returns true to it as well. -/
theorem lock_returns_twice : ¬ ∀ s : State Bool,
    Reaches (fun _ _ => True) (Step true) (start false true 0) s → Exclusive s := by
  intro h
  let first : List (Action Bool) := .lock false 0 true :: replicate 8 (.run false)
  let second : List (Action Bool) :=
    .lock true 0 true :: replicate 3 (.run true) ++
      .schedule true :: replicate 4 (.run true)
  have hrun : ∃ s, execute (fun _ _ => True) (next true) (start false true 0) (first ++ second) =
      some s ∧ s.held.length = 2 := by
    refine ⟨_, rfl, ?_⟩
    decide
  obtain ⟨s, hexec, hlen⟩ := hrun
  have hone := h s (.of_execute hexec)
  unfold Exclusive at hone
  omega

/-! ## The runs that do exclude each other -/

/-- The condition on an access of a thread that stands at `c`. A `Lock` call that has not set the
flag itself exchanges only while the flag is clear and no `Unlock` stands between clearing the
flag and clearing the owner. A mutex that does not check its owner is unlocked only by a thread
that holds it. -/
def OrderlyAt (initialized : Bool) (s : State Thread) (t : Thread) : Control → Prop
  | .exchange _ _ => s.took t = true ∨ s.mutex.locked = false ∧ ∀ u, s.control u ≠ .unlockOwner
  | .unlockEntry => initialized = true ∧ s.mutex.canUseMultitasking = true ∨ t ∈ s.held
  | _ => True

/-- The condition on a step: only the accesses of the threads are restricted. -/
def Orderly (initialized : Bool) (s : State Thread) : Action Thread → Prop
  | .run t => OrderlyAt initialized s t (s.control t)
  | _ => True

instance [Fintype Thread] (initialized : Bool) (s : State Thread) (t : Thread) :
    (c : Control) → Decidable (OrderlyAt initialized s t c)
  | .exchange _ _ => inferInstanceAs (Decidable (_ ∨ _))
  | .unlockEntry => inferInstanceAs (Decidable (_ ∨ _))
  | .idle | .lockEntry _ _ | .lockDeadline _ | .lockTest _ | .blocked _ | .spin _
  | .exchangeFailed _ _ | .lockTimeout _ | .lockOwner | .unlockLoad | .unlockExchange _
  | .unlockOwner => inferInstanceAs (Decidable True)

instance [Fintype Thread] (initialized : Bool) (s : State Thread) :
    (a : Action Thread) → Decidable (Orderly initialized s a)
  | .run t => inferInstanceAs (Decidable (OrderlyAt initialized s t (s.control t)))
  | .lock _ _ _ | .unlock _ | .schedule _ | .tick => inferInstanceAs (Decidable True)

/-- The points of `Lock` that a call can reach after setting the flag. -/
def Control.exchanging : Control → Prop
  | .exchange _ _ | .exchangeFailed _ _ | .lockTimeout _ | .lockOwner => True
  | _ => False

/-- The points of `Lock` behind a failed exchange. -/
def Control.pastExchange : Control → Prop
  | .exchangeFailed _ _ | .lockTimeout _ | .lockOwner => True
  | .exchange _ expected => expected = true
  | _ => False

/-- The points of `Unlock` behind the owner test. -/
def Control.unlocking : Control → Prop
  | .unlockLoad | .unlockExchange _ | .unlockOwner => True
  | _ => False

open Control (exchanging pastExchange unlocking)

/-- What every orderly run keeps: the flag is set for exactly one call that took it or one thread
that holds it, until that thread is about to clear the owner. -/
structure Inv (s : State Thread) : Prop where
  held_le : s.held.length ≤ 1
  took_unique : ∀ t u, s.took t = true → s.took u = true → t = u
  took_held : ∀ t, s.took t = true → s.held = []
  took_locked : ∀ t, s.took t = true → s.mutex.locked = true
  took_exchanging : ∀ t, s.took t = true → (s.control t).exchanging
  past_took : ∀ t, (s.control t).pastExchange → s.took t = true
  held_locked : ∀ t ∈ s.held, s.mutex.locked = true ∨ s.control t = .unlockOwner
  unlocking_held : ∀ t, (s.control t).unlocking → t ∈ s.held
  owner_held : ∀ t, s.mutex.ownerThread = some t → t ∈ s.held

omit [DecidableEq Thread] in
theorem inv_start (wake canUse : Bool) (ticks : Nat) :
    Inv (start wake canUse ticks : State Thread) := by
  constructor <;> simp [start, pastExchange, unlocking]

variable {initialized : Bool} {s s' : State Thread} {t : Thread}

section

variable (h : Inv s)
include h

/-- A step of a thread that leaves the mutex as it is keeps the invariant if the new point claims no
more than the thread has. -/
theorem Inv.moved (hmutex : s'.mutex = s.mutex) (hheld : s'.held = s.held)
    (hsame : ∀ u, u ≠ t → s'.control u = s.control u ∧ s'.took u = s.took u)
    (htook : s'.took t = true → s.took t = true ∧ (s'.control t).exchanging)
    (hpast : (s'.control t).pastExchange → s'.took t = true)
    (hunlock : (s'.control t).unlocking → t ∈ s.held) (hleave : s.control t ≠ .unlockOwner) :
    Inv s' := by
  have hmono : ∀ u, s'.took u = true → s.took u = true := by
    intro u hu
    by_cases hut : u = t
    · subst hut
      exact (htook hu).1
    · rwa [← (hsame u hut).2]
  refine ⟨hheld ▸ h.held_le, fun u v hu hv => h.took_unique u v (hmono u hu) (hmono v hv),
    fun u hu => hheld ▸ h.took_held u (hmono u hu),
    fun u hu => hmutex ▸ h.took_locked u (hmono u hu), ?_, ?_, ?_, ?_,
    hmutex ▸ hheld ▸ h.owner_held⟩
  · intro u hu
    by_cases hut : u = t
    · subst hut
      exact (htook hu).2
    · rw [(hsame u hut).1]
      exact h.took_exchanging u (hmono u hu)
  · intro u hu
    by_cases hut : u = t
    · subst hut
      exact hpast hu
    · rw [(hsame u hut).1] at hu
      rw [(hsame u hut).2]
      exact h.past_took u hu
  · intro u hu
    rw [hheld] at hu
    rw [hmutex]
    by_cases hut : u = t
    · subst hut
      exact .inl ((h.held_locked u hu).resolve_right hleave)
    · rw [(hsame u hut).1]
      exact h.held_locked u hu
  · intro u hu
    rw [hheld]
    by_cases hut : u = t
    · subst hut
      exact hunlock hu
    · rw [(hsame u hut).1] at hu
      exact h.unlocking_held u hu

theorem Inv.goto {c : Control} (htook : s.took t = true → c.exchanging)
    (hpast : c.pastExchange → s.took t = true) (hunlock : c.unlocking → t ∈ s.held)
    (hleave : s.control t ≠ .unlockOwner) : Inv (s.goto t c) := by
  have hself : (s.goto t c).control t = c := by simp [State.goto]
  refine h.moved rfl rfl (fun u hut => by simp [State.goto, hut]) ?_ ?_ ?_ hleave
  · rw [hself]
    exact fun hu => ⟨hu, htook hu⟩
  · rwa [hself]
  · rwa [hself]

theorem Inv.gotoTaken {c : Control} (htook : s.took t = true) (hc : c.exchanging) :
    Inv (s.goto t c) := by
  refine h.goto (fun _ => hc) (fun _ => htook) (fun hu => ?_) (fun hown => ?_)
  · cases c <;> simp_all [exchanging, unlocking]
  · simpa [hown, exchanging] using h.took_exchanging t htook

/-- A thread that has not reached the exchange may move to a point that claims nothing, or on
through `Unlock` if it is the holder. -/
theorem Inv.gotoOutside {c : Control} (hout : ¬ (s.control t).exchanging)
    (hleave : s.control t ≠ .unlockOwner) (hpast : ¬ c.pastExchange)
    (hunlock : c.unlocking → t ∈ s.held) : Inv (s.goto t c) :=
  h.goto (fun htook => (hout (h.took_exchanging t htook)).elim) (fun hp => (hpast hp).elim)
    hunlock hleave

omit [DecidableEq Thread] in
/-- A holder is the only holder. -/
theorem Inv.held_eq (hmem : t ∈ s.held) : s.held = [t] := by
  have hle := h.held_le
  cases hs : s.held with
  | nil => simp [hs] at hmem
  | cons x xs =>
    rw [hs] at hmem hle
    have hnil : xs = [] := eq_nil_of_length_eq_zero (by simpa using hle)
    subst hnil
    rw [mem_singleton.1 hmem]

omit [DecidableEq Thread] in
theorem Inv.took_of_held (hmem : t ∈ s.held) (u : Thread) : s.took u = false := by
  by_contra hne
  rw [h.took_held u (by simpa using hne)] at hmem
  simp at hmem

/-- Leaving `Lock` with the flag as it is keeps the invariant: the call gives up its claim. -/
theorem Inv.leaveLock (hleave : s.control t ≠ .unlockOwner) : Inv (s.leaveLock t) := by
  refine h.moved rfl rfl (fun u hut => ?_) ?_ ?_ ?_ hleave
  · simp [State.leaveLock, State.goto, hut]
  · simp [State.leaveLock]
  · simp [State.leaveLock, State.goto, pastExchange]
  · simp [State.leaveLock, State.goto, unlocking]

omit [DecidableEq Thread] in
/-- With the flag clear and no `Unlock` about to clear the owner, nobody has a claim. -/
theorem Inv.unclaimed (hclear : s.mutex.locked = false) (hunlock : ∀ u, s.control u ≠ .unlockOwner)
    : s.held = [] ∧ ∀ u, s.took u = false := by
  constructor
  · refine eq_nil_iff_forall_not_mem.2 fun u hu => ?_
    rcases h.held_locked u hu with hl | hl
    · simp [hclear] at hl
    · exact hunlock u hl
  · intro u
    by_contra hne
    have hl := h.took_locked u (by simpa using hne)
    simp [hclear] at hl

/-- Where only one thread has a claim before and after a step of it, the step keeps the
invariant. -/
theorem Inv.sole (hnone : ∀ u, u ≠ t → s.took u = false) (hheld : ∀ u ∈ s.held, u = t)
    (hsame : ∀ u, u ≠ t → s'.control u = s.control u ∧ s'.took u = s.took u)
    (hheld' : s'.held = [] ∨ s'.held = [t])
    (howner : ∀ u, s'.mutex.ownerThread = some u → u ∈ s'.held)
    (htook : s'.took t = true → s'.held = [] ∧ s'.mutex.locked = true ∧ (s'.control t).exchanging)
    (hpast : (s'.control t).pastExchange → s'.took t = true)
    (hlocked : t ∈ s'.held → s'.mutex.locked = true ∨ s'.control t = .unlockOwner)
    (hunlock : (s'.control t).unlocking → t ∈ s'.held) : Inv s' := by
  have hmine : ∀ u, s'.took u = true → u = t := by
    intro u hu
    by_contra hut
    simp [(hsame u hut).2, hnone u hut] at hu
  refine ⟨?_, fun u v hu hv => (hmine u hu).trans (hmine v hv).symm,
    fun u hu => (htook (hmine u hu ▸ hu)).1, fun u hu => (htook (hmine u hu ▸ hu)).2.1, ?_, ?_, ?_,
    ?_, howner⟩
  · rcases hheld' with heq | heq <;> simp [heq]
  · intro u hu
    obtain rfl := hmine u hu
    exact (htook hu).2.2
  · intro u hu
    by_cases hut : u = t
    · subst hut
      exact hpast hu
    · rw [(hsame u hut).1] at hu
      exact absurd (h.past_took u hu) (by simp [hnone u hut])
  · intro u hu
    obtain rfl : u = t := by
      rcases hheld' with heq | heq
      · simp [heq] at hu
      · simpa [heq] using hu
    exact hlocked hu
  · intro u hu
    by_cases hut : u = t
    · subst hut
      exact hunlock hu
    · rw [(hsame u hut).1] at hu
      exact absurd (hheld u (h.unlocking_held u hu)) hut

/-- An orderly exchange keeps the invariant: the call that finds the flag clear is the only one
with a claim afterwards, and a call that has taken the flag finds it set. -/
theorem Inv.exchange {w : Nat} {expected : Bool} (hc : s.control t = .exchange w expected)
    (hord : s.took t = true ∨ s.mutex.locked = false ∧ ∀ u, s.control u ≠ .unlockOwner) :
    Inv (compareExchange s t w expected) := by
  by_cases htook : s.took t = true
  · have hlocked := h.took_locked t htook
    by_cases he : s.mutex.locked = expected
    · have hsame : compareExchange s t w expected = s.goto t (.exchange w expected) := by
        have hupd : Function.update s.took t true = s.took := by
          rw [← htook]
          exact Function.update_eq_self t s.took
        have hm : ({ s.mutex with locked := true } : Mutex Thread) = s.mutex := by
          rw [← hlocked]
        simp [compareExchange, he, State.setLocked, State.goto, htook, hupd, hm]
      rw [hsame]
      exact h.gotoTaken htook trivial
    · simp only [compareExchange, he, if_false]
      exact h.gotoTaken htook trivial
  · obtain ⟨hclear, hunlock⟩ := hord.resolve_left htook
    obtain ⟨hheld, hnone⟩ := h.unclaimed hclear hunlock
    have hexp : expected = false := by
      by_contra hne
      exact htook (h.past_took t (by simpa [hc, pastExchange] using hne))
    have howner : ∀ u, s.mutex.ownerThread ≠ some u := fun u hu => by
      simpa [hheld] using h.owner_held u hu
    simp only [compareExchange, hclear, hexp, if_true]
    refine h.sole (t := t) (fun u _ => hnone u) (by simp [hheld]) (fun u hut => ?_) (.inl hheld)
      (fun u hu => (howner u hu).elim) (fun _ => ⟨hheld, rfl, ?_⟩) ?_ ?_ ?_ <;>
        simp_all [State.goto, State.setLocked, exchanging, pastExchange,
          unlocking]

/-- `Lock` returning true keeps the invariant: the call had the only claim, and its thread now
is the only holder. -/
theorem Inv.lockOwner (hc : s.control t = .lockOwner) {owner : Option Thread}
    (howner : ∀ u, owner = some u → u = t ∨ s.mutex.ownerThread = some u) :
    Inv { (s.setOwner owner).leaveLock t with held := t :: s.held } := by
  have htook := h.past_took t (by rw [hc]; trivial)
  have hheld := h.took_held t htook
  have hlocked := h.took_locked t htook
  have hnone : ∀ u, u ≠ t → s.took u = false := fun u hut => by
    by_contra hne
    exact hut (h.took_unique u t (by simpa using hne) htook)
  refine h.sole hnone (by simp [hheld]) (fun u hut => ?_) (.inr (by simp [hheld])) (fun u hu => ?_)
    ?_ ?_ (fun _ => .inl hlocked) fun _ => mem_cons_self
  · simp [State.leaveLock, State.setOwner, State.goto, hut]
  · rcases howner u hu with rfl | hold
    · exact mem_cons_self
    · exact mem_cons_of_mem t (h.owner_held u hold)
  · simp [State.leaveLock]
  · simp [State.leaveLock, State.goto, pastExchange]

/-- Clearing the flag in `Unlock` keeps the invariant: the only claim is the holder's, and it is
about to clear the owner. -/
theorem Inv.unlockExchange {al : Bool} (hc : s.control t = .unlockExchange al) :
    Inv ((if s.mutex.locked = al then s.setLocked false else s).goto t .unlockOwner) := by
  have hmem : t ∈ s.held := h.unlocking_held t (by rw [hc]; trivial)
  have hnone := h.took_of_held hmem
  have hcontrol (s' : State Thread) : (s'.goto t .unlockOwner).control t = .unlockOwner := by
    simp [State.goto]
  have hheld := h.held_eq hmem
  split
  all_goals
    refine h.sole (fun u _ => hnone u) (by simp [hheld]) (fun u hut => ?_) (.inr hheld) h.owner_held
      (fun hu => ?_) (fun hu => ?_) (fun _ => .inr (hcontrol _)) fun _ => hmem
    · simp [State.goto, State.setLocked, hut]
    · cases (hnone t).symm.trans hu
    · rw [hcontrol] at hu
      cases hu

/-- Clearing the owner completes `Unlock` and gives up the holder's claim. -/
theorem Inv.unlockOwner (hc : s.control t = .unlockOwner) :
    Inv { (s.setOwner none).goto t .idle with held := s.held.erase t } := by
  have hmem : t ∈ s.held := h.unlocking_held t (by rw [hc]; trivial)
  have hheld := h.held_eq hmem
  have hnone := h.took_of_held hmem
  refine h.sole (t := t) (fun u _ => hnone u) (by simp [hheld]) (fun u hut => ?_)
    (.inl (by simp [hheld])) ?_ (fun hu => ?_) ?_ ?_ ?_
  · simp [State.goto, State.setOwner, hut]
  · simp [State.goto, State.setOwner]
  · cases (hnone t).symm.trans hu
  · simp [State.goto, pastExchange]
  · simp [hheld]
  · simp [State.goto, unlocking]

/-- Every orderly step of a thread keeps the invariant, one case per program point. -/
theorem Inv.run (hord : Orderly initialized s (.run t))
    (hstep : runThread initialized s t = some s') : Inv s' := by
  have hpast := h.past_took t
  have hunlocking := h.unlocking_held t
  have houtside {c : Control} := h.gotoOutside (t := t) (c := c)
  cases hc : s.control t with
  | idle | blocked w => simp [runThread, hc] at hstep
  | lockEntry timeout block =>
    simp only [hc] at houtside
    simp only [runThread, hc] at hstep
    split at hstep <;> cases hstep
    · exact h.leaveLock (by simp [hc])
    · exact houtside id (by simp) id False.elim
  | lockDeadline timeout =>
    simp only [hc] at houtside
    simp only [runThread, hc, some.injEq] at hstep
    subst hstep
    exact houtside id (by simp) id False.elim
  | lockTest w =>
    simp only [hc] at houtside
    simp only [runThread, hc] at hstep
    split at hstep
    · split at hstep <;> cases hstep
      · exact houtside id (by simp) id False.elim
      · exact houtside id (by simp) id False.elim
    · cases hstep
      exact houtside id (by simp) (by simp [pastExchange]) False.elim
  | spin w =>
    simp only [hc] at houtside
    simp only [runThread, hc] at hstep
    split at hstep <;> cases hstep
    · exact h
    · exact houtside id (by simp) (by simp [pastExchange]) False.elim
  | exchange w expected =>
    simp only [runThread, hc, some.injEq] at hstep
    subst hstep
    simp only [Orderly, hc, OrderlyAt] at hord
    exact h.exchange hc hord
  | exchangeFailed w expected =>
    have htook := hpast (by rw [hc]; trivial)
    simp only [runThread, hc] at hstep
    split at hstep <;> cases hstep
    · exact h.gotoTaken htook trivial
    · exact h.gotoTaken htook trivial
  | lockTimeout w =>
    have htook := hpast (by rw [hc]; trivial)
    simp only [runThread, hc] at hstep
    split at hstep <;> cases hstep
    · exact h.leaveLock (by simp [hc])
    · exact h.gotoTaken htook trivial
  | lockOwner =>
    simp only [runThread, hc, some.injEq] at hstep
    subst hstep
    split
    · exact h.lockOwner hc fun u hu => .inl (some.inj hu).symm
    · exact h.lockOwner hc fun u hu => .inr hu
  | unlockEntry =>
    simp only [hc] at houtside
    simp only [runThread, hc] at hstep
    split at hstep
    · cases hstep
      exact houtside id (by simp) id False.elim
    · rename_i hallowed
      cases hstep
      have hmem : t ∈ s.held := by
        simp only [Orderly, hc, OrderlyAt] at hord
        rcases hord with ⟨hi, hm⟩ | hheld
        · exact h.owner_held t (by simpa [hi, hm] using hallowed)
        · exact hheld
      exact houtside id (by simp) id fun _ => hmem
  | unlockLoad =>
    simp only [hc] at houtside
    have hmem : t ∈ s.held := hunlocking (by rw [hc]; trivial)
    simp only [runThread, hc, some.injEq] at hstep
    subst hstep
    exact houtside id (by simp) id fun _ => hmem
  | unlockExchange al =>
    simp only [runThread, hc, some.injEq] at hstep
    subst hstep
    exact h.unlockExchange hc
  | unlockOwner =>
    simp only [runThread, hc, some.injEq] at hstep
    subst hstep
    exact h.unlockOwner hc

/-- Every orderly step of the system keeps the invariant. -/
theorem Inv.step {a : Action Thread} (hord : Orderly initialized s a)
    (hstep : Step initialized s a s') : Inv s' := by
  unfold Step at hstep
  cases a with
  | lock u timeout block =>
    simp only [next] at hstep
    split at hstep
    · rename_i hc
      cases hstep
      exact h.gotoOutside (by rw [hc]; exact id) (by simp [hc]) id False.elim
    · cases hstep
  | unlock u =>
    simp only [next] at hstep
    split at hstep
    · rename_i hc
      cases hstep
      exact h.gotoOutside (by rw [hc]; exact id) (by simp [hc]) id False.elim
    · cases hstep
  | run u => exact h.run hord hstep
  | schedule u =>
    simp only [next] at hstep
    split at hstep
    · rename_i w hc
      split at hstep <;> cases hstep
      · exact h.gotoOutside (by rw [hc]; exact id) (by simp [hc])
          (by simp [pastExchange]) False.elim
      · exact h
    · cases hstep
  | tick =>
    cases hstep
    exact ⟨h.held_le, h.took_unique, h.took_held, h.took_locked, h.took_exchanging,
      h.past_took, h.held_locked, h.unlocking_held, h.owner_held⟩

end

/-- In every orderly run, once `Lock` has returned true to a thread, no other `Lock` call has
returned true before that thread's `Unlock` has completed. -/
theorem mutual_exclusion (initialized wake canUse : Bool) (ticks : Nat) (s : State Thread)
    (hrun : Reaches (Orderly initialized) (Step initialized) (start wake canUse ticks) s) :
    Exclusive s :=
  (hrun.invariant Inv (inv_start wake canUse ticks) fun _ _ _ h hord hstep =>
    h.step hord hstep).held_le

/-- An orderly run in which the mutex goes from one thread to the other. -/
theorem mutual_exclusion_handover : ∃ s : State Bool,
    Reaches (Orderly true) (Step true) (start false true 0) s ∧ s.held = [true] ∧ Exclusive s := by
  let turn (t : Bool) : List (Action Bool) := .lock t 0 true :: replicate 8 (.run t)
  let giveBack : List (Action Bool) := .unlock false :: replicate 4 (.run false)
  have hrun : ∃ s, execute (Orderly true) (next true) (start false true 0)
      (turn false ++ giveBack ++ turn true) = some s ∧ s.held = [true] := by
    refine ⟨_, rfl, ?_⟩
    decide
  obtain ⟨s, hexec, hheld⟩ := hrun
  exact ⟨s, .of_execute hexec, hheld, mutual_exclusion true false true 0 s (.of_execute hexec)⟩

end Obos.Locks
