import Obos.Multitasking.RunLists
import Obos.Multitasking.Scheduler

/-!
# Choosing the next thread

The scheduler chooses a run list by its turns, looks for the thread of the list that waits longest,
and goes on to the list below if there is none. `findThreadPriorityList` gives every list as many
turns as its priority before the counters are cleared (`chooseLists_turns`). A scan of a list takes
time slices from the threads and gives them back while it looks for one, but it leaves alone those
it chooses from (`findRunnableThreadInList_longest`), so that the search through the lists misses
none of them (`search_selects`).
-/

namespace Obos.Scheduler

open Lib Obos.Multitasking Function List Option

/-! ## The turns of the lists -/

/-- What a call of `findThreadPriorityList` does: the list it returns, the counters afterwards, and
how often the counters are cleared for a call of itself. -/
structure ListChoice where
  list : Fin 4
  iterations : Fin 4 → Nat
  resets : Nat

open ListChoice (list)

/-- `findThreadPriorityList`, in at most `depth` nested calls. A loop that falls off its end leaves
the index -1, which is not that of a list. -/
def chooseList (size : Fin 4 → Nat) : Nat → (Fin 4 → Nat) → Option ListChoice
  | 0, _ => none
  | depth + 1, iterations =>
    let index := highestList size iterations
    if 1 ≤ iterations 0 then
      (chooseList size depth fun _ => 0).map fun r => { r with resets := r.resets + 1 }
    else
      index.map fun i => ⟨i, Function.update iterations i ((iterations i + 1) % 2 ^ 64), 0⟩

/-- Calls of `findThreadPriorityList`, one after the other, with the sizes the lists have at
each. -/
def chooseLists (depth : Nat) : List (Fin 4 → Nat) → (Fin 4 → Nat) → Option (List ListChoice)
  | [], _ => some []
  | size :: sizes, iterations => do
      let r ← chooseList size depth iterations
      let rs ← chooseLists depth sizes r.iterations
      return r :: rs

section Turns

variable {size iterations : Fin 4 → Nat} {sizes : List (Fin 4 → Nat)} {depth : Nat} {i : Fin 4}
  {r : ListChoice} {rs : List ListChoice}

theorem turns_eq (i : Fin 4) : (1#32 <<< i.val).toNat = 2 ^ i.val := by
  fin_cases i <;> rfl

theorem highestList_spec (h : highestList size iterations = some i) :
    0 < size i ∧ iterations i < 2 ^ i.val := by
  have hfound := find?_some h
  simp only [turns_eq, Bool.and_eq_true, decide_eq_true_eq] at hfound
  exact hfound

theorem highestList_turns {i : Fin 4} (h : highestList size iterations = some i) :
    iterations i + 1 < 2 ^ 64 := by
  have hlt := (highestList_spec h).2
  have hle : 2 ^ i.val ≤ 2 ^ 3 := Nat.pow_le_pow_right (by omega) (by omega)
  omega

theorem highestList_exists (hsize : 0 < size 0) (hturn : iterations 0 = 0) :
    ∃ i, highestList size iterations = some i := by
  rw [← isSome_iff_exists, highestList, find?_isSome]
  exact ⟨0, by simp, by simp [hsize, hturn]⟩

/-- The counters a call starts to count from. -/
def countersFrom (iterations : Fin 4 → Nat) : Fin 4 → Nat :=
  if 1 ≤ iterations 0 then fun _ => 0 else iterations

/-- A call clears the counters once if the idle list has had its turn, and then gives a turn to the
highest list that has threads and turns left. -/
theorem chooseList_spec (h : chooseList size depth iterations = some r) :
    highestList size (countersFrom iterations) = some r.list ∧
      (r.resets ≠ 0 ↔ 1 ≤ iterations 0) ∧ r.resets ≤ 1 ∧ r.iterations =
        update (countersFrom iterations) r.list (countersFrom iterations r.list + 1) := by
  -- a call that clears nothing
  have hplain {depth : Nat} {iterations : Fin 4 → Nat} {r : ListChoice} (hturn : ¬ 1 ≤ iterations 0)
      (h : chooseList size depth iterations = some r) :
      highestList size iterations = some r.list ∧ r.resets = 0 ∧
        r.iterations = update iterations r.list (iterations r.list + 1) := by
    cases depth with
    | zero => cases h
    | succ depth =>
      simp only [chooseList, if_neg hturn, map_eq_some_iff] at h
      obtain ⟨i, hi, rfl⟩ := h
      exact ⟨hi, rfl, by rw [Nat.mod_eq_of_lt (highestList_turns hi)]⟩
  by_cases hturn : 1 ≤ iterations 0
  · cases depth with
    | zero => cases h
    | succ depth =>
      simp only [chooseList, if_pos hturn, map_eq_some_iff] at h
      obtain ⟨r', hr', rfl⟩ := h
      obtain ⟨hlist, hresets, hiterations⟩ := hplain (by simp) hr'
      rw [countersFrom, if_pos hturn]
      exact ⟨hlist, by simpa using hturn, by rw [hresets], hiterations⟩
  · obtain ⟨hlist, hresets, hiterations⟩ := hplain hturn h
    rw [countersFrom, if_neg hturn]
    exact ⟨hlist, by simp [hresets, hturn], by omega, hiterations⟩

/-- The turns from a call on are the turn it gives and those after it. -/
theorem chooseList_turns (h : chooseList size depth iterations = some r)
    (hle : ∀ l, countersFrom iterations l ≤ 2 ^ l.val) (rs : List ListChoice) (l : Fin 4) :
    countersFrom iterations l + ((r :: rs).map ListChoice.list).count l =
      r.iterations l + (rs.map ListChoice.list).count l ∧ r.iterations l ≤ 2 ^ l.val := by
  obtain ⟨hlist, -, -, hiterations⟩ := chooseList_spec h
  rw [hiterations, map_cons, count_cons]
  by_cases hl : r.list = l
  · subst hl
    have hlt := (highestList_spec hlist).2
    simp only [update_self, beq_self_eq_true, if_true]
    omega
  · rw [update_of_ne (Ne.symm hl), if_neg (by simpa using hl)]
    exact ⟨by omega, hle l⟩

/-- One nested call is enough if the idle list is not empty. -/
theorem chooseList_exists (hdepth : 2 ≤ depth) (hsize : 0 < size 0) :
    ∃ r, chooseList size depth iterations = some r := by
  obtain ⟨depth, rfl⟩ := Nat.exists_eq_add_of_le hdepth
  rw [Nat.add_comm]
  by_cases hturn : 1 ≤ iterations 0
  · obtain ⟨i, hi⟩ := @highestList_exists size (fun _ => 0) hsize rfl
    simp [chooseList, hturn, hi]
  · obtain ⟨i, hi⟩ := @highestList_exists size iterations hsize (by omega)
    simp [chooseList, hturn, hi]

/-- The list and the counters are those of the step `chooseList` of the scheduler. -/
theorem findThreadPriorityList_eq (h : chooseList size depth iterations = some r) :
    findThreadPriorityList size iterations = (r.list, r.iterations) := by
  obtain ⟨hlist, -, -, hiterations⟩ := chooseList_spec h
  have hsmall := highestList_turns hlist
  rw [countersFrom] at hlist hiterations hsmall
  simp only [findThreadPriorityList, hlist, Nat.mod_eq_of_lt hsmall, hiterations]

/-- The first of the calls. -/
theorem chooseLists_cons (h : chooseLists depth sizes iterations = some (r :: rs)) :
    ∃ size sizes', chooseList size depth iterations = some r ∧
      chooseLists depth sizes' r.iterations = some rs := by
  cases sizes with
  | nil => cases h
  | cons size sizes =>
    simp only [chooseLists, Option.bind_eq_bind, Option.bind_eq_some_iff, Option.pure_def,
      Option.some.injEq, cons.injEq] at h
    obtain ⟨r', hr, rest, hrest, rfl, rfl⟩ := h
    exact ⟨size, sizes, hr, hrest⟩

/-- The calls after some of the calls. -/
theorem chooseLists_append {before : List ListChoice}
    (h : chooseLists depth sizes iterations = some (before ++ rs)) :
    ∃ sizes' iterations', chooseLists depth sizes' iterations' = some rs := by
  induction before generalizing sizes iterations with
  | nil => exact ⟨sizes, iterations, h⟩
  | cons r before ih =>
    obtain ⟨-, sizes', -, hrest⟩ := chooseLists_cons h
    exact ih hrest

/-- The turns from now on to the next time the counters are cleared. -/
theorem turns_until_reset {mid after : List ListChoice} {d : ListChoice}
    (h : chooseLists depth sizes iterations = some (mid ++ d :: after))
    (hmid : ∀ e ∈ mid, e.resets = 0) (hd : d.resets ≠ 0) (hle : ∀ l, iterations l ≤ 2 ^ l.val) :
    (∀ l, iterations l + (mid.map ListChoice.list).count l ≤ 2 ^ l.val) ∧
      iterations 0 + (mid.map ListChoice.list).count 0 = 1 := by
  induction mid generalizing sizes iterations with
  | nil =>
    obtain ⟨size, sizes', hchoice, -⟩ := chooseLists_cons h
    have hturn := (chooseList_spec hchoice).2.1.1 hd
    have hidle := hle 0
    refine ⟨fun l => by simpa using hle l, ?_⟩
    simp at hidle ⊢
    omega
  | cons e mid ih =>
    obtain ⟨size, sizes', hchoice, hrest⟩ := chooseLists_cons h
    have hturn : ¬ 1 ≤ iterations 0 := fun hturn =>
      (chooseList_spec hchoice).2.1.2 hturn (hmid e mem_cons_self)
    have hturns := chooseList_turns hchoice (by rwa [countersFrom, if_neg hturn]) mid
    rw [countersFrom, if_neg hturn] at hturns
    obtain ⟨hall, hidle⟩ := ih hrest (fun e' he' => hmid e' (mem_cons_of_mem e he'))
      fun l => (hturns l).2
    exact ⟨fun l => (hturns l).1 ▸ hall l, (hturns 0).1 ▸ hidle⟩

end Turns

/-- In every sequence of calls of `findThreadPriorityList`, with any sizes of the lists but an idle
list that is not empty, a call clears the counters and calls itself at most once and returns a list
with threads. From one call that clears the counters up to the next one, each list is returned at
most as often as its priority says, and the idle list once. -/
theorem chooseLists_turns (sizes : List (Fin 4 → Nat)) (iterations : Fin 4 → Nat)
    (hidle : ∀ size ∈ sizes, 0 < size 0) :
    ∃ calls, chooseLists 2 sizes iterations = some calls ∧
      List.Forall₂ (fun size r => r.resets ≤ 1 ∧ 0 < size r.list) sizes calls ∧
      ∀ before c mid d after, calls = before ++ c :: (mid ++ d :: after) →
        c.resets ≠ 0 → d.resets ≠ 0 → (∀ e ∈ mid, e.resets = 0) →
        (∀ l, ((c :: mid).map ListChoice.list).count l ≤ 2 ^ l.val) ∧
          ((c :: mid).map ListChoice.list).count 0 = 1 := by
  have hcalls : ∃ calls, chooseLists 2 sizes iterations = some calls ∧
      List.Forall₂ (fun size r => r.resets ≤ 1 ∧ 0 < size r.list) sizes calls := by
    induction sizes generalizing iterations with
    | nil => exact ⟨[], rfl, .nil⟩
    | cons size sizes ih =>
      obtain ⟨r, hr⟩ :=
        @chooseList_exists size iterations 2 le_rfl (hidle size mem_cons_self)
      obtain ⟨rs, hrs, hall⟩ := ih r.iterations
        fun size' hsize' => hidle size' (mem_cons_of_mem size hsize')
      obtain ⟨hlist, -, hresets, -⟩ := chooseList_spec hr
      exact ⟨r :: rs, by simp [chooseLists, hr, hrs],
        .cons ⟨hresets, (highestList_spec hlist).1⟩ hall⟩
  obtain ⟨calls, hrun, hall⟩ := hcalls
  refine ⟨calls, hrun, hall, fun before c mid d after hsplit hc hd hmid => ?_⟩
  rw [hsplit] at hrun
  obtain ⟨sizes', iterations', hrest⟩ := chooseLists_append hrun
  obtain ⟨size, sizes'', hchoice, hrest⟩ := chooseLists_cons hrest
  have hturn := (chooseList_spec hchoice).2.1.1 hc
  -- the first turn is the one of the call that has cleared the counters
  have hfirst := chooseList_turns hchoice (by simp [countersFrom, hturn]) mid
  simp only [countersFrom, if_pos hturn, Nat.zero_add] at hfirst
  obtain ⟨hturns, honce⟩ := turns_until_reset hrest hmid hd fun l => (hfirst l).2
  exact ⟨fun l => (hfirst l).1 ▸ hturns l, (hfirst 0).1 ▸ honce⟩

/-- The second round of turns of lists that all have a thread. -/
theorem chooseLists_turns_two_rounds :
    ∃ before c mid d after, chooseLists 2 (List.replicate 31 fun _ => 1) (fun _ => 0) =
        some (before ++ c :: (mid ++ d :: after)) ∧ c.resets ≠ 0 ∧ d.resets ≠ 0 ∧ mid.length = 14 ∧
      (∀ l, ((c :: mid).map ListChoice.list).count l ≤ 2 ^ l.val) ∧
      ((c :: mid).map ListChoice.list).count 0 = 1 := by
  obtain ⟨calls, hrun, -, hturns⟩ := chooseLists_turns (replicate 31 fun _ => 1) (fun _ => 0)
    fun size hsize => by
      rw [eq_of_mem_replicate hsize]
      exact Nat.one_pos
  have hresets : (chooseLists 2 (replicate 31 fun _ => 1) (fun _ => 0)).map
      (map ListChoice.resets) = some (replicate 15 0 ++ 1 :: (replicate 14 0 ++ [1])) := by
    decide +kernel
  rw [hrun] at hresets
  obtain ⟨before, rest, rfl, -, hrest⟩ := map_eq_append_iff.1 (some.inj hresets)
  obtain ⟨c, rest, rfl, hc, hrest⟩ := map_eq_cons_iff.1 hrest
  obtain ⟨mid, rest, rfl, hmid, hrest⟩ := map_eq_append_iff.1 hrest
  obtain ⟨d, after, rfl, hd, -⟩ := map_eq_cons_iff.1 hrest
  have hc : c.resets ≠ 0 := by omega
  have hd : d.resets ≠ 0 := by omega
  have hlength : mid.length = 14 := by simpa using congrArg length hmid
  exact ⟨before, c, mid, d, after, hrun, hc, hd, hlength, hturns before c mid d after rfl hc hd
    fun e he => eq_of_mem_replicate (hmid ▸ mem_map_of_mem he)⟩

/-! ## The threads of a list -/

/-- The threads and the local `ret` in `findRunnableThreadInList`. -/
structure Scan where
  thread : Nat → Thread
  ret : Nat

/-- A thread that has used up its time slices is marked. -/
def markUsedSlices (t : Thread) : Thread :=
  if t.priority ≤ t.timeSliceIndex then
    { t with status := t.status ||| statusClearTimeSliceIndex }
  else t

/-- A thread that was marked before gets its time slices back. -/
def clearUsedSlices (clearTimeSliceIndex : Bool) (t : Thread) : Thread :=
  if clearTimeSliceIndex then
    { t with status := t.status &&& ~~~statusClearTimeSliceIndex, timeSliceIndex := 0 }
  else t

/-- A round of the loop of `findRunnableThreadInList`. -/
def scanThread (cpuId : Nat) (s : Scan) (currentThread : Nat) : Scan :=
  let clearTimeSliceIndex := (s.thread currentThread).status &&& statusClearTimeSliceIndex ≠ 0
  let marked := markUsedSlices (s.thread currentThread)
  let thread := Function.update s.thread currentThread marked
  let earlier := marked.lastTimePreempted < (thread s.ret).lastTimePreempted
  let ret := if threadCanRun cpuId marked ∧ (s.ret = 0 ∨ earlier) then currentThread else s.ret
  ⟨Function.update thread currentThread (clearUsedSlices clearTimeSliceIndex marked), ret⟩

/-- The loop of `findRunnableThreadInList`, from a thread on. -/
def scanThreads (cpuId : Nat) (prevRun : Nat → Nat) : Nat → Nat → Scan → Option Scan
  | 0, _, _ => none
  | fuel + 1, currentThread, s =>
    if currentThread = 0 then some s
    else scanThreads cpuId prevRun fuel (prevRun currentThread) (scanThread cpuId s currentThread)

/-- `findRunnableThreadInList` on a CPU. -/
def findRunnableThreadInList (m : Machine n) (c : Fin n) (fuel : Nat) (list : Fin 4)
    (thread : Nat → Thread) : Option Scan :=
  scanThreads (m.cpuId c) m.prevRun fuel (m.tail list) ⟨thread, 0⟩

/-- A run list. -/
def Machine.runList (m : Machine n) (list : Fin 4) : DList Nat :=
  ⟨m.nextRun, m.prevRun, m.head list, m.tail list⟩

/-- What the loop makes of a thread. -/
def scanned (t : Thread) : Thread :=
  clearUsedSlices (t.status &&& statusClearTimeSliceIndex ≠ 0) (markUsedSlices t)

section Scan

variable {cpuId : Nat} {t : Thread} {s : Scan} {x : Nat} {xs ys : List Nat} {f : Nat → Thread}

theorem threadCanRun_iff : threadCanRun cpuId t = true ↔
    t.status = statusCanRun ∧ t.affinity.getLsbD cpuId = true ∧ t.timeSliceIndex < t.priority := by
  simp [threadCanRun, and_assoc]

/-- The mark is made on threads that cannot run. -/
theorem threadCanRun_mark (cpuId : Nat) (t : Thread) :
    threadCanRun cpuId (markUsedSlices t) = threadCanRun cpuId t := by
  unfold markUsedSlices
  split
  · rename_i hused
    have hslice := BitVec.not_lt.2 hused
    simp [threadCanRun, hslice]
  · rfl

theorem scanned_of_canRun (h : threadCanRun cpuId t = true) : scanned t = t := by
  obtain ⟨hstatus, -, hslice⟩ := threadCanRun_iff.1 h
  have hmark : markUsedSlices t = t := if_neg (BitVec.not_le.2 hslice)
  rw [scanned, hmark, hstatus]
  rfl

/-- The loop changes no status bit but the mark. -/
theorem scanned_status (t : Thread) {b : BitVec 32} (hb : statusClearTimeSliceIndex &&& b = 0) :
    (scanned t).status &&& b = t.status &&& b := by
  have hbit (i : Nat) (hi : b.getLsbD i = true) : statusClearTimeSliceIndex.getLsbD i = false := by
    have hzero := congrArg (fun v => BitVec.getLsbD v i) hb
    simpa [hi] using hzero
  have hset (v : BitVec 32) : (v ||| statusClearTimeSliceIndex) &&& b = v &&& b := by
    refine BitVec.eq_of_getLsbD_eq fun i hi => ?_
    cases hbi : b.getLsbD i with
    | false => simp [hbi]
    | true => simp [hbi, hbit i hbi]
  have hclear (v : BitVec 32) : (v &&& ~~~statusClearTimeSliceIndex) &&& b = v &&& b := by
    refine BitVec.eq_of_getLsbD_eq fun i hi => ?_
    cases hbi : b.getLsbD i with
    | false => simp [hbi]
    | true => simp only [BitVec.getLsbD_and, BitVec.getLsbD_not, hbit i hbi, hi]; simp
  have hmark : (markUsedSlices t).status &&& b = t.status &&& b := by
    unfold markUsedSlices
    split
    · exact hset _
    · rfl
  unfold scanned clearUsedSlices
  split
  · exact (hclear _).trans hmark
  · exact hmark

theorem scanned_fields (t : Thread) :
    (scanned t).priority = t.priority ∧ (scanned t).affinity = t.affinity ∧
      (scanned t).lastTimePreempted = t.lastTimePreempted := by
  unfold scanned clearUsedSlices markUsedSlices
  split <;> split <;> exact ⟨rfl, rfl, rfl⟩

/-- A marked thread that only lacks time slices can run when the loop has passed over it. -/
theorem threadCanRun_scanned (hmarked : t.status &&& statusClearTimeSliceIndex ≠ 0)
    (hstatus : t.status &&& ~~~statusClearTimeSliceIndex = statusCanRun)
    (haffinity : t.affinity.getLsbD cpuId = true) (hpriority : t.priority ≠ 0) :
    threadCanRun cpuId (scanned t) = true := by
  obtain ⟨hpri, haff, -⟩ := scanned_fields t
  have hkept :=
    (scanned_status t (show statusClearTimeSliceIndex &&& ~~~statusClearTimeSliceIndex = 0
    by decide)).trans hstatus
  have hclear : scanned t = { markUsedSlices t with
      status := (markUsedSlices t).status &&& ~~~statusClearTimeSliceIndex, timeSliceIndex :=
        0 } := by
    rw [scanned, clearUsedSlices, if_pos (decide_eq_true hmarked)]
  refine threadCanRun_iff.2 ⟨?_, haff ▸ haffinity, ?_⟩
  · rw [hclear] at hkept ⊢
    simpa [BitVec.and_assoc] using hkept
  · rw [hpri, hclear]
    bv_omega

/-- One that is not marked yet can run when the loop has passed over it twice. -/
theorem threadCanRun_scanned_twice (hstatus : t.status &&& ~~~statusClearTimeSliceIndex =
    statusCanRun) (haffinity : t.affinity.getLsbD cpuId = true) (hpriority : t.priority ≠ 0) :
    threadCanRun cpuId (scanned (scanned t)) = true := by
  obtain ⟨hpri, haff, -⟩ := scanned_fields t
  by_cases hmarked : t.status &&& statusClearTimeSliceIndex = 0
  · have hsame : t.status &&& ~~~statusClearTimeSliceIndex = t.status := by
      refine BitVec.eq_of_getLsbD_eq fun i hi => ?_
      have hbit := congrArg (fun v => BitVec.getLsbD v i) hmarked
      simp only [BitVec.getLsbD_and, BitVec.getLsbD_not] at hbit ⊢
      cases hv : t.status.getLsbD i with
      | false => simp
      | true => simp_all
    by_cases hslice : t.timeSliceIndex < t.priority
    · have hrun := threadCanRun_iff.2 ⟨hsame.symm.trans hstatus, haffinity, hslice⟩
      rwa [scanned_of_canRun hrun, scanned_of_canRun hrun]
    · have hmark : scanned t = { t with status := t.status ||| statusClearTimeSliceIndex } := by
        rw [scanned, markUsedSlices, if_pos (BitVec.not_lt.1 hslice), clearUsedSlices,
          if_neg (by simpa using hmarked)]
      refine threadCanRun_scanned ?_ ?_ (haff ▸ haffinity) (hpri ▸ hpriority)
      · intro hzero
        rw [hmark] at hzero
        have hbit := congrArg (fun v => BitVec.getLsbD v 4) hzero
        simp [statusClearTimeSliceIndex] at hbit
      · exact (scanned_status t (by decide)).trans hstatus
  · have hrun := threadCanRun_scanned hmarked hstatus haffinity hpriority
    rwa [scanned_of_canRun hrun]

theorem scanThread_thread (cpuId : Nat) (s : Scan) (x : Nat) :
    (scanThread cpuId s x).thread = update s.thread x (scanned (s.thread x)) :=
  update_idem _ _ _

/-- `ret` is the thread that waits longest of those of `ys` that can run, if there is one. -/
def Longest (cpuId : Nat) (thread : Nat → Thread) (ys : List Nat) (ret : Nat) : Prop :=
  (ret = 0 ∧ ∀ y ∈ ys, threadCanRun cpuId (thread y) = false) ∨
    (ret ∈ ys ∧ threadCanRun cpuId (thread ret) = true ∧
      ∀ y ∈ ys, threadCanRun cpuId (thread y) = true →
        (thread ret).lastTimePreempted ≤ (thread y).lastTimePreempted)

/-- A thread is compared with the one found so far. -/
theorem scanThread_ret (hne : s.ret ≠ x) : (scanThread cpuId s x).ret =
    if threadCanRun cpuId (s.thread x) = true ∧ (s.ret = 0 ∨
      (s.thread x).lastTimePreempted < (s.thread s.ret).lastTimePreempted) then x else s.ret := by
  have htime :
      (markUsedSlices (s.thread x)).lastTimePreempted = (s.thread x).lastTimePreempted := by
    unfold markUsedSlices
    split <;> rfl
  simp only [scanThread, threadCanRun_mark, htime, update_of_ne hne]

/-- One more thread. -/
theorem Longest.snoc {ret : Nat} (h : Longest cpuId f ys ret) (hnull : 0 ∉ ys) (y : Nat) :
    Longest cpuId f (ys ++ [y]) (if threadCanRun cpuId (f y) = true ∧ (ret = 0 ∨
      (f y).lastTimePreempted < (f ret).lastTimePreempted) then y else ret) := by
  have hmem {x : Nat} : x ∈ ys ++ [y] ↔ x ∈ ys ∨ x = y := by simp
  split
  · rename_i hnew
    refine .inr ⟨hmem.2 (.inr rfl), hnew.1, fun x hx hrun => ?_⟩
    rcases hmem.1 hx with hx | rfl
    · rcases h with ⟨-, hnone⟩ | ⟨hret, -, hleast⟩
      · rw [hnone x hx] at hrun
        cases hrun
      · have hlt := hnew.2.resolve_left fun hzero => hnull (hzero ▸ hret)
        have hle := hleast x hx hrun
        bv_omega
    · exact BitVec.le_refl _
  · rename_i hold
    rcases h with ⟨hzero, hnone⟩ | ⟨hret, hrun, hleast⟩
    · refine .inl ⟨hzero, fun x hx => ?_⟩
      rcases hmem.1 hx with hx | rfl
      · exact hnone x hx
      · exact Bool.eq_false_of_not_eq_true fun hrun => hold ⟨hrun, .inl hzero⟩
    · refine .inr ⟨hmem.2 (.inl hret), hrun, fun x hx hrunx => ?_⟩
      rcases hmem.1 hx with hx | rfl
      · exact hleast x hx hrunx
      · exact BitVec.not_lt.1 fun hlt => hold ⟨hrunx, .inr hlt⟩

/-- The loop over a list of threads: each of them is passed over once, and `ret` is the one that
waits longest. -/
theorem foldl_scanThread (hnodup : ys.Nodup) (hnull : 0 ∉ ys) (f : Nat → Thread) :
    (∀ x, (ys.foldl (scanThread cpuId) ⟨f, 0⟩).thread x = if x ∈ ys then scanned (f x) else f x) ∧
      Longest cpuId f ys (ys.foldl (scanThread cpuId) ⟨f, 0⟩).ret := by
  induction ys using reverseRecOn with
  | nil => exact ⟨fun x => by simp, .inl ⟨rfl, by simp⟩⟩
  | append_singleton ys y ih =>
    rw [nodup_append] at hnodup
    have hnull' : 0 ∉ ys := fun hmem => hnull (mem_append_left _ hmem)
    obtain ⟨hthread, hret⟩ := ih hnodup.1 hnull'
    have hnew : y ∉ ys := fun hmem => hnodup.2.2 y hmem y (mem_singleton_self y) rfl
    have hy : y ≠ 0 := fun he => hnull (by simp [he])
    rw [foldl_append, foldl_cons, foldl_nil]
    obtain ⟨s, hs⟩ : ∃ s, ys.foldl (scanThread cpuId) ⟨f, 0⟩ = s := ⟨_, rfl⟩
    rw [hs] at hthread hret ⊢
    have hold : s.thread y = f y := by rw [hthread, if_neg hnew]
    constructor
    · intro x
      rw [scanThread_thread, hold]
      by_cases hx : x = y
      · rw [hx, update_self, if_pos (by simp)]
      · rw [update_of_ne hx, hthread]
        simp [hx]
    · have hne : s.ret ≠ y := by
        rcases hret with ⟨hzero, -⟩ | ⟨hmem, -⟩
        · exact fun he => hy (he.symm.trans hzero)
        · exact fun he => hnew (he ▸ hmem)
      have htime : (s.thread s.ret).lastTimePreempted = (f s.ret).lastTimePreempted := by
        rw [hthread]
        split
        · exact (scanned_fields _).2.2
        · rfl
      rw [scanThread_ret hne, hold, htime]
      exact hret.snoc hnull' y

/-- The loop goes through the list from its tail. -/
theorem scanThreads_eq {l : DList Nat} {as bs : List Nat} {fuel : Nat}
    (hlist : l.IsList 0 (as ++ bs)) (hfuel : as.length < fuel) (s : Scan) :
    scanThreads cpuId l.prev fuel ((0 :: as).getLast (by simp)) s =
      some (as.reverse.foldl (scanThread cpuId) s) := by
  obtain ⟨k, rfl⟩ : ∃ k, fuel = k + 1 := ⟨fuel - 1, by omega⟩
  induction as using reverseRecOn generalizing bs k s with
  | nil => simp [scanThreads]
  | append_singleton as x ih =>
    have hlen : as.length < k := by simpa using hfuel
    obtain ⟨j, rfl⟩ : ∃ j, k = j + 1 := ⟨k - 1, by omega⟩
    have hlist' : l.IsList 0 (as ++ x :: bs) := by simpa using hlist
    have hx : x ≠ 0 := fun he => hlist'.null_notMem (by simp [he])
    have hlast : (0 :: (as ++ [x])).getLast (by simp) = x := by simp
    rw [hlast, scanThreads, if_neg hx, hlist'.neighbours.1, ih hlist' _ j hlen,
      reverse_append, reverse_singleton, singleton_append, foldl_cons]

end Scan

section FindRunnable

variable {m : Machine n} {c : Fin n} {fuel : Nat} {list : Fin 4} {thread : Nat → Thread}
  {xs : List Nat}

/-- The threads on a run list, none of which has no priority. -/
structure Machine.WellFormed (m : Machine n) (list : Fin 4) (thread : Nat → Thread)
    (xs : List Nat) : Prop where
  list : (m.runList list).IsList 0 xs
  priority : ∀ t ∈ xs, (thread t).priority ≠ 0

/-- `findRunnableThreadInList` passes over each thread of the list once and finds the one that
waits longest. -/
theorem findRunnableThreadInList_eq (c : Fin n) (hlist : (m.runList list).IsList 0 xs)
    (hfuel : xs.length < fuel) (thread : Nat → Thread) :
    ∃ s, findRunnableThreadInList m c fuel list thread = some s ∧
      (∀ x, s.thread x = if x ∈ xs then scanned (thread x) else thread x) ∧
      Longest (m.cpuId c) thread xs s.ret := by
  have hnil : (m.runList list).IsList 0 (xs ++ []) := by rwa [append_nil]
  have hnull : 0 ∉ xs.reverse := fun hmem => hlist.null_notMem (mem_reverse.1 hmem)
  obtain ⟨hthread, hret⟩ := @foldl_scanThread (m.cpuId c) xs.reverse
    (nodup_reverse.2 hlist.nodup) hnull thread
  refine ⟨xs.reverse.foldl (scanThread (m.cpuId c)) ⟨thread, 0⟩, ?_, fun x => ?_, ?_⟩
  · have hscan := @scanThreads_eq (m.cpuId c) _ _ _ _ hnil hfuel ⟨thread, 0⟩
    rwa [← hlist.tail_eq] at hscan
  · simpa using hthread x
  · simpa [Longest] using hret

end FindRunnable

/-- On a well-formed run list `findRunnableThreadInList` returns null if no thread can run on the
CPU, and else one that can and that waits longest of those that can. A thread that could run if it
had not used up its time slices can run when any CPU has passed over the list a second time. -/
theorem findRunnableThreadInList_longest (m : Machine n) (c : Fin n) (list : Fin 4)
    (thread : Nat → Thread) (xs : List Nat) (hlist : m.WellFormed list thread xs) (fuel : Nat)
    (hfuel : xs.length < fuel) :
    ∃ s, findRunnableThreadInList m c fuel list thread = some s ∧
      (s.ret = 0 ↔ ∀ t ∈ xs, threadCanRun (m.cpuId c) (thread t) = false) ∧
      (s.ret ≠ 0 → s.ret ∈ xs ∧ threadCanRun (m.cpuId c) (thread s.ret) = true ∧
        ∀ t ∈ xs, threadCanRun (m.cpuId c) (thread t) = true →
          (thread s.ret).lastTimePreempted ≤ (thread t).lastTimePreempted) ∧
      ∀ t ∈ xs, (thread t).status &&& ~~~statusClearTimeSliceIndex = statusCanRun →
        (thread t).affinity.getLsbD (m.cpuId c) = true → ∀ c' : Fin n,
          ∃ s', findRunnableThreadInList m c' fuel list s.thread = some s' ∧
            threadCanRun (m.cpuId c) (s'.thread t) = true := by
  obtain ⟨s, hscan, hthread, hret⟩ := findRunnableThreadInList_eq c hlist.list hfuel thread
  refine ⟨s, hscan, ⟨fun hzero => ?_, fun hnone => ?_⟩, fun hne => ?_, ?_⟩
  · rcases hret with ⟨-, hnone⟩ | ⟨hmem, -⟩
    · exact hnone
    · exact absurd (hzero ▸ hmem) hlist.list.null_notMem
  · rcases hret with ⟨hzero, -⟩ | ⟨hmem, hrun, -⟩
    · exact hzero
    · rw [hnone _ hmem] at hrun
      cases hrun
  · exact hret.resolve_left fun hzero => hne hzero.1
  · intro t ht hstatus haffinity c'
    obtain ⟨s', hscan', hthread', -⟩ := findRunnableThreadInList_eq c' hlist.list hfuel s.thread
    refine ⟨s', hscan', ?_⟩
    rw [hthread', if_pos ht, hthread, if_pos ht]
    exact threadCanRun_scanned_twice hstatus haffinity (hlist.priority t ht)

/-- A CPU whose idle thread is 2, with the thread 1 on the list of the normal priority. -/
def oneThread : Machine 1 where
  cpuId := fun _ => 0
  idleThread := fun _ => 2
  head := fun i => if i = 2 then 1 else 0
  tail := fun i => if i = 2 then 1 else 0
  size := fun i => if i = 2 then 1 else 0
  nextRun := fun _ => 0
  prevRun := fun _ => 0

/-- The same CPU, with the threads 1, 3 and 4 on the list. -/
def threeThreads : Machine 1 :=
  { oneThread with
    tail := fun i => if i = 2 then 4 else 0
    size := fun i => if i = 2 then 3 else 0
    nextRun := fun t => if t = 1 then 3 else if t = 3 then 4 else 0
    prevRun := fun t => if t = 4 then 3 else if t = 3 then 1 else 0 }

/-- The thread 3 waits longer than the thread 1, and the thread 4 has used up its time slices. -/
def usedUp : Nat → Thread := fun t =>
  { Thread.zero with
    status := statusCanRun
    priority := 4
    timeSliceIndex := if t = 4 then 4 else 0
    affinity := 1
    lastTimePreempted := if t = 1 then 7 else 5 }

theorem wellFormed_threeThreads : threeThreads.WellFormed 2 usedUp [1, 3, 4] where
  list := ⟨by simp [DList.Adjacent, DList.succ, DList.pred, threeThreads, oneThread,
    Machine.runList], by simp, by simp⟩
  priority := fun t _ => by simp [usedUp]

/-- The thread that waits longest is found, and the one without time slices can run after the second
pass. -/
theorem findRunnableThreadInList_longest_usedUp :
    ∃ s s', findRunnableThreadInList threeThreads 0 4 2 usedUp = some s ∧ s.ret = 3 ∧
      findRunnableThreadInList threeThreads 0 4 2 s.thread = some s' ∧
      threadCanRun 0 (usedUp 4) = false ∧ threadCanRun 0 (s'.thread 4) = true := by
  obtain ⟨s, hscan, hnull, hlongest, htwice⟩ := findRunnableThreadInList_longest threeThreads 0 2
    usedUp [1, 3, 4] wellFormed_threeThreads 4 (by simp)
  obtain ⟨s', hscan', hrun⟩ := htwice 4 (by simp) (by decide) (by decide) 0
  have hne : s.ret ≠ 0 := fun hzero => absurd (hnull.1 hzero 1 (by simp)) (by decide)
  obtain ⟨hmem, hcan, hlongest⟩ := hlongest hne
  have hthree := hlongest 3 (by simp) (by decide)
  refine ⟨s, s', hscan, ?_, hscan', by decide, hrun⟩
  simp only [mem_cons, not_mem_nil, or_false] at hmem
  rcases hmem with hret | hret | hret
  · rw [hret] at hthree
    exact absurd hthree (by decide)
  · exact hret
  · rw [hret] at hcan
    exact absurd hcan (by decide)

/-! ## The search through the lists -/

/-- How the search of `schedule` ends: with a thread to run, or with a failed assertion about it. -/
inductive SearchEnd where
  | selected (newThread : Nat)
  | panicked (newThread : Nat)

/-- The search of `schedule` from the label `find` on, in at most so many scans of a list, with the
local `currentThread` in `cur`. -/
def search (m : Machine n) (c : Fin n) (cur fuel : Nat) :
    Nat → (Nat → Thread) → Fin 4 → Nat → Option (SearchEnd × (Nat → Thread))
  | 0, _, _, _ => none
  | scans + 1, thread, list, foundHighPriority =>
    (findRunnableThreadInList m c fuel list thread).bind fun s =>
      let high := if s.ret = 0 ∧ list = 3 then foundHighPriority + 1 else foundHighPriority
      let next := if s.ret = 0 then list - 1 else list
      if s.ret = 0 ∧ high < 2 then search m c cur fuel scans s.thread next high
      else
        let newThread := if high = 2 then m.idleThread c else s.ret
        let status := (s.thread newThread).status
        if status &&& statusBlocked ≠ 0 ∨ status &&& statusPaused ≠ 0 then
          some (.panicked newThread, s.thread)
        else if newThread ≠ cur ∧ status &&& statusRunning ≠ 0 then
          search m c cur fuel scans s.thread next high
        else some (.selected newThread, s.thread)

section Search

variable {m : Machine n} {c : Fin n} {cur fuel scans high : Nat} {list : Fin 4}
  {thread : Nat → Thread} {s : Scan}

/-- The number of scans until the search falls back to the idle thread. -/
def scansLeft (list : Fin 4) (high : Nat) : Nat :=
  if high = 0 then if list = 3 then 5 else list.val + 6
  else if list = 3 then 1 else list.val + 2

/-- The list `i` is scanned before the search falls back to the idle thread. -/
def ScannedLater (i list : Fin 4) (high : Nat) : Prop :=
  high = 0 ∨ i = 3 ∨ list ≠ 3 ∧ i ≤ list

/-- A scan that finds nothing leads to the next list, and all lists that are still to be scanned are
so afterwards. -/
theorem scansLeft_next (hhigh : high < 2) (hlast : ¬ (list = 3 ∧ high = 1)) :
    let high' := if list = 3 then high + 1 else high
    high' < 2 ∧ scansLeft (list - 1) high' + 1 = scansLeft list high ∧
      ∀ i, i ≠ list → ScannedLater i list high → ScannedLater i (list - 1) high' := by
  unfold scansLeft ScannedLater
  interval_cases high <;> revert hlast <;> revert list <;> decide

theorem status_of_canRun {t : Thread} {cpuId : Nat} (h : threadCanRun cpuId t = true) :
    t.status &&& statusBlocked = 0 ∧ t.status &&& statusPaused = 0 ∧
      t.status &&& statusRunning = 0 := by
  rw [(threadCanRun_iff.1 h).1]
  decide

theorem search_found (hscan : findRunnableThreadInList m c fuel list thread = some s)
    (hne : s.ret ≠ 0) (hrun : threadCanRun (m.cpuId c) (s.thread s.ret) = true) (hhigh : high < 2) :
    search m c cur fuel (scans + 1) thread list high = some (.selected s.ret, s.thread) := by
  obtain ⟨hblocked, hpaused, hrunning⟩ := status_of_canRun hrun
  simp [search, hscan, hne, Nat.ne_of_lt hhigh, hblocked, hpaused, hrunning]

theorem search_next (hscan : findRunnableThreadInList m c fuel list thread = some s)
    (hzero : s.ret = 0) (hhigh : (if list = 3 then high + 1 else high) < 2) :
    search m c cur fuel (scans + 1) thread list high =
      search m c cur fuel scans s.thread (list - 1) (if list = 3 then high + 1 else high) := by
  rw [search, hscan, bind_some]
  simp only [hzero, true_and, if_true]
  rw [if_pos hhigh]

/-- The second scan of the highest list that finds nothing ends the search with the idle thread. -/
theorem search_idle (hscan : findRunnableThreadInList m c fuel 3 thread = some s)
    (hzero : s.ret = 0) (hidle : (s.thread (m.idleThread c)).status &&& statusRunning ≠ 0 →
      m.idleThread c = cur) :
    ∃ e, search m c cur fuel (scans + 1) thread 3 1 = some (e, s.thread) := by
  rw [search, hscan, bind_some]
  simp only [hzero, true_and, if_true, Nat.reduceAdd, Nat.lt_irrefl, if_false]
  split
  · exact ⟨.panicked (m.idleThread c), rfl⟩
  · rw [if_neg fun h => h.1 (hidle h.2)]
    exact ⟨.selected (m.idleThread c), rfl⟩

end Search

/-- The search of `schedule` ends after at most eight scans, whatever list it starts with, if the
idle thread of the CPU is not running on another one. If a thread of any list can run when the
search begins, it selects one from the lists that can run. -/
theorem search_selects (m : Machine n) (c : Fin n) (cur : Nat) (thread : Nat → Thread)
    (xs : Fin 4 → List Nat) (hlists : ∀ i, (m.runList i).IsList 0 (xs i))
    (hidle : (thread (m.idleThread c)).status &&& statusRunning ≠ 0 → m.idleThread c = cur)
    (fuel : Nat) (hfuel : ∀ i, (xs i).length < fuel) (list : Fin 4) :
    ∃ e thread', search m c cur fuel 8 thread list 0 = some (e, thread') ∧
      ((∃ i, ∃ t ∈ xs i, threadCanRun (m.cpuId c) (thread t) = true) →
        ∃ i, ∃ t ∈ xs i, e = .selected t ∧ threadCanRun (m.cpuId c) (thread' t) = true) := by
  have hsearch (scans : Nat) : ∀ (list : Fin 4) (high : Nat) (thread : Nat → Thread), high < 2 →
      scansLeft list high ≤ scans →
      ((thread (m.idleThread c)).status &&& statusRunning ≠ 0 → m.idleThread c = cur) →
      ∃ e thread', search m c cur fuel scans thread list high = some (e, thread') ∧
        ∀ i, ∀ t ∈ xs i, ScannedLater i list high → threadCanRun (m.cpuId c) (thread t) = true →
          ∃ i, ∃ t ∈ xs i, e = .selected t ∧ threadCanRun (m.cpuId c) (thread' t) = true := by
    induction scans with
    | zero =>
      intro list high thread hhigh hscans
      have hpos : 0 < scansLeft list high := by
        unfold scansLeft
        split <;> split <;> omega
      omega
    | succ scans ih =>
      intro list high thread hhigh hscans hidle
      obtain ⟨s, hscan, hthread, hret⟩ :=
        findRunnableThreadInList_eq c (hlists list) (hfuel list) thread
      have hkeeps {t : Nat} (hrun : threadCanRun (m.cpuId c) (thread t) = true) :
          s.thread t = thread t := by
        rw [hthread, scanned_of_canRun hrun, ite_self]
      rcases hret with ⟨hzero, hnone⟩ | ⟨hmem, hrun, -⟩
      · have hidle' : (s.thread (m.idleThread c)).status &&& statusRunning ≠ 0 →
            m.idleThread c = cur := by
          intro hrunning
          refine hidle fun hclear => hrunning ?_
          rw [hthread]
          split
          · rw [scanned_status _ (by decide), hclear]
          · exact hclear
        have hother {i : Fin 4} {t : Nat} (ht : t ∈ xs i)
            (hrun : threadCanRun (m.cpuId c) (thread t) = true) : i ≠ list := by
          rintro rfl
          rw [hnone t ht] at hrun
          cases hrun
        by_cases hlast : list = 3 ∧ high = 1
        · obtain ⟨rfl, rfl⟩ := hlast
          obtain ⟨e, he⟩ := search_idle hscan hzero hidle'
          refine ⟨e, s.thread, he, fun i t ht hlater hrun => ?_⟩
          rcases hlater with hlater | hlater | hlater
          · cases hlater
          · exact absurd hlater (hother ht hrun)
          · exact absurd rfl hlater.1
        · obtain ⟨hhigh', hleft, hlater⟩ := scansLeft_next hhigh hlast
          obtain ⟨e, thread', he, hselects⟩ :=
            ih (list - 1) (if list = 3 then high + 1 else high) s.thread hhigh' (by omega) hidle'
          refine ⟨e, thread', (search_next hscan hzero hhigh').trans he, fun i t ht hi hrun => ?_⟩
          exact hselects i t ht (hlater i (hother ht hrun) hi) (by rwa [hkeeps hrun])
      · have hne : s.ret ≠ 0 := fun he => (hlists list).null_notMem (he ▸ hmem)
        have hrun' : threadCanRun (m.cpuId c) (s.thread s.ret) = true := by rwa [hkeeps hrun]
        exact ⟨.selected s.ret, s.thread, search_found hscan hne hrun' hhigh,
          fun _ _ _ _ _ => ⟨list, s.ret, hmem, rfl, hrun'⟩⟩
  obtain ⟨e, thread', he, hselects⟩ := hsearch 8 list 0 thread (by omega)
    (by revert list; decide) hidle
  refine ⟨e, thread', he, ?_⟩
  rintro ⟨i, t, ht, hrun⟩
  exact hselects i t ht (.inl rfl) hrun

/-- Threads of the normal priority that can run. -/
def waiting : Nat → Thread := fun _ =>
  { Thread.zero with status := statusCanRun, priority := 4, affinity := 1 }

/-- The search that starts with the highest list selects the only thread there is. -/
theorem search_selects_waiting :
    ∃ e thread', search oneThread 0 0 2 8 waiting 3 0 = some (e, thread') ∧ e = .selected 1 := by
  have hlists (i : Fin 4) : (oneThread.runList i).IsList 0 (if i = 2 then [1] else []) := by
    by_cases hi : i = 2 <;> refine ⟨?_, by simp [hi], by simp [hi]⟩ <;>
      simp [DList.Adjacent, DList.succ, DList.pred, oneThread, Machine.runList, hi]
  obtain ⟨e, thread', hsearch, hselects⟩ := search_selects oneThread 0 0 waiting
    (fun i => if i = 2 then [1] else []) hlists (fun hrunning => absurd (by decide) hrunning) 2
    (fun i => by split <;> simp) 3
  obtain ⟨i, t, ht, he, -⟩ := hselects ⟨2, 1, by simp, by decide⟩
  have hone : t = 1 := by
    by_cases hi : i = 2
    · simpa [hi] using ht
    · simp [hi] at ht
  exact ⟨e, thread', hsearch, hone ▸ he⟩

end Obos.Scheduler
