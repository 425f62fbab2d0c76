import Obos.Lib.DLists
import Obos.Multitasking.Thread

/-!
# The run lists

The scheduler walks the four run lists, so every thread that is not dead has to be on
the list of its priority, and the links of the lists have to be in order.
`RunLists good k xs` says that the run lists of the kernel are the lists `xs` of
threads; one lemma for each edit says what becomes of `xs`.

`SetThreadPriority` leaves the links of a thread pointing into the list it came from,
and `CreateThread` takes every priority whose lowest bit is one of the first four.
`runLists_in_order` says that the lists stay in order in every run that avoids both.
-/

namespace Obos.Multitasking

open Lib Function Kernel Option

/-! ## Four disjoint lists -/

/-- The run lists consist of the objects `xs`, without sharing. -/
structure Chains (links : Links) (lists : Fin 4 → ThreadList) (xs : Fin 4 → List Nat) : Prop where
  list : ∀ i, (links.through (lists i)).IsList 0 (xs i)
  size : ∀ i, (lists i).size = (xs i).length
  bound : ∀ i, ∀ x ∈ xs i, x < 2 ^ 64
  disjoint : ∀ i j x, x ∈ xs i → x ∈ xs j → i = j

/-- The ends of a run list. -/
def ThreadList.ends (l : ThreadList) : Ends Nat := ⟨l.head, l.tail⟩

variable {xs : Fin 4 → List Nat}

theorem chains_iff {links : Links} {lists : Fin 4 → ThreadList} :
    Chains links lists xs ↔ CountedLists ⟨links.next, links.prev⟩ (fun i => (lists i).ends)
      (fun i => (lists i).size) xs :=
  ⟨fun h => ⟨⟨h.list, h.disjoint⟩, h.size, h.bound⟩,
    fun h => ⟨h.lists.list, h.size, h.bound, h.lists.disjoint⟩⟩

namespace Chains

variable {links links' : Links} {lists : Fin 4 → ThreadList} {xs : Fin 4 → List Nat} {i : Fin 4}
  {obj : Nat}

variable (h : Chains links lists xs)
include h

theorem congr
    (hlinks : ∀ j, ∀ x ∈ xs j, links'.next x = links.next x ∧ links'.prev x = links.prev x) :
    Chains links' lists xs :=
  chains_iff.2 ((chains_iff.1 h).congr hlinks)

/-- An object is erased from between the others. -/
theorem exists_split (hobj : obj ∈ xs i) :
    ∃ as bs, xs i = as ++ obj :: bs ∧ (xs i).erase obj = as ++ bs := by
  obtain ⟨as, bs, hsplit⟩ := List.append_of_mem hobj
  have hnodup := (h.list i).nodup
  rw [hsplit] at hnodup
  have hnotMem : obj ∉ as := fun hmem =>
    (List.nodup_middle.1 hnodup).notMem (List.mem_append_left bs hmem)
  exact ⟨as, bs, hsplit, by rw [hsplit, List.erase_append_right _ hnotMem, List.erase_cons_head]⟩

/-- Taking an object out of its list. -/
theorem unlink (hobj : obj ∈ xs i) : Chains (links.unlink (lists i) obj).1
      (update lists i (links.unlink (lists i) obj).2)
      (update xs i ((xs i).erase obj)) := by
  obtain ⟨as, bs, hsplit, herase⟩ := h.exists_split hobj
  rw [herase, chains_iff]
  simp only [apply_update (fun _ => ThreadList.ends),
    apply_update (fun _ => ThreadList.size)]
  have hunlinked := (chains_iff.1 h).unlink hsplit
  rw [Nat.add_sub_assoc Nat.one_le_two_pow] at hunlinked
  exact hunlinked

theorem mem_erase (hobj : obj ∈ xs i) (j : Fin 4) (x : Nat) :
    x ∈ update xs i ((xs i).erase obj) j ↔ x ∈ xs j ∧ x ≠ obj := by
  obtain ⟨as, bs, hsplit, herase⟩ := h.exists_split hobj
  rw [herase]
  exact (chains_iff.1 h).lists.mem_unlink hsplit j x

/-- Appending an object that is in none of the lists. -/
theorem pushBack (hnew : ∀ j, obj ∉ xs j) (hnull : obj ≠ 0) (hbound : obj < 2 ^ 64)
    (hnext : links.next obj = 0) :
    Chains (links.pushBack (lists i) obj).1
      (update lists i (links.pushBack (lists i) obj).2)
      (update xs i (xs i ++ [obj])) := by
  rw [chains_iff]
  simp only [apply_update (fun _ => ThreadList.ends),
    apply_update (fun _ => ThreadList.size)]
  exact (chains_iff.1 h).pushBack hnew hnull hbound hnext

end Chains

/-! ## The threads on the lists -/

/-- The object exists and its thread is not dead. -/
def Kernel.Alive (k : Kernel) (x : Nat) : Prop :=
  k.objects x = true ∧ (k.thread x).status ≠ statusDead

/-- The run lists consist of the objects `xs`, which are the threads that are not dead. Each points
to its list, and its priority is good for it. -/
structure RunLists (good : Fin 4 → BitVec 32 → Prop) (k : Kernel) (xs : Fin 4 → List Nat) :
    Prop where
  chains : Chains k.run k.priorityLists xs
  alive : ∀ i, ∀ x ∈ xs i, k.Alive x
  points : ∀ i, ∀ x ∈ xs i, (k.thread x).priorityList = some i
  good : ∀ i, ∀ x ∈ xs i, good i (k.thread x).priority
  all : ∀ x, k.Alive x → ∃ i, x ∈ xs i

namespace RunLists

variable {good : Fin 4 → BitVec 32 → Prop} {k k' : Kernel} {xs : Fin 4 → List Nat} {i : Fin 4}
  {obj : Nat}

/-- What the lists need of a thread. -/
def Fits (good : Fin 4 → BitVec 32 → Prop) (k : Kernel) (i : Fin 4) (x : Nat) : Prop :=
  k.Alive x ∧ (k.thread x).priorityList = some i ∧ good i (k.thread x).priority

theorem fits (h : RunLists good k xs) {x : Nat} (hx : x ∈ xs i) : Fits good k i x :=
  ⟨h.alive i x hx, h.points i x hx, h.good i x hx⟩

theorem of_fits (hchains : Chains k.run k.priorityLists xs)
    (hfits : ∀ i, ∀ x ∈ xs i, Fits good k i x) (hall : ∀ x, k.Alive x → ∃ i, x ∈ xs i) :
    RunLists good k xs :=
  ⟨hchains, fun i x hx => (hfits i x hx).1, fun i x hx => (hfits i x hx).2.1,
    fun i x hx => (hfits i x hx).2.2, hall⟩

/-- An update that keeps the links of the lists and what they need of the threads. -/
theorem congr (h : RunLists good k xs) (hlists : k'.priorityLists = k.priorityLists)
    (hlinks : ∀ x, k.Alive x → k'.run.next x = k.run.next x ∧ k'.run.prev x = k.run.prev x)
    (halive : ∀ x, k'.Alive x ↔ k.Alive x)
    (hkeep : ∀ x, k.Alive x → (k'.thread x).priorityList = (k.thread x).priorityList ∧
      (k'.thread x).priority = (k.thread x).priority) : RunLists good k' xs where
  chains := by
    rw [hlists]
    exact h.chains.congr fun j x hx => hlinks x (h.alive j x hx)
  alive j x hx := (halive x).2 (h.alive j x hx)
  points j x hx := by
    rw [(hkeep x (h.alive j x hx)).1]
    exact h.points j x hx
  good j x hx := by
    rw [(hkeep x (h.alive j x hx)).2]
    exact h.good j x hx
  all x hx := h.all x ((halive x).1 hx)

/-- Writing fields of a thread that the lists do not depend on. -/
theorem setThread (h : RunLists good k xs) {t : Thread} (hstatus : t.status = (k.thread obj).status)
    (hpoints : t.priorityList = (k.thread obj).priorityList)
    (hpriority : t.priority = (k.thread obj).priority) : RunLists good (k.setThread obj t) xs := by
  refine h.congr rfl (fun _ _ => ⟨rfl, rfl⟩) (fun x => ?_) fun x _ => ?_
  · by_cases hx : x = obj
    · subst hx
      simp [Alive, Kernel.setThread, hstatus]
    · simp [Alive, Kernel.setThread, hx]
  · by_cases hx : x = obj
    · subst hx
      simp [Kernel.setThread, hpoints, hpriority]
    · simp [Kernel.setThread, hx]

/-- Deleting an object whose thread is dead. -/
theorem delete (h : RunLists good k xs) (hdead : ¬ k.Alive obj) :
    RunLists good (k.delete obj) xs := by
  have hne {x : Nat} (hx : k.Alive x) : x ≠ obj := fun he => hdead (he ▸ hx)
  refine h.congr rfl (fun x hx => ?_) (fun x => ?_) fun x hx => ?_
  · simp [Kernel.delete, hne hx]
  · by_cases hx : x = obj
    · subst hx
      refine iff_of_false (fun halive => ?_) hdead
      simp [Alive, Kernel.delete] at halive
    · simp [Alive, Kernel.delete, hx]
  · simp [Kernel.delete, hne hx]

/-- A thread that dies is taken out of its list. -/
theorem kill (h : RunLists good k xs) (hobj : obj ∈ xs i) {exitCode flags : BitVec 32}
    (hrun : (k.markDead obj exitCode flags).unlinkRun obj = some k') :
    RunLists good k' (update xs i ((xs i).erase obj)) := by
  have hpoints : ((k.markDead obj exitCode flags).thread obj).priorityList = some i := by
    simpa [markDead] using h.points i obj hobj
  rw [unlinkRun, hpoints] at hrun
  cases hrun
  have hmem := h.chains.mem_erase hobj
  refine .of_fits (h.chains.unlink hobj) ?_ ?_
  · intro j x hx
    obtain ⟨hx, hne⟩ := (hmem j x).1 hx
    simpa [Fits, Alive, setRun, markDead, hne] using h.fits hx
  · intro x hx
    have hne : x ≠ obj := by
      rintro rfl
      simp [Alive, setRun, markDead] at hx
    obtain ⟨j, hj⟩ :=
      h.all x (by simpa [Alive, setRun, markDead, hne] using hx)
    exact ⟨j, (hmem j x).2 ⟨hj, hne⟩⟩

/-- A new thread is appended to the list it points to. -/
theorem addThread (h : RunLists good k xs) {currentThread tproc : Nat} {par : NewThread}
    (hfresh : k.objects par.obj = false) (hpos : 0 < par.obj) (hbound : par.obj < 2 ^ 64)
    (hgood : good i par.priority) :
    RunLists good (k.addThread currentThread par i tproc)
      (update xs i (xs i ++ [par.obj])) := by
  have hne {x : Nat} {j : Fin 4} (hx : x ∈ xs j) : x ≠ par.obj := by
    rintro rfl
    have hobj := (h.alive j _ hx).1
    rw [hfresh] at hobj
    cases hobj
  have hstatus : (k.newThread currentThread par i tproc).status ≠ statusDead :=
    k.newThread_status currentThread tproc par i
  have hmem := Lists.mem_append xs i par.obj
  have hchains : Chains (k.construct par.obj Thread.zero).run k.priorityLists xs :=
    h.chains.congr fun j x hx => by simp [construct, hne hx]
  refine .of_fits (hchains.pushBack (fun j hx => hne hx rfl) (by omega) hbound
    (by simp [construct])) ?_ ?_
  · intro j x hx
    rcases (hmem j x).1 hx with hx | ⟨rfl, rfl⟩
    · simpa [Fits, Alive, hne hx] using h.fits hx
    · exact ⟨by simpa [Alive] using hstatus, by simp [newThread],
        by simpa [newThread] using hgood⟩
  · intro x hx
    by_cases he : x = par.obj
    · exact ⟨i, (hmem i x).2 (.inr ⟨rfl, he⟩)⟩
    · obtain ⟨j, hj⟩ := h.all x (by simpa [Alive, he] using hx)
      exact ⟨j, (hmem j x).2 (.inl hj)⟩

end RunLists

/-! ## Changing the priority -/

/-- The priority a run list is for, `THREAD_PRIORITY_IDLE` to `THREAD_PRIORITY_HIGH`. -/
def listPriority (i : Fin 4) : BitVec 32 := 1#32 <<< i.val

/-- The threads of a run list have its priority. -/
def InPlace (i : Fin 4) (priority : BitVec 32) : Prop := priority = listPriority i

/-- The `switch` finds the list of the priority. -/
theorem priorityListOf_eq_some {priority : BitVec 32} {i : Fin 4}
    (h : priorityListOf priority = some i) : priority = listPriority i := by
  unfold priorityListOf at h
  split_ifs at h with h0 h1 h2 h3 <;> cases h <;> assumption

/-- Moving an object keeps the links of the list it comes to in order: the object is the last of
its list, and the list it comes to has a tail or the object no predecessor. -/
def Kernel.Movable (k : Kernel) (obj : Nat) (i : Fin 4) : Prop :=
  k.run.next obj = 0 ∧ ((k.priorityLists i).tail ≠ 0 ∨ k.run.prev obj = 0)

/-- Where the `prev` field of the object need not be cleared, `SetThreadPriority` appends as the
other functions do. -/
theorem moveBack_eq (links : Links) (l : ThreadList) (obj : Nat)
    (h : l.tail ≠ 0 ∨ links.prev obj = 0) : links.moveBack l obj = links.pushBack l obj := by
  by_cases htail : l.tail = 0
  · have hprev : links.prev obj = 0 := h.resolve_left (absurd htail)
    have hsame : update links.prev obj 0 = links.prev := by
      rw [← hprev, update_eq_self]
    simp [Links.moveBack, Links.pushBack, DList.pushBack, Links.through, htail, hsame]
  · simp only [Links.moveBack, Links.pushBack, DList.pushBack, Links.through, htail, ne_eq,
      not_false_eq_true, if_true, if_false]
    rfl

/-- A thread that can be moved keeps the lists in order when its priority changes. -/
theorem RunLists.setPriority {k k' : Kernel} {obj : Nat} {i : Fin 4} (h : RunLists InPlace k xs)
    (halive : k.Alive obj) (hother : (k.thread obj).priority ≠ listPriority i)
    (hmovable : k.Movable obj i) (hrun : k.unlinkRun obj = some k') :
    ∃ xs', RunLists InPlace ((k'.setRun i (k'.run.moveBack (k'.priorityLists i) obj)).setThread obj
      { k'.thread obj with priorityList := some i, priority := listPriority i }) xs' := by
  obtain ⟨o, hobj⟩ := h.all obj halive
  have hoi : i ≠ o := by
    rintro rfl
    exact hother (h.good i obj hobj)
  rw [unlinkRun, h.points o obj hobj] at hrun
  cases hrun
  have hself : (k.run.unlink (k.priorityLists o) obj).1.next obj = k.run.next obj ∧
      (k.run.unlink (k.priorityLists o) obj).1.prev obj = k.run.prev obj :=
    DList.unlink_self 0 (k.run.through (k.priorityLists o)) obj
  have hmove := moveBack_eq (k.run.unlink (k.priorityLists o) obj).1 (k.priorityLists i) obj
    (by rw [hself.2]; exact hmovable.2)
  have hmem : ∀ j x, x ∈ update (update xs o ((xs o).erase obj)) i
      (update xs o ((xs o).erase obj) i ++ [obj]) j ↔
        (x ∈ xs j ∧ x ≠ obj) ∨ (j = i ∧ x = obj) := by
    intro j x
    rw [Lists.mem_append, h.chains.mem_erase hobj]
  refine ⟨update (update xs o ((xs o).erase obj)) i
    (update xs o ((xs o).erase obj) i ++ [obj]), .of_fits ?_ ?_ ?_⟩
  · have hchains := (h.chains.unlink hobj).pushBack (i := i)
      (fun j hj => ((h.chains.mem_erase hobj j obj).1 hj).2 rfl)
      (fun he => (h.chains.list o).null_notMem (he ▸ hobj)) (h.chains.bound o obj hobj)
      (by rw [hself.1]; exact hmovable.1)
    rw [update_of_ne hoi] at hchains
    rw [← hmove] at hchains
    simpa only [setRun, Kernel.setThread, update_of_ne hoi] using hchains
  · intro j x hx
    rcases (hmem j x).1 hx with ⟨hx, hne⟩ | ⟨rfl, rfl⟩
    · simpa [Fits, Alive, setRun, Kernel.setThread, hne] using h.fits hx
    · simpa [Fits, Alive, setRun, Kernel.setThread, InPlace] using halive
  · intro x hx
    by_cases he : x = obj
    · exact ⟨i, (hmem i x).2 (.inr ⟨rfl, he⟩)⟩
    · obtain ⟨j, hj⟩ := h.all x (by
        simpa [Alive, setRun, Kernel.setThread, he] using hx)
      exact ⟨j, (hmem j x).2 (.inl ⟨hj, he⟩)⟩

/-! ## Looking up, terminating and exiting -/

section Exit

variable {good : Fin 4 → BitVec 32 → Prop} {k k' : Kernel} {xs : Fin 4 → List Nat} {obj : Nat}

variable {currentThread : Nat} {tid : BitVec 32}

/-- The walk of `lookForThreadInList` stays on the list. -/
theorem lookForThreadInList_mem {i : Fin 4} (h : (k.runList i).IsList 0 (xs i)) {fuel ret : Nat}
    {before rest : List Nat} (hxs : xs i = before ++ rest)
    (hret : ret = (rest ++ [0]).head (by simp))
    (hlook : k.lookForThreadInList tid fuel ret = some obj) : obj = 0 ∨ obj ∈ xs i := by
  induction fuel generalizing ret before rest with
  | zero => cases hlook
  | succ fuel ih =>
    cases rest with
    | nil =>
      rw [lookForThreadInList, if_pos (by simpa using hret)] at hlook
      cases hlook
      exact .inl rfl
    | cons x rest =>
      have hx : ret = x := by simpa using hret
      subst hx
      have hmem : ret ∈ xs i := by simp [hxs]
      have hnull : ret ≠ 0 := fun he => h.null_notMem (he ▸ hmem)
      rw [lookForThreadInList, if_neg hnull] at hlook
      split at hlook
      · cases hlook
        exact .inr hmem
      · have hsplit := h
        rw [hxs] at hsplit
        have hrest : xs i = (before ++ [ret]) ++ rest := by simp [hxs]
        exact ih hrest hsplit.neighbours.2 hlook

/-- `OpenThread` finds threads of the run lists only. -/
theorem RunLists.findThread_mem (h : RunLists good k xs) (hfind : k.findThread tid = some obj) :
    obj = 0 ∨ k.Alive obj := by
  refine foldlM_invariant hfind (fun _ obj => obj = 0 ∨ k.Alive obj) (.inl rfl) ?_
  intro _ i _ o o' _ ho hbody
  split at hbody
  · have hlist := h.chains.list i
    rcases lookForThreadInList_mem hlist (List.nil_append _).symm hlist.head_eq hbody with ho' | ho'
    · exact .inl ho'
    · exact .inr (h.alive i o' ho')
  · cases hbody
    exact ho

/-- The objects that handles refer to stay, with their references, and no thread comes to life. -/
structure Kept (k k' : Kernel) : Prop where
  objects : ∀ x, k.objects x = true → (k.thread x).references ≠ 0 →
    k'.objects x = true ∧ (k'.thread x).references = (k.thread x).references
  alive : ∀ x, k'.Alive x → k.Alive x

theorem Kept.of_eq (hobjects : k'.objects = k.objects)
    (hreferences : ∀ x, (k'.thread x).references = (k.thread x).references)
    (halive : ∀ x, k'.Alive x → k.Alive x) : Kept k k' :=
  ⟨fun x hx _ => ⟨hobjects ▸ hx, hreferences x⟩, halive⟩

theorem Kept.refl (k : Kernel) : Kept k k := ⟨fun _ hx _ => ⟨hx, rfl⟩, fun _ hx => hx⟩

theorem Kept.trans {k1 k2 k3 : Kernel} (h1 : Kept k1 k2) (h2 : Kept k2 k3) : Kept k1 k3 where
  objects x hx hreferences := by
    obtain ⟨hx2, heq⟩ := h1.objects x hx hreferences
    obtain ⟨hx3, heq'⟩ := h2.objects x hx2 (heq ▸ hreferences)
    exact ⟨hx3, heq'.trans heq⟩
  alive x hx := h1.alive x (h2.alive x hx)

theorem Kept.setThread {t : Thread} (hreferences : t.references = (k.thread obj).references)
    (hstatus : t.status = (k.thread obj).status) : Kept k (k.setThread obj t) := by
  refine .of_eq rfl (fun x => ?_) fun x => ?_
  · by_cases hx : x = obj
    · simp [Kernel.setThread, hx, hreferences]
    · simp [Kernel.setThread, hx]
  · by_cases hx : x = obj
    · simp [Alive, Kernel.setThread, hx, hstatus]
    · simp [Alive, Kernel.setThread, hx]

/-- A thread that dies stays an object, with its references. -/
theorem kill_kept {exitCode flags : BitVec 32}
    (hrun : (k.markDead obj exitCode flags).unlinkRun obj = some k') : Kept k k' := by
  rw [unlinkRun_eq hrun]
  refine .of_eq rfl (fun x => ?_) fun x hx => ?_
  · by_cases he : x = obj
    · subst he
      simp [markDead]
    · simp [markDead, he]
  · by_cases he : x = obj
    · subst he
      simp [Alive, markDead] at hx
    · simpa [Alive, markDead, he] using hx

variable (h : RunLists good k xs)
include h

theorem RunLists.setList (proc : Nat) (r : Links × ThreadList) :
    RunLists good (k.setList proc r) xs :=
  ⟨h.chains, h.alive, h.points, h.good, h.all⟩

theorem RunLists.fixDefaultAffinity : RunLists good k.fixDefaultAffinity xs := by
  rw [fixDefaultAffinity_eq]
  exact ⟨h.chains, h.alive, h.points, h.good, h.all⟩

theorem RunLists.setReferences (references : BitVec 32) :
    RunLists good (k.setReferences obj references) xs :=
  h.setThread rfl rfl rfl

/-- Opening, terminating and closing a thread that is not the caller keeps the run lists in order
and the references of the handles that are open. -/
theorem RunLists.terminateOpened (hcurrent : ¬ k.Alive currentThread)
    (hrun : k.terminateOpened currentThread tid = some k') :
    ∃ xs', RunLists good k' xs' ∧ Kept k k' := by
  unfold Kernel.terminateOpened at hrun
  simp only [bind, bind_eq_some_iff, Prod.exists] at hrun
  obtain ⟨k1, opened, hopen, k2, _, hterminate, k3, closed, hclose, k4, _, hdestroy, heq⟩ := hrun
  cases heq
  rcases openThread_cases hopen with ⟨-, rfl, rfl⟩ | ⟨obj, hfind, hnull, rfl, rfl⟩
  · -- no thread has the id, and the calls on the empty handle do nothing
    cases hterminate
    cases hclose
    cases hdestroy
    exact ⟨xs, h, .refl _⟩
  have halive := (h.findThread_mem hfind).resolve_left hnull
  have hopened : RunLists good (k.setReferences obj ((k.thread obj).references + 1)) xs :=
    h.setReferences _
  simp only [pointer] at hterminate hclose hdestroy
  rcases terminateThread_cases hterminate with ⟨-, hfail⟩ | ⟨-, -, hkill⟩
  · exfalso
    rcases hfail with hfail | hfail | hfail
    · exact hnull hfail
    · exact halive.2 (by simpa using hfail)
    · exact hcurrent (hfail ▸ halive)
  obtain ⟨i, hobj⟩ := hopened.all obj (by simpa [Alive] using halive)
  have hkilled := hopened.kill hobj hkill
  -- the object is dead, and has one reference more
  have hobjects : k2.objects = k.objects := by
    rw [unlinkRun_eq hkill]
    rfl
  have hself : (k2.thread obj).status = statusDead ∧
      (k2.thread obj).references - 1 = (k.thread obj).references := by
    rw [unlinkRun_eq hkill]
    refine ⟨by simp [markDead], Eq.trans ?_ (BitVec.add_sub_cancel _ 1)⟩
    simp [markDead]
  have hother : ∀ x ≠ obj, k2.thread x = k.thread x := by
    intro x hx
    rw [unlinkRun_eq hkill]
    simp [markDead, hx]
  rcases closeHandle_cases hclose with ⟨hzero, -⟩ | ⟨-, hstatus, -⟩ |
    ⟨-, -, -, rfl, rfl⟩ | ⟨-, -, hlast, rfl, proc, list, rfl⟩
  · exact absurd hzero hnull
  · exact absurd hself.1 hstatus
  · cases hdestroy
    refine ⟨_, hkilled.setReferences _, .of_eq hobjects (fun x => ?_) fun x hx => ?_⟩
    · by_cases he : x = obj
      · subst he
        simpa using hself.2
      · simp [he, hother]
    · by_cases he : x = obj
      · exact he ▸ halive
      · simpa [Alive, hobjects, hother x he] using hx
  · -- the handle keeps the pointer to the deleted object, whose status is not that of a dead thread
    have hzero : (((k2.setReferences obj 0).setList proc list).delete obj).thread obj =
        Thread.zero := update_self ..
    rcases closeHandle_cases hdestroy with ⟨hz, -⟩ | ⟨-, -, rfl, -⟩ | ⟨-, hd, -⟩ | ⟨-, hd, -⟩
    · exact absurd hz hnull
    · have hdead : ¬ ((k2.setReferences obj 0).setList proc list).Alive obj := by
        simp [Alive, Kernel.setList, hself.1]
      refine ⟨_, ((hkilled.setReferences 0).setList proc list).delete hdead, ⟨fun x hx hne => ?_,
        fun x hx => ?_⟩⟩
      · have he : x ≠ obj := by
          rintro rfl
          exact hne (hself.2 ▸ hlast)
        simp [Kernel.delete, Kernel.setList, he, hother x he, hobjects, hx]
      · have he : x ≠ obj := by
          rintro rfl
          simp [Alive, Kernel.delete] at hx
        simpa [Alive, Kernel.delete, Kernel.setList, he, hother x he, hobjects] using hx
    · rw [hzero] at hd
      exact absurd hd (by decide)
    · rw [hzero] at hd
      exact absurd hd (by decide)

/-- The loop of `TerminateProcess`: every thread of the process is killed like that. -/
theorem RunLists.terminateThreads {fuel thread : Nat} (hcurrent : ¬ k.Alive currentThread)
    (hrun : terminateThreads currentThread fuel thread k = some k') :
    ∃ xs', RunLists good k' xs' ∧ Kept k k' := by
  induction fuel generalizing thread k xs with
  | zero => cases hrun
  | succ fuel ih =>
    rw [terminateThreads] at hrun
    split at hrun
    · cases hrun
      exact ⟨xs, h, .refl _⟩
    · simp only [bind, bind_eq_some_iff] at hrun
      obtain ⟨k1, hfirst, hrest⟩ := hrun
      obtain ⟨ys, hlists, hkept⟩ := h.terminateOpened hcurrent hfirst
      obtain ⟨zs, hlists', hkept'⟩ := ih hlists (fun ha => hcurrent (hkept.alive _ ha)) hrest
      exact ⟨zs, hlists', hkept.trans hkept'⟩

omit h in
/-- Deleting an object without references does not concern the handles. -/
theorem delete_kept (hreferences : (k.thread obj).references = 0) : Kept k (k.delete obj) where
  objects x hx hne := by
    have he : x ≠ obj := by
      rintro rfl
      exact hne hreferences
    simp [delete, he, hx]
  alive x hx := by
    have he : x ≠ obj := by
      rintro rfl
      simp [Alive, delete] at hx
    simpa [Alive, delete, he] using hx

/-- `ExitThreadImpl` keeps the run lists in order and the references of the handles. -/
theorem RunLists.exitThreadImpl {exitCode : BitVec 32} (hcurrent : k.Alive currentThread)
    (hrun : k.exitThreadImpl currentThread exitCode = some k') :
    ∃ xs', RunLists good k' xs' ∧ Kept k k' := by
  obtain ⟨k1, hkill, hrest⟩ := exitThreadImpl_cases hrun
  obtain ⟨i, hobj⟩ := h.all currentThread hcurrent
  have hlists := h.kill hobj hkill
  have hkept := kill_kept hkill
  have hdead : ¬ k1.Alive currentThread := by
    rw [unlinkRun_eq hkill]
    simp [Alive, markDead]
  rcases hrest with ⟨-, rfl⟩ | ⟨hzero, hreap⟩
  · exact ⟨_, hlists, hkept⟩
  have hunlisted : Kept k1 (k1.unlinkList currentThread) := .of_eq rfl (fun _ => rfl) fun _ hx => hx
  rcases reap_cases hreap with ⟨rfl, -⟩ | ⟨-, -, k2, flags, hloop, rfl⟩
  · have hreferences : ((k1.unlinkList currentThread).thread currentThread).references = 0 := by
      rw [← hzero, unlinkRun_eq hkill]
      simp [unlinkList, Kernel.setList, markDead]
    exact ⟨_, (hlists.setList _ _).delete hdead, (hkept.trans hunlisted).trans
      (delete_kept hreferences)⟩
  · obtain ⟨ys, hlists', hkept'⟩ := (hlists.setList _ _).terminateThreads hdead hloop
    exact ⟨ys, hlists'.setThread rfl rfl rfl,
      ((hkept.trans hunlisted).trans hkept').trans (.setThread rfl rfl)⟩

end Exit

/-! ## Runs -/

/-- Every thread that is not dead is on exactly one run list, that of its priority, and the lists
are in order and as long as their size fields say. -/
def EachOnItsList (k : Kernel) : Prop :=
  ∃ xs : Fin 4 → List Nat,
    (∀ i, (k.runList i).IsList 0 (xs i) ∧ (k.priorityLists i).size = (xs i).length) ∧
    ∀ x, k.Alive x → ∃ i, (k.thread x).priority = listPriority i ∧ ∀ j, x ∈ xs j ↔ j = i

theorem RunLists.eachOnItsList {k : Kernel} (h : RunLists InPlace k xs) : EachOnItsList k := by
  refine ⟨xs, fun i => ⟨h.chains.list i, h.chains.size i⟩, fun x hx => ?_⟩
  obtain ⟨i, hi⟩ := h.all x hx
  refine ⟨i, h.good i x hi, fun j => ⟨fun hj => h.chains.disjoint j i x hj hi, ?_⟩⟩
  rintro rfl
  exact hi

section Runs

variable {H : Type} [DecidableEq H]

/-- The run lists are in order, and open handles are counted on the objects they point to. -/
structure System.InOrder (s : System H) : Prop where
  lists : ∃ xs, RunLists InPlace s.kernel xs
  handles : ∀ h, s.m_obj h ≠ 0 → s.kernel.objects (s.m_obj h) = true ∧
    (s.kernel.thread (s.m_obj h)).references ≠ 0

/-- The calls that keep the run lists in order. A thread is created with the priority of a list, or
with one that is rejected. A thread that is moved to another list can be moved. -/
def System.KeepsOrder (s : System H) (a : Nat × Call H) : Prop :=
  match a.2 with
  | .createThread _ par =>
    (∃ i, par.priority = listPriority i) ∨ 4 ≤ ctz par.ctzOfZero par.priority
  | .setThreadPriority h priority =>
    s.m_obj h = 0 ∨ (s.kernel.thread (s.m_obj h)).status = statusDead ∨
      (s.kernel.thread (s.m_obj h)).priority = priority ∨
      ∀ i, priorityListOf priority = some i → s.kernel.Movable (s.m_obj h) i
  | .terminateThread .. => True
  | .exitThread _ => True
  | .openThread .. => False
  | .closeHandle _ => False

theorem ctz_listPriority (ofZero : Nat) (i : Fin 4) : ctz ofZero (listPriority i) = i := by
  fin_cases i <;> rfl

omit [DecidableEq H] in
/-- Handles point to the same objects if these are kept. -/
theorem System.InOrder.of_kept {s : System H} (hs : s.InOrder) {k : Kernel} {xs : Fin 4 → List Nat}
    (hlists : RunLists InPlace k xs) (hkept : Kept s.kernel k) :
    System.InOrder { s with kernel := k } where
  lists := ⟨xs, hlists⟩
  handles h hh := by
    obtain ⟨hobject, hreferences⟩ := hs.handles h hh
    obtain ⟨hobject', heq⟩ := hkept.objects _ hobject hreferences
    exact ⟨hobject', heq ▸ hreferences⟩

/-- A call that keeps the order does so. -/
theorem System.InOrder.step {s s' : System H} {a : Nat × Call H} (hs : s.InOrder)
    (hkeeps : s.KeepsOrder a) (hstep : s.Step a s') : s'.InOrder := by
  obtain ⟨currentThread, c⟩ := a
  obtain ⟨⟨hcurrent, hpossible⟩, hcall⟩ := hstep
  obtain ⟨xs, hlists⟩ := hs.lists
  cases c with
  | openThread h tid => exact hkeeps.elim
  | closeHandle h => exact hkeeps.elim
  | createThread h par =>
    obtain ⟨⟨k', r⟩, hcreate, rfl⟩ := map_eq_some_iff.1 hcall
    have hfixed := hlists.fixDefaultAffinity
    rcases createThread_cases hcreate with
      ⟨rfl | rfl, e, rfl⟩ | ⟨i, tproc, -, hctz, rfl, rfl⟩
    · exact hs
    · exact hs.of_kept hfixed (.of_eq (by simp) (by simp) (by simp [Alive]))
    have hplace : InPlace i par.priority := by
      rcases hkeeps with ⟨j, hj⟩ | hrejected
      · rw [hj, ctz_listPriority] at hctz
        rw [InPlace, hj, Fin.ext hctz]
      · exact absurd (hctz ▸ hrejected) (by omega)
    obtain ⟨hpos, hbound, hfresh⟩ := hpossible
    refine ⟨⟨_, hfixed.addThread (by simpa using hfresh) hpos hbound hplace⟩, fun h' hh' => ?_⟩
    by_cases he : h' = h
    · subst he
      simp [System.assign, newThread]
    · have hh : s.m_obj h' ≠ 0 := by simpa [System.assign, he] using hh'
      have hne : s.m_obj h' ≠ par.obj := by
        intro heq
        have hobject := (hs.handles h' hh).1
        rw [heq, hfresh] at hobject
        cases hobject
      simpa [System.assign, he, hne] using hs.handles h' hh
  | setThreadPriority h priority =>
    obtain ⟨⟨k', r⟩, hset, rfl⟩ := map_eq_some_iff.1 hcall
    rcases setThreadPriority_cases hset with rfl |
      ⟨i, k1, hnull, hdead, hother, hlist, hunlink, rfl⟩
    · exact hs
    have halive : s.kernel.Alive (s.m_obj h) := ⟨(hs.handles h hnull).1, hdead⟩
    have hpriority := priorityListOf_eq_some hlist
    have hmovable : s.kernel.Movable (s.m_obj h) i := by
      rcases hkeeps with hk | hk | hk | hk
      · exact absurd hk hnull
      · exact absurd hk hdead
      · exact absurd hk hother
      · exact hk i hlist
    obtain ⟨ys, hlists'⟩ := hlists.setPriority halive (hpriority ▸ hother) hmovable hunlink
    rw [hpriority]
    refine hs.of_kept hlists' ?_
    rw [unlinkRun_eq hunlink]
    refine Kept.trans ?_ (.setThread ?_ ?_)
    · exact .of_eq rfl (fun _ => rfl) fun _ hx => hx
    · rfl
    · rfl
  | terminateThread h exitCode =>
    obtain ⟨⟨k', r⟩, hterminate, rfl⟩ := map_eq_some_iff.1 hcall
    rcases terminateThread_cases hterminate with ⟨rfl, -⟩ | ⟨hnull, hdead, hkill⟩
    · exact hs
    · obtain ⟨i, hobj⟩ := hlists.all (s.m_obj h) ⟨(hs.handles h hnull).1, hdead⟩
      exact hs.of_kept (hlists.kill hobj hkill) (kill_kept hkill)
  | exitThread exitCode =>
    obtain ⟨k', hexit, rfl⟩ := map_eq_some_iff.1 hcall
    obtain ⟨ys, hlists', hkept⟩ := hlists.exitThreadImpl hcurrent hexit
    exact hs.of_kept hlists' hkept

/-- In every run whose calls keep the order, every thread that is not dead is on the run list of
its priority, and the lists are in order. -/
theorem runLists_in_order (s s' : System H) (hstart : s.InOrder)
    (hrun : Reaches System.KeepsOrder System.Step s s') : EachOnItsList s'.kernel := by
  have hinv := hrun.invariant System.InOrder hstart fun _ _ _ hs hkeeps hstep =>
    hs.step hkeeps hstep
  obtain ⟨xs, hlists⟩ := hinv.lists
  exact hlists.eachOnItsList

end Runs

/-- The kernel with its main thread, at `0x1000`, and a handle that is not open. -/
def mainThreadOnly : System (Fin 1) where
  kernel :=
    { thread := Function.update (fun _ => Thread.zero) 0x1000
        ⟨0, 0x20, 4, 0, 0, 0, 0, 0, 0x9000, some 2, 0x9000, 1, 1, 0⟩
      run := ⟨fun _ => 0, fun _ => 0⟩
      list := ⟨fun _ => 0, fun _ => 0⟩
      priorityLists := Function.update (fun _ => ⟨0, 0, 0⟩) 2 ⟨0x1000, 0x1000, 1⟩
      threads := Function.update (fun _ => ⟨0, 0, 0⟩) 0x9000 ⟨0x1000, 0x1000, 1⟩
      processes := [0x9000]
      nextTid := 1
      defaultAffinity := 1
      cpuIds := [0]
      objects := Function.update (fun _ => false) 0x1000 true
      died := fun _ => false
      deletions := fun _ => 0 }
  m_obj := fun _ => 0
  opened := fun _ => none

/-- Its run lists are in order. -/
theorem inOrder_mainThreadOnly : mainThreadOnly.InOrder := by
  have hmem : ∀ i : Fin 4, ∀ x, x ∈ update (fun _ : Fin 4 => ([] : List Nat)) 2 [0x1000]
    i →
      i = 2 ∧ x = 0x1000 := by
    intro i x hx
    by_cases hi : i = 2
    · subst hi
      exact ⟨rfl, List.mem_singleton.1 hx⟩
    · simp [hi] at hx
  refine ⟨⟨update (fun _ => []) 2 [0x1000], .of_fits ⟨?_, ?_, ?_, ?_⟩ ?_ ?_⟩, ?_⟩
  · intro i
    by_cases hi : i = 2
    · subst hi
      exact ⟨by simp [DList.Adjacent, DList.succ, DList.pred, mainThreadOnly, Links.through],
        by simp, by simp⟩
    · refine ⟨?_, by simp [hi], by simp [hi]⟩
      simp [DList.Adjacent, mainThreadOnly, Links.through, hi]
  · decide
  · intro i x hx
    rw [(hmem i x hx).2]
    decide
  · intro i j x hi hj
    rw [(hmem i x hi).1, (hmem j x hj).1]
  · intro i x hx
    rw [(hmem i x hx).1, (hmem i x hx).2]
    exact ⟨⟨rfl, by decide⟩, rfl, rfl⟩
  · intro x hx
    by_cases he : x = 0x1000
    · exact ⟨2, by simp [he]⟩
    · have hobject := hx.1
      simp [mainThreadOnly, he] at hobject
  · intro h hh
    exact absurd rfl hh

/-- A thread created with normal priority, to which no process is given. -/
def normalThread : NewThread := ⟨0x2000, 32, 4, 0, 0, false⟩

/-- A thread created with low priority. -/
def lowThread : NewThread := { normalThread with priority := 2 }

/-- A thread that is alone on its list is moved to another one. -/
theorem runLists_in_order_moved : ∃ s' : System (Fin 1),
    Reaches System.KeepsOrder System.Step mainThreadOnly s' ∧
      (s'.kernel.thread 0x2000).priority = 8 ∧ EachOnItsList s'.kernel := by
  have hrun : Reaches System.KeepsOrder System.Step mainThreadOnly _ :=
    (Relation.ReflTransGen.refl.tail
      ⟨(0x1000, .createThread 0 lowThread), .inl ⟨1, rfl⟩, ⟨⟨rfl, by decide⟩, by decide⟩,
        rfl⟩).tail
      ⟨(0x1000, .setThreadPriority 0 8), .inr (.inr (.inr fun i hi => by
        cases hi
        exact ⟨rfl, .inr rfl⟩)), ⟨⟨rfl, by decide⟩, trivial⟩, rfl⟩
  exact ⟨_, hrun, rfl, runLists_in_order _ _ inOrder_mainThreadOnly hrun⟩

/-- A thread that is the last of its list is moved to an empty list, and keeps its predecessor. -/
theorem setThreadPriority_keeps_link : mainThreadOnly.InOrder ∧ ∃ s' : System (Fin 1),
    Reaches (fun _ _ => True) System.Step mainThreadOnly s' ∧ ¬ EachOnItsList s'.kernel := by
  have hrun : Reaches (fun _ _ => True) System.Step mainThreadOnly _ :=
    (Relation.ReflTransGen.refl.tail
      ⟨(0x1000, .createThread 0 normalThread), trivial, ⟨⟨rfl, by decide⟩, by decide⟩, rfl⟩).tail
      ⟨(0x1000, .setThreadPriority 0 8), trivial, ⟨⟨rfl, by decide⟩, trivial⟩, rfl⟩
  refine ⟨inOrder_mainThreadOnly, _, hrun, ?_⟩
  rintro ⟨xs, hlists, -⟩
  -- the thread at `0x2000` is the head of the list and points back to the one at `0x1000`
  have hlist := (hlists 3).1
  obtain ⟨as, bs, hsplit⟩ := List.append_of_mem (hlist.head_mem (by decide))
  rw [hsplit] at hlist
  exact absurd (hlist.ends_iff.1.1 rfl) (by decide)

end Obos.Multitasking
