import Obos.Multitasking.RunLists
import Mathlib.Data.Fintype.Card

/-!
# References to threads

A thread object counts the handles open on it, so that it can be deleted when the
thread is dead and the last of them is closed.

`CloseHandle` counts a handle down only if the thread is dead, and does not clear a
handle whose object it deletes; `OpenThread` does not close the handle it opens; and
`ExitThreadImpl` does not come back from terminating the process of its last thread.
`references_counted` says that the count is right, and that objects are deleted when
they should be, in every run that avoids all of these.
-/

namespace Obos.Multitasking

open Lib Function Kernel Option

variable {H : Type} [Fintype H]

/-! ## Handles that are open -/

/-- The handles open on an object. -/
def handlesOn (opened : H → Option Nat) (x : Nat) : Finset H :=
  Finset.univ.filter fun h => opened h = some x

section HandlesOn

variable {opened : H → Option Nat} {h : H} {x obj : Nat}

@[simp] theorem mem_handlesOn : h ∈ handlesOn opened x ↔ opened h = some x := by
  simp [handlesOn]

variable [DecidableEq H]

theorem handlesOn_open_self : handlesOn (update opened h (some obj)) obj =
    insert h (handlesOn opened obj) := by
  ext h'
  by_cases he : h' = h
  · simp [he]
  · simp [he]

theorem handlesOn_open_other (hopened : opened h = none) (hx : x ≠ obj) :
    handlesOn (update opened h (some obj)) x = handlesOn opened x := by
  ext h'
  by_cases he : h' = h
  · simp [he, hopened, hx.symm]
  · simp [he]

theorem handlesOn_close : handlesOn (update opened h none) x =
    (handlesOn opened x).erase h := by
  ext h'
  by_cases he : h' = h
  · simp [he]
  · simp [he]

end HandlesOn

/-! ## Runs -/

/-- The thread of an object has died, and no handle is open on it. -/
def Forgotten (died : Nat → Bool) (opened : H → Option Nat) (x : Nat) : Prop :=
  died x = true ∧ handlesOn opened x = ∅

/-- The references of every object are the handles open on it, an object is deleted once if it is
forgotten and not otherwise, and a handle points to the object it is open on and to nothing if it
is closed. -/
structure System.Counted (s : System H) : Prop where
  references : ∀ x, s.kernel.objects x = true →
    (s.kernel.thread x).references.toNat = (handlesOn s.opened x).card
  deleted : ∀ x, Forgotten s.kernel.died s.opened x → s.kernel.deletions x = 1
  remembered : ∀ x, ¬ Forgotten s.kernel.died s.opened x → s.kernel.deletions x = 0
  pointers : ∀ h, s.m_obj h = (s.opened h).getD 0

/-- A count that is right, in a kernel whose run lists are in order. Objects that exist are not
forgotten, and handles are open on objects only. -/
structure System.Sound (s : System H) : Prop extends s.Counted where
  lists : ∃ xs, RunLists (fun _ _ => True) s.kernel xs
  died : ∀ x, s.kernel.objects x = true →
    (s.kernel.died x = true ↔ (s.kernel.thread x).status = statusDead)
  exist : ∀ x, s.kernel.objects x = true → ¬ Forgotten s.kernel.died s.opened x
  opened : ∀ h x, s.opened h = some x → x ≠ 0 ∧ s.kernel.objects x = true

/-- The calls that keep the count right. A handle is opened when it is not open, and the count does
not overflow. A handle is closed when the thread is dead and other handles are open on it. A thread
without handles exits when its process has other threads or is not in the list of processes. -/
def System.KeepsCount (s : System H) (a : Nat × Call H) : Prop :=
  match a.2 with
  | .openThread h tid => ∀ obj, s.kernel.findThread tid = some obj → obj ≠ 0 →
      s.m_obj h = 0 ∧ (s.kernel.thread obj).references ≠ -1
  | .createThread .. => True
  | .setThreadPriority .. => False
  | .terminateThread .. => True
  | .closeHandle h => s.m_obj h = 0 ∨
      ((s.kernel.thread (s.m_obj h)).status = statusDead ∧
        (s.kernel.thread (s.m_obj h)).references ≠ 1)
  | .exitThread _ =>
    let t := s.kernel.thread a.1
    t.references ≠ 0 ∨ (s.kernel.threads t.threadList).size % 2 ^ 64 ≠ 1 ∨
      t.owner ∉ s.kernel.processes

/-- What `Sound` says of one object. -/
structure ObjectSound (k : Kernel) (opened : H → Option Nat) (x : Nat) : Prop where
  references : k.objects x = true → (k.thread x).references.toNat = (handlesOn opened x).card
  deleted : Forgotten k.died opened x → k.deletions x = 1
  remembered : ¬ Forgotten k.died opened x → k.deletions x = 0
  died : k.objects x = true → (k.died x = true ↔ (k.thread x).status = statusDead)
  exist : k.objects x = true → ¬ Forgotten k.died opened x

namespace System.Sound

variable {s : System H}

variable (hs : s.Sound)
include hs

theorem opened_eq_none {h : H} (hnull : s.m_obj h = 0) : s.opened h = none := by
  cases ho : s.opened h with
  | none => rfl
  | some x =>
    have hpointer := hs.pointers h
    rw [ho, hnull] at hpointer
    exact absurd hpointer.symm (hs.opened h x ho).1

/-- A handle whose pointer is not null is open on the object. -/
theorem opened_eq_some {h : H} (hnull : s.m_obj h ≠ 0) : s.opened h = some (s.m_obj h) := by
  cases ho : s.opened h with
  | none =>
    have hpointer := hs.pointers h
    rw [ho] at hpointer
    exact absurd hpointer hnull
  | some x =>
    rw [hs.pointers h, ho, getD_some]

theorem died_eq_false {x : Nat} (hx : s.kernel.Alive x) : s.kernel.died x = false := by
  rw [Bool.eq_false_iff]
  exact fun hd => hx.2 ((hs.died x hx.1).1 hd)

/-- A step that concerns one object, and leaves to the others what is said of them. -/
theorem of_object {k' : Kernel} {m_obj' : H → Nat} {opened' : H → Option Nat} (obj : Nat)
    (hlists : ∃ xs, RunLists (fun _ _ => True) k' xs)
    (hsame : ∀ x ≠ obj, k'.thread x = s.kernel.thread x ∧ k'.objects x = s.kernel.objects x ∧
      k'.died x = s.kernel.died x ∧ k'.deletions x = s.kernel.deletions x ∧
      handlesOn opened' x = handlesOn s.opened x)
    (hobj : ObjectSound k' opened' obj) (hpointers : ∀ h, m_obj' h = (opened' h).getD 0)
    (hopened : ∀ h x, opened' h = some x → x ≠ 0 ∧ k'.objects x = true) :
    System.Sound ⟨k', m_obj', opened'⟩ := by
  have hall : ∀ x, ObjectSound k' opened' x := by
    intro x
    by_cases he : x = obj
    · exact he ▸ hobj
    · obtain ⟨hthread, hobjects, hdied, hdeletions, hhandles⟩ := hsame x he
      constructor <;> simp only [Forgotten, hthread, hobjects, hdied, hdeletions, hhandles]
      exacts [hs.references x, hs.deleted x, hs.remembered x, hs.died x, hs.exist x]
  exact ⟨⟨fun x => (hall x).references, fun x => (hall x).deleted, fun x => (hall x).remembered,
    hpointers⟩, hlists, fun x => (hall x).died, fun x => (hall x).exist, hopened⟩

theorem deletions_eq_zero {x : Nat} (hx : s.kernel.objects x = true) : s.kernel.deletions x = 0 :=
  hs.remembered x (hs.exist x hx)

/-- A thread dies on which a handle is open. -/
theorem kill {obj : Nat} {k' : Kernel} {exitCode flags : BitVec 32} (halive : s.kernel.Alive obj)
    (hopen : (handlesOn s.opened obj).Nonempty)
    (hkill : (s.kernel.markDead obj exitCode flags).unlinkRun obj = some k') :
    System.Sound { s with kernel := k' } := by
  obtain ⟨xs, hlists⟩ := hs.lists
  obtain ⟨i, hobj⟩ := hlists.all obj halive
  have hlists' := hlists.kill hobj hkill
  -- the thread that dies is not forgotten, since a handle is open on it
  have hnot : ¬ Forgotten k'.died s.opened obj := fun hf => hopen.ne_empty hf.2
  rw [unlinkRun_eq hkill] at hlists' hnot ⊢
  refine hs.of_object obj ⟨_, hlists'⟩ (fun x hx => ?_)
    ⟨fun _ => ?_, fun hf => absurd hf hnot, fun _ => hs.deletions_eq_zero halive.1, fun _ => ?_,
      fun _ => hnot⟩ hs.pointers hs.opened
  · simp [markDead, hx]
  · simpa [markDead] using hs.references obj halive.1
  · simp [markDead]

/-- A thread dies on which no handle is open, and its object is deleted. -/
theorem reap {obj : Nat} {k1 : Kernel} {exitCode flags : BitVec 32} (halive : s.kernel.Alive obj)
    (hnone : handlesOn s.opened obj = ∅)
    (hkill : (s.kernel.markDead obj exitCode flags).unlinkRun obj = some k1) :
    System.Sound { s with kernel := (k1.unlinkList obj).delete obj } := by
  obtain ⟨xs, hlists⟩ := hs.lists
  obtain ⟨i, hobj⟩ := hlists.all obj halive
  have heq := unlinkRun_eq hkill
  have hdead : ¬ (k1.unlinkList obj).Alive obj := by
    rw [heq]
    simp [Kernel.Alive, markDead, unlinkList, setList]
  have hself : ((k1.unlinkList obj).delete obj).objects obj = false ∧
      ((k1.unlinkList obj).delete obj).died obj = true ∧
      ((k1.unlinkList obj).delete obj).deletions obj = s.kernel.deletions obj + 1 := by
    rw [heq]
    simp [markDead, unlinkList, setList, delete]
  have hgone {p : Prop} (hx : ((k1.unlinkList obj).delete obj).objects obj = true) : p := by
    rw [hself.1] at hx
    cases hx
  have hother : ∀ x ≠ obj, ((k1.unlinkList obj).delete obj).objects x = s.kernel.objects x := by
    intro x hx
    rw [heq]
    simp [markDead, unlinkList, setList, delete, hx]
  refine hs.of_object obj ⟨_, ((hlists.kill hobj hkill).setList _ _).delete hdead⟩
    (fun x hx => ?_) ⟨hgone, fun _ => ?_, fun hf => absurd ⟨hself.2.1, hnone⟩ hf, hgone, hgone⟩
    hs.pointers fun h x hx => ?_
  · rw [heq]
    simp [markDead, unlinkList, setList, delete, hx]
  · rw [hself.2.2, hs.deletions_eq_zero halive.1]
  · have he : x ≠ obj := by
      rintro rfl
      have hmem := mem_handlesOn.2 hx
      rw [hnone] at hmem
      cases hmem
    rw [hother x he]
    exact hs.opened h x hx

variable [DecidableEq H]

theorem pointers_update (h : H) {v : Nat} {o : Option Nat} (hv : v = o.getD 0) (h' : H) :
    update s.m_obj h v h' = (update s.opened h o h').getD 0 := by
  by_cases he : h' = h
  · simp [he, hv]
  · simpa [he] using hs.pointers h'

theorem opened_update (h : H) {objects : Nat → Bool} {o : Option Nat}
    (hkept : ∀ x, s.kernel.objects x = true → objects x = true)
    (ho : ∀ x, o = some x → x ≠ 0 ∧ objects x = true) (h' : H) (x : Nat)
    (hx : update s.opened h o h' = some x) : x ≠ 0 ∧ objects x = true := by
  by_cases he : h' = h
  · rw [he, update_self] at hx
    exact ho x hx
  · rw [update_of_ne he] at hx
    exact (hs.opened h' x hx).imp_right (hkept x)

/-- A handle that is not open is opened on a thread that is not dead. -/
theorem openHandle {h : H} {obj : Nat} (hclosed : s.m_obj h = 0) (halive : s.kernel.Alive obj)
    (hnull : obj ≠ 0) (hcount : (s.kernel.thread obj).references ≠ -1) :
    System.Sound ⟨s.kernel.setReferences obj ((s.kernel.thread obj).references + 1),
      update s.m_obj h obj, update s.opened h (some obj)⟩ := by
  obtain ⟨xs, hlists⟩ := hs.lists
  have hopened := hs.opened_eq_none hclosed
  have hnot : ¬ Forgotten s.kernel.died (update s.opened h (some obj)) obj := fun hf => by
    simpa [hs.died_eq_false halive] using hf.1
  refine hs.of_object obj ⟨_, hlists.setReferences _⟩ (fun x hx => ?_) ⟨fun _ => ?_,
    fun hf => absurd hf hnot, fun _ => hs.deletions_eq_zero halive.1,
    fun _ => by simpa using hs.died obj halive.1, fun _ => hnot⟩ (hs.pointers_update h rfl)
    (hs.opened_update h (fun _ hx => hx) ?_)
  · simp [hx, handlesOn_open_other hopened hx]
    rfl
  · have hmem : h ∉ handlesOn s.opened obj := by simp [hopened]
    have hsum : ((s.kernel.thread obj).references + 1).toNat =
        (s.kernel.thread obj).references.toNat + 1 := by
      have hne : (s.kernel.thread obj).references.toNat ≠ 2 ^ 32 - 1 := fun htop =>
        hcount (BitVec.eq_of_toNat_eq htop)
      have hone : (1 : BitVec 32).toNat = 1 := rfl
      rw [BitVec.toNat_add]
      omega
    simp only [setReferences_thread, if_true]
    rw [hsum, handlesOn_open_self, Finset.card_insert_of_notMem hmem, hs.references obj halive.1]
  · rintro x ⟨⟩
    exact ⟨hnull, halive.1⟩

/-- A handle is counted down on an object on which other handles are open. -/
theorem closeHandle {h : H} (hopen : s.m_obj h ≠ 0)
    (hcount : (s.kernel.thread (s.m_obj h)).references ≠ 1) :
    System.Sound ⟨s.kernel.setReferences (s.m_obj h) ((s.kernel.thread (s.m_obj h)).references - 1),
      update s.m_obj h 0, update s.opened h none⟩ := by
  obtain ⟨xs, hlists⟩ := hs.lists
  have hopened := hs.opened_eq_some hopen
  have hmem := mem_handlesOn.2 hopened
  have hobject := (hs.opened h _ hopened).2
  have hreferences := hs.references _ hobject
  have hpos := Finset.card_pos.2 ⟨h, hmem⟩
  have hne : (s.kernel.thread (s.m_obj h)).references.toNat ≠ 1 := fun hone =>
    hcount (BitVec.eq_of_toNat_eq hone)
  -- the object is not forgotten, since another handle is open on it
  have hnot : ¬ Forgotten s.kernel.died (update s.opened h none) (s.m_obj h) := by
    rintro ⟨-, hnone⟩
    rw [handlesOn_close, ← Finset.card_eq_zero, Finset.card_erase_of_mem hmem] at hnone
    omega
  refine hs.of_object (s.m_obj h) ⟨_, hlists.setReferences _⟩ (fun x hx => ?_) ⟨fun _ => ?_,
    fun hf => absurd hf hnot, fun _ => hs.deletions_eq_zero hobject,
    fun _ => by simpa using hs.died _ hobject, fun _ => hnot⟩ (hs.pointers_update h rfl)
    (hs.opened_update h (fun _ hx => hx) nofun)
  · have hother : h ∉ handlesOn s.opened x := by
      rw [mem_handlesOn, hopened]
      exact fun hsome => hx (some.inj hsome).symm
    simp [hx, handlesOn_close, Finset.erase_eq_of_notMem hother]
    rfl
  · have hdiff : ((s.kernel.thread (s.m_obj h)).references - 1).toNat =
        (s.kernel.thread (s.m_obj h)).references.toNat - 1 := by
      have hone : (1 : BitVec 32).toNat = 1 := rfl
      rw [BitVec.toNat_sub]
      omega
    simp only [setReferences_thread, if_true]
    rw [hdiff, handlesOn_close, Finset.card_erase_of_mem hmem, hreferences]

omit [DecidableEq H] in
theorem fixDefaultAffinity : System.Sound { s with kernel := s.kernel.fixDefaultAffinity } := by
  obtain ⟨xs, hlists⟩ := hs.lists
  rw [fixDefaultAffinity_eq]
  exact ⟨⟨hs.references, hs.deleted, hs.remembered, hs.pointers⟩,
    ⟨xs, hlists.chains, hlists.alive, hlists.points, hlists.good, hlists.all⟩, hs.died, hs.exist,
    hs.opened⟩

/-- A handle that is not open is opened on a new thread. -/
theorem createThread {h : H} {currentThread tproc : Nat} {par : Kernel.NewThread} {i : Fin 4}
    (hclosed : s.m_obj h = 0) (hpos : 0 < par.obj) (hbound : par.obj < 2 ^ 64)
    (hfresh : s.kernel.objects par.obj = false) :
    System.Sound ⟨s.kernel.addThread currentThread par i tproc,
      update s.m_obj h par.obj, update s.opened h (some par.obj)⟩ := by
  obtain ⟨xs, hlists⟩ := hs.lists
  have hopened := hs.opened_eq_none hclosed
  have hnone : handlesOn s.opened par.obj = ∅ := by
    refine Finset.eq_empty_of_forall_notMem fun h' hmem => ?_
    have hobject := (hs.opened h' _ (mem_handlesOn.1 hmem)).2
    rw [hfresh] at hobject
    cases hobject
  have hself : ¬ Forgotten (update s.kernel.died par.obj false)
      (update s.opened h (some par.obj)) par.obj := by
    rintro ⟨hd, -⟩
    simp at hd
  have hstatus := s.kernel.newThread_status currentThread tproc par i
  refine hs.of_object par.obj ⟨_, hlists.addThread hfresh hpos hbound trivial⟩ (fun x hx => ?_)
    ⟨fun _ => ?_, fun hf => absurd hf hself, fun _ => by simp, fun _ => by simp [hstatus],
      fun _ => hself⟩ (hs.pointers_update h rfl) (hs.opened_update h (fun x hx => ?_) ?_)
  · simp [hx, handlesOn_open_other hopened hx]
  · rw [handlesOn_open_self, hnone]
    simp [newThread]
  · by_cases he : x = par.obj
    · simp [he]
    · simpa [he] using hx
  · rintro x ⟨⟩
    exact ⟨by omega, by simp⟩

/-- A call that keeps the count does so. -/
theorem step {s' : System H} {a : Nat × Call H} (hkeeps : s.KeepsCount a) (hstep : s.Step a s')
    : s'.Sound := by
  obtain ⟨currentThread, c⟩ := a
  obtain ⟨⟨hcurrent, hpossible⟩, hcall⟩ := hstep
  cases c with
  | setThreadPriority h priority => exact hkeeps.elim
  | openThread h tid =>
    obtain ⟨⟨k', r⟩, hopen, rfl⟩ := map_eq_some_iff.1 hcall
    rcases openThread_cases hopen with ⟨-, rfl, rfl⟩ | ⟨obj, hfind, hnull, rfl, rfl⟩
    · exact hs
    · obtain ⟨xs, hlists⟩ := hs.lists
      obtain ⟨hclosed, hcount⟩ := hkeeps obj hfind hnull
      exact hs.openHandle hclosed ((hlists.findThread_mem hfind).resolve_left hnull) hnull hcount
  | createThread h par =>
    obtain ⟨⟨k', r⟩, hcreate, rfl⟩ := map_eq_some_iff.1 hcall
    rcases createThread_cases hcreate with ⟨rfl | rfl, e, rfl⟩ |
      ⟨i, tproc, hclosed, -, rfl, rfl⟩
    · exact hs
    · exact hs.fixDefaultAffinity
    · obtain ⟨hpos, hbound, hfresh⟩ := hpossible
      exact hs.fixDefaultAffinity.createThread hclosed hpos hbound (by simpa using hfresh)
  | terminateThread h exitCode =>
    obtain ⟨⟨k', r⟩, hterminate, rfl⟩ := map_eq_some_iff.1 hcall
    rcases terminateThread_cases hterminate with ⟨rfl, -⟩ | ⟨hnull, hdead, hkill⟩
    · exact hs
    · have hopened := hs.opened_eq_some hnull
      exact hs.kill ⟨(hs.opened h _ hopened).2, hdead⟩ ⟨h, mem_handlesOn.2 hopened⟩ hkill
  | closeHandle h =>
    obtain ⟨⟨k', r⟩, hclose, rfl⟩ := map_eq_some_iff.1 hcall
    rcases closeHandle_cases hclose with ⟨-, rfl, rfl⟩ | ⟨hnull, hdead, -⟩ |
      ⟨hnull, -, -, rfl, rfl⟩ | ⟨hnull, -, hlast, -⟩
    · exact hs
    · rcases hkeeps with hk | hk
      · exact absurd hk hnull
      · exact absurd hk.1 hdead
    · rcases hkeeps with hk | hk
      · exact absurd hk hnull
      · exact hs.closeHandle hnull hk.2
    · rcases hkeeps with hk | hk
      · exact absurd hk hnull
      · have hone : (s.kernel.thread (s.m_obj h)).references = 1 := by bv_omega
        exact absurd hone hk.2
  | exitThread exitCode =>
    obtain ⟨k', hexit, rfl⟩ := map_eq_some_iff.1 hcall
    obtain ⟨k1, hkill, hrest⟩ := exitThreadImpl_cases hexit
    have hreferences := hs.references currentThread hcurrent.1
    rcases hrest with ⟨hne, rfl⟩ | ⟨hzero, hreap⟩
    · have hcard : (handlesOn s.opened currentThread).card ≠ 0 := by
        rw [← hreferences]
        exact fun hz => hne (BitVec.eq_of_toNat_eq hz)
      exact hs.kill hcurrent (Finset.card_ne_zero.1 hcard) hkill
    rcases reap_cases hreap with ⟨rfl, -⟩ | ⟨hsize, howner, -⟩
    · have hcard : (handlesOn s.opened currentThread).card = 0 := by
        rw [← hreferences, hzero]
        rfl
      exact hs.reap hcurrent (Finset.card_eq_zero.1 hcard) hkill
    · -- the thread is the last of a process, which the condition excludes
      rw [unlinkRun_eq hkill] at hsize howner
      simp only [unlinkList, setList, markDead, update_self,
        Links.unlink] at hsize howner
      rcases hkeeps with hk | hk | hk
      · exact absurd hzero hk
      · exact absurd hsize (by simp only at hk; omega)
      · exact absurd howner hk

end System.Sound

/-- In every run whose calls keep the count, the references of every thread object are the handles
open on it, an object is deleted exactly when its thread is dead and no handle is open on it, and
closed handles point to nothing. -/
theorem references_counted [DecidableEq H] (s s' : System H) (hstart : s.Sound)
    (hrun : Reaches System.KeepsCount System.Step s s') : s'.Counted :=
  (hrun.invariant System.Sound hstart fun _ _ _ hs hkeeps hstep => hs.step hkeeps hstep).toCounted

/-- The counts of the kernel with its main thread only are right. -/
theorem sound_mainThreadOnly : mainThreadOnly.Sound := by
  obtain ⟨xs, hlists⟩ := inOrder_mainThreadOnly.lists
  have hobject {x : Nat} (hx : mainThreadOnly.kernel.objects x = true) : x = 0x1000 := by
    by_contra hne
    simp [mainThreadOnly, hne] at hx
  refine ⟨⟨?_, ?_, fun _ _ => rfl, fun _ => rfl⟩, ⟨xs, ?_⟩, ?_, ?_, ?_⟩
  · intro x hx
    rw [hobject hx]
    decide
  · rintro x ⟨hd, -⟩
    cases hd
  · exact ⟨hlists.chains, hlists.alive, hlists.points, fun _ _ _ => trivial, hlists.all⟩
  · intro x hx
    rw [hobject hx]
    decide
  · rintro x hx ⟨hd, -⟩
    cases hd
  · intro h x hx
    cases hx

/-- A thread is created, and terminated through its handle. -/
theorem references_counted_terminated : ∃ s' : System (Fin 1),
    Reaches System.KeepsCount System.Step mainThreadOnly s' ∧
      s'.kernel.died 0x2000 = true ∧ s'.Counted := by
  have hrun : Reaches System.KeepsCount System.Step mainThreadOnly _ :=
    (Relation.ReflTransGen.refl.tail
      ⟨(0x1000, .createThread 0 normalThread), trivial, ⟨⟨rfl, by decide⟩, by decide⟩, rfl⟩).tail
      ⟨(0x1000, .terminateThread 0 7), trivial, ⟨⟨rfl, by decide⟩, trivial⟩, rfl⟩
  exact ⟨_, hrun, rfl, references_counted _ _ sound_mainThreadOnly hrun⟩

/-- A handle is closed on a thread that is not dead, and stays counted. -/
theorem closeHandle_counts_live : mainThreadOnly.Sound ∧ ∃ s' : System (Fin 1),
    Reaches (fun _ _ => True) System.Step mainThreadOnly s' ∧ ¬ s'.Counted := by
  have hrun : Reaches (fun _ _ => True) System.Step mainThreadOnly _ :=
    (Relation.ReflTransGen.refl.tail
      ⟨(0x1000, .createThread 0 normalThread), trivial, ⟨⟨rfl, by decide⟩, by decide⟩, rfl⟩).tail
      ⟨(0x1000, .closeHandle 0), trivial, ⟨⟨rfl, by decide⟩, trivial⟩, rfl⟩
  refine ⟨sound_mainThreadOnly, _, hrun, fun hcounted => ?_⟩
  exact absurd (hcounted.references 0x2000 rfl) (by decide)

end Obos.Multitasking
