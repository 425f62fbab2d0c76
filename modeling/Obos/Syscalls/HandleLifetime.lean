import Obos.Lib.Run
import Obos.Syscalls.Handles

/-!
# The lifetime of handles

A handle is registered with an object and a type, and is good until it is released. The history of
a process records the calls with what they returned, and `handles_right` compares the handle table
with it: a value is given out once, it is known to the table exactly between its registration and
its release, with the object and the type of the registration, and no object is deleted twice.
-/

namespace Obos.Syscalls

open Lib List Option Function

/-! ## The functions -/

/-- The part of the context of a process that is about handles. -/
structure HandleContext where
  handleTable : HandleTable
  nextHandleValue : Nat

/-- `ProcessRegisterHandle`, with `none` for `INVALID`. -/
def processRegisterHandle (c : HandleContext) (objectAddress : Nat)
    (type : Option ProcessHandleType) : Nat × HandleContext :=
  match type with
  | none => (uintptrMax, c)
  | some type =>
    if objectAddress = 0 then (uintptrMax, c)
    else
      let handleValue := c.nextHandleValue
      (handleValue,
        { handleTable := update c.handleTable handleValue (some ⟨objectAddress, type⟩)
          nextHandleValue := (handleValue + 1) % 2 ^ 64 })

/-- `ProcessReleaseHandle`. -/
def processReleaseHandle (c : HandleContext) (handle : Nat) : Nat × HandleContext :=
  if processVerifyHandle c.handleTable handle none then
    (processGetHandleObject c.handleTable handle,
      { c with handleTable := update c.handleTable handle none })
  else (0, c)

/-! ## Runs -/

/-- What the callers see: a registration with the value it returned, a release with the object it
returned, and the deletion of an object. -/
inductive HandleEvent where
  | registered (handle : Nat) (entry : Handle)
  | released (handle object : Nat)
  | deleted (object : Nat)

/-- A process, and what has happened to its handles so far. -/
structure HandleRun where
  context : HandleContext
  history : List HandleEvent

/-- A call with an object and a type is a registration, whatever it does. -/
def registration (objectAddress : Nat) (type : Option ProcessHandleType) (returned : Nat) :
    List HandleEvent :=
  match type with
  | none => []
  | some type => if objectAddress = 0 then [] else [.registered returned ⟨objectAddress, type⟩]

/-- The objects a system call has deleted. -/
def deletions (uses : List Use) : List HandleEvent :=
  uses.filterMap fun u =>
    match u.method with
    | .delete => some (.deleted u.object)
    | _ => none

/-- What happens to the handles of a process. -/
inductive HandleAction where
  | register (objectAddress : Nat) (type : Option ProcessHandleType)
  | release (handle : Nat)
  /-- `SyscallInvalidateHandle`, with the address of its parameter and the handle found there. -/
  | invalidate (env : Env) (args handle : Nat)

/-- The process after an action. An invalidation whose parameter can be read is a release. -/
def HandleRun.act (r : HandleRun) : HandleAction → Option HandleRun
  | .register objectAddress type =>
    let (returned, context) := processRegisterHandle r.context objectAddress type
    some ⟨context, r.history ++ registration objectAddress type returned⟩
  | .release handle =>
    let (returned, context) := processReleaseHandle r.context handle
    some ⟨context, r.history ++ [.released handle returned]⟩
  | .invalidate env args handle => do
    let o ← syscall env r.context.handleTable handle args .invalidateHandle
    let (returned, context) :=
      if o.released then processReleaseHandle r.context handle else (0, r.context)
    return ⟨context, r.history ++ deletions o.uses ++
      if env.canAccessUserMemory args 8 false then [.released handle returned] else []⟩

/-! ## What the history says -/

/-- The values that have been registered, in order, with their entries. -/
def registered (history : List HandleEvent) : List (Nat × Handle) :=
  history.filterMap fun
    | .registered handle entry => some (handle, entry)
    | _ => none

/-- The objects that have been deleted, in order. -/
def deletedObjects (history : List HandleEvent) : List Nat :=
  history.filterMap fun
    | .deleted object => some object
    | _ => none

/-- A handle has been registered with an entry and has not been released since. -/
def Live (history : List HandleEvent) (handle : Nat) (entry : Handle) : Prop :=
  ∃ before after, history = before ++ .registered handle entry :: after ∧
    ∀ object, .released handle object ∉ after

/-- A release returns the object of its handle, or null if the handle is not registered. -/
def ReturnsObjects (history : List HandleEvent) : Prop :=
  ∀ before after handle object, history = before ++ .released handle object :: after →
    (∀ entry, Live before handle entry → object = entry.object) ∧
      ((∀ entry, ¬ Live before handle entry) → object = 0)

/-- What is assumed of a registration: fewer than `2 ^ 64` handles are registered, and no object
twice. -/
def Admissible (r : HandleRun) : HandleAction → Prop
  | .register objectAddress (some _) => objectAddress ≠ 0 →
      (registered r.history).length + 1 < 2 ^ 64 ∧
        ∀ x ∈ registered r.history, x.2.object ≠ objectAddress
  | _ => True

/-- The table knows a handle exactly between its registration and its release. -/
structure HandlesRight (r : HandleRun) : Prop where
  fresh : ((registered r.history).map Prod.fst).Nodup
  verify : ∀ handle type, processVerifyHandle r.context.handleTable handle type = true ↔
    ∃ entry, Live r.history handle entry ∧ ∀ t ∈ type, entry.type = t
  object : ∀ handle entry, Live r.history handle entry →
    processGetHandleObject r.context.handleTable handle = entry.object ∧ entry.object ≠ 0
  no_object : ∀ handle, (∀ entry, ¬ Live r.history handle entry) →
    processGetHandleObject r.context.handleTable handle = 0
  type : ∀ handle entry, Live r.history handle entry →
    processGetHandleType r.context.handleTable handle = some entry.type
  returned : ReturnsObjects r.history
  deleted_once : (deletedObjects r.history).Nodup

section History

variable {history : List HandleEvent} {e : HandleEvent} {handle : Nat} {entry : Handle}

/-- An event of a history that got longer is the last one, or was there before. -/
theorem concat_eq_append_cons {before after : List HandleEvent} {x : HandleEvent} :
    history ++ [e] = before ++ x :: after ↔ (history = before ∧ e = x ∧ after = []) ∨
      ∃ rest, after = rest ++ [e] ∧ history = before ++ x :: rest := by
  constructor
  · intro hsplit
    rcases eq_nil_or_concat after with rfl | ⟨rest, last, rfl⟩
    · obtain ⟨hbefore, hlast⟩ := append_inj' hsplit rfl
      exact .inl ⟨hbefore, (cons.inj hlast).1, rfl⟩
    · rw [concat_eq_append, ← cons_append, ← append_assoc] at hsplit
      obtain ⟨hbefore, hlast⟩ := append_inj' hsplit rfl
      exact .inr ⟨rest, by rw [concat_eq_append, hlast], hbefore⟩
  · rintro (⟨rfl, rfl, rfl⟩ | ⟨rest, rfl, rfl⟩)
    · rfl
    · rw [append_assoc, cons_append]

/-- What an event changes about a handle. -/
theorem live_concat : Live (history ++ [e]) handle entry ↔
    (Live history handle entry ∧ ∀ object, e ≠ .released handle object) ∨
      e = .registered handle entry := by
  simp only [Live, concat_eq_append_cons]
  constructor
  · rintro ⟨before, _, ⟨rfl, rfl, rfl⟩ | ⟨rest, rfl, rfl⟩, hkept⟩
    · exact .inr rfl
    · exact .inl ⟨⟨before, rest, rfl, fun o ho => hkept o (mem_append_left _ ho)⟩,
        fun o he => hkept o (by simp [he])⟩
  · rintro (⟨⟨before, after, rfl, hkept⟩, hne⟩ | rfl)
    · exact ⟨before, after ++ [e], .inr ⟨after, rfl, rfl⟩, fun o => by
        simpa using ⟨hkept o, (hne o).symm⟩⟩
    · exact ⟨history, [], .inl ⟨rfl, rfl, rfl⟩, by simp⟩

/-- What is asked of the last event. -/
theorem ReturnsObjects.concat (h : ReturnsObjects history)
    (he : ∀ handle object, e = .released handle object →
      (∀ entry, Live history handle entry → object = entry.object) ∧
        ((∀ entry, ¬ Live history handle entry) → object = 0)) :
    ReturnsObjects (history ++ [e]) := by
  intro before after handle object hsplit
  rcases concat_eq_append_cons.1 hsplit with ⟨rfl, rfl, -⟩ | ⟨rest, -, hold⟩
  · exact he handle object rfl
  · exact h before rest handle object hold

theorem Live.mem_registered (h : Live history handle entry) :
    (handle, entry) ∈ registered history := by
  obtain ⟨before, after, rfl, -⟩ := h
  exact mem_filterMap.2 ⟨_, mem_append_right _ mem_cons_self, rfl⟩

end History

/-! ## The invariant -/

/-- What holds of a process between any two calls. -/
structure HandleRun.Inv (first : Nat) (r : HandleRun) : Prop where
  values : ∃ n < 2 ^ 64, r.context.nextHandleValue = (first + n) % 2 ^ 64 ∧
    (registered r.history).map Prod.fst = (List.range n).map fun i => (first + i) % 2 ^ 64
  table : ∀ handle entry, r.context.handleTable handle = some entry ↔ Live r.history handle entry
  object_ne : ∀ handle entry, r.context.handleTable handle = some entry → entry.object ≠ 0
  object_inj : ∀ handle handle' entry entry', r.context.handleTable handle = some entry →
    r.context.handleTable handle' = some entry' → entry.object = entry'.object → handle = handle'
  returned : ReturnsObjects r.history
  deleted : (deletedObjects r.history).Nodup
  deleted_registered : ∀ o ∈ deletedObjects r.history, ∃ x ∈ registered r.history, x.2.object = o
  not_deleted : ∀ handle entry, r.context.handleTable handle = some entry →
    entry.object ∉ deletedObjects r.history

section Invariant

variable {first : Nat} {r r' : HandleRun} {a : HandleAction}

/-- The values given out are different. -/
theorem HandleRun.Inv.fresh (h : r.Inv first) : ((registered r.history).map Prod.fst).Nodup := by
  obtain ⟨n, hn, -, hvalues⟩ := h.values
  rw [hvalues]
  refine List.Nodup.map_on ?_ nodup_range
  intro i hi j hj hij
  rw [mem_range] at hi hj
  omega

/-- What the functions that look at the table return. -/
theorem HandleRun.Inv.getObject (h : r.Inv first) (handle : Nat) :
    (∀ entry, Live r.history handle entry →
      processGetHandleObject r.context.handleTable handle = entry.object) ∧
    ((∀ entry, ¬ Live r.history handle entry) →
      processGetHandleObject r.context.handleTable handle = 0) := by
  simp only [← h.table]
  cases htable : r.context.handleTable handle <;> simp [processGetHandleObject, htable]

/-- The process after a registration. -/
def HandleRun.register (r : HandleRun) (entry : Handle) : HandleRun where
  context :=
    { handleTable := update r.context.handleTable r.context.nextHandleValue (some entry)
      nextHandleValue := (r.context.nextHandleValue + 1) % 2 ^ 64 }
  history := r.history ++ [.registered r.context.nextHandleValue entry]

/-- The process after a release, in front of which objects may have been deleted. -/
def HandleRun.release (r : HandleRun) (deletion : List HandleEvent) (handle : Nat) :
    HandleRun where
  context := { r.context with handleTable := update r.context.handleTable handle none }
  history := r.history ++ deletion ++
    [.released handle (processGetHandleObject r.context.handleTable handle)]

/-- Nothing is deleted in front of a release, or the object of the handle. -/
def HandleRun.Deletes (r : HandleRun) (handle : Nat) (deletion : List HandleEvent) : Prop :=
  deletion = [] ∨
    ∃ entry, r.context.handleTable handle = some entry ∧ deletion = [.deleted entry.object]

theorem processReleaseHandle_eq (c : HandleContext) (handle : Nat) :
    processReleaseHandle c handle = (processGetHandleObject c.handleTable handle,
      { c with handleTable := update c.handleTable handle none }) := by
  cases htable : c.handleTable handle with
  | none =>
    have hsame := htable ▸ update_eq_self handle c.handleTable
    simp [processReleaseHandle, processVerifyHandle, processGetHandleObject, htable, hsame]
  | some entry => simp [processReleaseHandle, processVerifyHandle, htable]

/-- What an action can do: nothing, register an object, or release a handle. -/
theorem act_cases (h : r.act a = some r') :
    r' = r ∨
    (∃ object type, a = .register object (some type) ∧ object ≠ 0 ∧
      r' = r.register ⟨object, type⟩) ∨
    ∃ handle deletion, r.Deletes handle deletion ∧ r' = r.release deletion handle := by
  cases a with
  | register object type =>
    obtain rfl := some.inj h
    cases type with
    | none => exact .inl (by simp [registration])
    | some type =>
      by_cases hobject : object = 0
      · exact .inl (by simp [registration, hobject])
      · exact .inr (.inl ⟨object, type, rfl, hobject, by
          simp [registration, HandleRun.register, hobject]⟩)
  | release handle =>
    rw [HandleRun.act, processReleaseHandle_eq] at h
    exact .inr (.inr ⟨handle, [], .inl rfl, by simp [HandleRun.release, ← some.inj h]⟩)
  | invalidate env args handle =>
    simp only [HandleRun.act, syscall, Env.accessible] at h
    cases haccess : env.canAccessUserMemory args 8 false with
    | false =>
      simp [haccess, fail, deletions] at h
      exact .inl h.symm
    | true =>
      refine .inr (.inr ⟨handle, ?_⟩)
      cases htable : r.context.handleTable handle with
      | none =>
        have hsame := htable ▸ update_eq_self handle r.context.handleTable
        refine ⟨[], .inl rfl, ?_⟩
        simp [haccess, syscallInvalidateHandle, processGetHandleType, htable, fail, deletions] at h
        simp [HandleRun.release, processGetHandleObject, htable, hsame, ← h]
      | some entry =>
        refine ⟨[.deleted entry.object], .inr ⟨entry, htable, rfl⟩, ?_⟩
        simp [haccess, syscallInvalidateHandle, processGetHandleType, htable, Env.use, finish,
          deletions, processReleaseHandle_eq, processGetHandleObject] at h
        simp [HandleRun.release, processGetHandleObject, htable, ← h]

/-- What the table says after one of its entries was written. -/
theorem update_eq_some {table : HandleTable} {n handle : Nat} {o : Option Handle} {entry : Handle} :
    update table n o handle = some entry ↔
      (handle = n ∧ o = some entry) ∨ (handle ≠ n ∧ table handle = some entry) := by
  by_cases h : handle = n <;> simp [h]

/-- A registration keeps the invariant. -/
theorem HandleRun.Inv.register (h : r.Inv first) {new : Handle} (hobject : new.object ≠ 0)
    (hroom : (registered r.history).length + 1 < 2 ^ 64)
    (honce : ∀ x ∈ registered r.history, x.2.object ≠ new.object) : (r.register new).Inv first := by
  have hregistered : registered (r.register new).history =
      registered r.history ++ [(r.context.nextHandleValue, new)] := by
    simp [registered, HandleRun.register]
  have hdeleted : deletedObjects (r.register new).history = deletedObjects r.history := by
    simp [deletedObjects, HandleRun.register]
  obtain ⟨n, hn, hnext, hvalues⟩ := h.values
  have hlength := congrArg length hvalues
  simp only [length_map, length_range] at hlength
  -- an object that is in the table has been registered before
  have hold {handle} {entry} (hentry : r.context.handleTable handle = some entry) :
      entry.object ≠ new.object := honce _ ((h.table _ _).1 hentry).mem_registered
  refine ⟨⟨n + 1, by omega, ?_, ?_⟩, fun handle entry => ?_, fun handle entry hentry => ?_, ?_,
    h.returned.concat (by simp), ?_, fun o ho => ?_, fun handle entry hentry => ?_⟩
  · simp only [HandleRun.register]
    omega
  · rw [hregistered, map_append, hvalues, range_succ, map_append, map_singleton, map_singleton,
      hnext]
  · simp only [HandleRun.register, live_concat, ← h.table]
    by_cases hsame : handle = r.context.nextHandleValue
    · subst hsame
      have hnone : r.context.handleTable r.context.nextHandleValue ≠ some entry := by
        intro hsome
        have hmem := mem_map_of_mem (f := Prod.fst) ((h.table _ _).1 hsome).mem_registered
        rw [hvalues, hnext] at hmem
        obtain ⟨i, hi, heq⟩ := mem_map.1 hmem
        rw [mem_range] at hi
        omega
      simp [hnone]
    · simp [update_of_ne hsame, Ne.symm hsame]
  · rcases update_eq_some.1 hentry with ⟨-, ⟨⟩⟩ | ⟨-, hentry⟩
    · exact hobject
    · exact h.object_ne handle entry hentry
  · intro handle handle' entry entry' hentry hentry' hsame
    rcases update_eq_some.1 hentry with ⟨rfl, ⟨⟩⟩ | ⟨-, hentry⟩ <;>
      rcases update_eq_some.1 hentry' with ⟨rfl, ⟨⟩⟩ | ⟨-, hentry'⟩
    · rfl
    · exact absurd hsame.symm (hold hentry')
    · exact absurd hsame (hold hentry)
    · exact h.object_inj _ _ _ _ hentry hentry' hsame
  · rw [hdeleted]
    exact h.deleted
  · rw [hdeleted] at ho
    obtain ⟨x, hx, heq⟩ := h.deleted_registered o ho
    exact ⟨x, by simp [hregistered, hx], heq⟩
  · rw [hdeleted]
    rcases update_eq_some.1 hentry with ⟨-, ⟨⟩⟩ | ⟨-, hentry⟩
    · intro hmem
      obtain ⟨x, hx, heq⟩ := h.deleted_registered _ hmem
      exact honce x hx heq
    · exact h.not_deleted handle entry hentry

/-- A release keeps the invariant, also if the object is deleted before. -/
theorem HandleRun.Inv.release (h : r.Inv first) {handle : Nat} {deletion : List HandleEvent}
    (hdeletion : r.Deletes handle deletion) : (r.release deletion handle).Inv first := by
  have hregistered : registered (r.release deletion handle).history = registered r.history := by
    rcases hdeletion with rfl | ⟨entry, -, rfl⟩ <;> simp [registered, HandleRun.release]
  have hdeleted : deletedObjects (r.release deletion handle).history =
      deletedObjects r.history ++ deletedObjects deletion := by
    simp [deletedObjects, HandleRun.release]
  have hlive handle' entry' : Live (r.history ++ deletion) handle' entry' ↔
      Live r.history handle' entry' := by
    rcases hdeletion with rfl | ⟨entry, -, rfl⟩
    · rw [append_nil]
    · simp [live_concat]
  have hnow {o : Nat} (ho : o ∈ deletedObjects deletion) :
      ∃ entry, r.context.handleTable handle = some entry ∧ o = entry.object := by
    rcases hdeletion with rfl | ⟨entry, hentry, rfl⟩
    · cases ho
    · exact ⟨entry, hentry, by simpa [deletedObjects] using ho⟩
  have hother {handle' : Nat} {entry' : Handle}
      (h' : update r.context.handleTable handle none handle' = some entry') :
      handle' ≠ handle ∧ r.context.handleTable handle' = some entry' :=
    (update_eq_some.1 h').resolve_left fun hnew => nomatch hnew.2
  refine ⟨hregistered ▸ h.values, fun handle' entry' => ?_,
    fun _ _ h' => h.object_ne _ _ (hother h').2,
    fun _ _ _ _ h1 h2 => h.object_inj _ _ _ _ (hother h1).2 (hother h2).2, ?_, ?_,
    fun o ho => ?_, fun handle' entry' h' hmem => ?_⟩
  · simp only [HandleRun.release, live_concat, hlive, ← h.table]
    by_cases hsame : handle' = handle
    · subst hsame
      simp
    · simp [update_of_ne hsame, Ne.symm hsame]
  · have hreturned : ReturnsObjects (r.history ++ deletion) := by
      rcases hdeletion with rfl | ⟨entry, -, rfl⟩
      · rw [append_nil]
        exact h.returned
      · exact h.returned.concat (by simp)
    refine hreturned.concat ?_
    rintro _ _ ⟨⟩
    simpa only [hlive] using h.getObject handle
  · rw [hdeleted]
    refine nodup_append.2 ⟨h.deleted, ?_, ?_⟩
    · rcases hdeletion with rfl | ⟨entry, -, rfl⟩ <;> simp [deletedObjects]
    · rintro o ho _ ho' rfl
      obtain ⟨entry, hentry, rfl⟩ := hnow ho'
      exact h.not_deleted handle entry hentry ho
  · rw [hregistered]
    rw [hdeleted, mem_append] at ho
    rcases ho with ho | ho
    · exact h.deleted_registered o ho
    · obtain ⟨entry, hentry, rfl⟩ := hnow ho
      exact ⟨_, ((h.table _ _).1 hentry).mem_registered, rfl⟩
  · obtain ⟨hne, h'⟩ := hother h'
    rw [hdeleted, mem_append] at hmem
    rcases hmem with hmem | hmem
    · exact h.not_deleted handle' entry' h' hmem
    · obtain ⟨entry, hentry, heq⟩ := hnow hmem
      exact hne (h.object_inj _ _ _ _ h' hentry heq)

theorem HandleRun.Inv.act (h : r.Inv first) (hadmissible : Admissible r a)
    (hact : r.act a = some r') : r'.Inv first := by
  rcases act_cases hact with rfl | ⟨object, type, rfl, hobject, rfl⟩ |
    ⟨handle, deletion, hdeletion, rfl⟩
  · exact h
  · obtain ⟨hroom, honce⟩ := hadmissible hobject
    exact h.register hobject hroom honce
  · exact h.release hdeletion

/-- What the invariant says about the functions that look at the table. -/
theorem HandleRun.Inv.right (h : r.Inv first) : HandlesRight r := by
  have hget {handle : Nat} {entry : Handle} (hlive : Live r.history handle entry) :
      r.context.handleTable handle = some entry := (h.table _ _).2 hlive
  refine ⟨h.fresh, fun handle type => ?_, fun handle entry hlive =>
    ⟨(h.getObject handle).1 entry hlive, h.object_ne handle entry (hget hlive)⟩,
    fun handle => (h.getObject handle).2, fun handle entry hlive => ?_, h.returned, h.deleted⟩
  · simp only [← h.table]
    cases htable : r.context.handleTable handle with
    | none => simp [processVerifyHandle, htable]
    | some entry => cases type <;> simp [processVerifyHandle, htable]
  · rw [processGetHandleType, hget hlive]
    rfl

end Invariant

/-- A process without handles. -/
def HandleRun.initial (first : Nat) : HandleRun := ⟨⟨fun _ => none, first⟩, []⟩

theorem HandleRun.inv_initial {first : Nat} (hfirst : first < 2 ^ 64) :
    (HandleRun.initial first).Inv first := by
  refine ⟨⟨0, Nat.two_pow_pos 64, (Nat.mod_eq_of_lt hfirst).symm, rfl⟩, fun handle entry => ?_, ?_,
    ?_, ?_, nodup_nil, ?_, ?_⟩
  · simp [initial, Live]
  all_goals simp [initial, deletedObjects, ReturnsObjects]

/-- After every sequence of calls, handles are known exactly between registration and release. -/
theorem handles_right (first : Nat) (hfirst : first < 2 ^ 64) {r : HandleRun}
    (hrun : Reaches Admissible (fun r a r' => r.act a = some r') (.initial first) r) :
    HandlesRight r := by
  have hinv := hrun.invariant (HandleRun.Inv first) (HandleRun.inv_initial hfirst)
    (fun r a r' h hadmissible hact => h.act hadmissible hact)
  exact hinv.right

theorem handles_right_registered_invalidated : ∃ r, HandlesRight r ∧
    r.history = [.registered 3 ⟨0x1000, .fileHandle⟩, .registered 4 ⟨0x2000, .threadHandle⟩,
      .deleted 0x1000, .released 3 0x1000] ∧
    processVerifyHandle r.context.handleTable 3 none = false ∧
    processVerifyHandle r.context.handleTable 4 (some .threadHandle) = true := by
  let env : Env := ⟨fun _ _ _ => true, fun _ => 0, 0, fun _ => 0, fun _ => 0, fun _ => 0⟩
  refine ⟨_, handles_right 3 (by decide) (((Relation.ReflTransGen.refl.tail
    ⟨.register 0x1000 (some .fileHandle), ?_, rfl⟩).tail
    ⟨.register 0x2000 (some .threadHandle), ?_, rfl⟩).tail
    ⟨.invalidate env 0x5000 3, trivial, rfl⟩), rfl, rfl, rfl⟩
  · exact fun _ => ⟨by decide, by decide⟩
  · exact fun _ => ⟨by decide, by decide⟩

end Obos.Syscalls
