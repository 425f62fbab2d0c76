import Obos.Utils.HashmapRefinement

/-!
# Growing the hash map

`emplace_at` on a table without an unused slot doubles the table and then takes
slot 1 of it. That slot is in the old part and still in use, so the binding it
held is overwritten. `growth_loses_slot_one` shows that this happens on every
full table a run of the map can reach, whatever the new key is: the old key of
slot 1 was found before the call and is not found after it.

The runs here may grow the table any number of times, after which chains can be
stale; `Indexed t cs` is what still holds then, and `SlotOne t cs` says that
slot 1 is reachable under its key, and that no other slot in its bucket is.
-/

namespace Obos.Utils

open Lib Option Function

namespace Hashmap

variable {Key Val : Type} {equals : Key → Key → Bool} {hash : Key → Nat} {t : Hashmap Key Val}
  {cs : Nat → List Ptr}

/-- `at` returns with this answer. -/
def Answers (equals : Key → Key → Bool) (hash : Key → Nat) (t : Hashmap Key Val) (key : Key)
    (r : Option Val) : Prop :=
  ∃ fuel, t.atKey equals hash fuel key = some r

/-- Every slot of the table is in use. -/
def Full (t : Hashmap Key Val) : Prop := ∀ i < t.tableCapacity, (t.nodeTable i).used = true

/-- What `emplace_at` of a new key should do: the bindings stay, the new one is added, and no
other key becomes present. -/
def AddsBinding (equals : Key → Key → Bool) (hash : Key → Nat) (t t' : Hashmap Key Val)
    (key : Key) (value : Val) : Prop :=
  (∀ k v, Answers equals hash t k (some v) → Answers equals hash t' k (some v)) ∧
  Answers equals hash t' key (some value) ∧
  ∀ k, equals key k = false → Answers equals hash t k none → Answers equals hash t' k none

/-- Only absent keys are emplaced; the table may be full. -/
def Admissible (equals : Key → Key → Bool) (hash : Key → Nat) (t : Hashmap Key Val) :
    Call Key Val → Prop
  | .emplaceAt key _ a => Answers equals hash t key none ∧ t.FreshFor a
  | .remove _ | .atKey _ => True

/-- The table is the result of a run on a new map. -/
def Reachable (equals : Key → Key → Bool) (hash : Key → Nat) (t : Hashmap Key Val) : Prop :=
  ∃ nodeTableAt, Reaches (Admissible equals hash)
    (fun t call t' => ∃ fuel, call.run equals hash fuel t = some t') (empty nodeTableAt) t

/-! ## Searching -/

variable {key : Key} {a : Allocation} {c : Ptr} {l : List Ptr} {i : Nat} {k : Key}

/-- A search ends without a find exactly if every chain's slot has an unequal key. -/
theorem search_eq_none : t.search equals key l = some none ↔
    ∀ c ∈ l, ∃ k, (t.nodeTable (t.tableIndex c)).key = some k ∧ equals key k = false := by
  induction l with
  | nil => simp [search]
  | cons c l ih =>
    rw [List.forall_mem_cons, ← ih]
    cases hk : (t.nodeTable (t.tableIndex c)).key with
    | none => simp [search, hk]
    | some k => cases he : equals key k <;> simp [search, hk, he]

/-- A find of the search is a chain of the list whose slot has an equal key. -/
theorem search_eq_some (h : t.search equals key l = some (some c)) :
    c ∈ l ∧ ∃ k, (t.nodeTable (t.tableIndex c)).key = some k ∧ equals key k = true := by
  induction l with
  | nil => simp [search] at h
  | cons d l ih =>
    cases hk : (t.nodeTable (t.tableIndex d)).key with
    | none => simp [search, hk] at h
    | some k =>
      by_cases he : equals key k = true
      · have hd : d = c := by simpa [search, hk, he] using h
        subst hd
        exact ⟨List.mem_cons_self, k, hk, he⟩
      · obtain ⟨hmem, hfound⟩ := ih (by simpa [search, hk, he] using h)
        exact ⟨List.mem_cons_of_mem d hmem, hfound⟩

/-- A search over slots that all have keys comes to an end. -/
theorem search_returns (equals : Key → Key → Bool) (key : Key)
    (h : ∀ c ∈ l, ∃ k, (t.nodeTable (t.tableIndex c)).key = some k) :
    ∃ r, t.search equals key l = some r := by
  induction l with
  | nil => exact ⟨none, rfl⟩
  | cons c l ih =>
    obtain ⟨k, hk⟩ := h c List.mem_cons_self
    obtain ⟨r, hr⟩ := ih fun c' hc' => h c' (List.mem_cons_of_mem c hc')
    by_cases he : equals key k = true
    · exact ⟨some c, by simp [search, hk, he]⟩
    · exact ⟨r, by simp [search, hk, he, hr]⟩

/-! ## What every reachable table keeps -/

/-- The chains of the table lead to its slots, and a slot has a key and a value exactly when it is
in use. -/
structure Indexed (t : Hashmap Key Val) (cs : Nat → List Ptr) : Prop where
  capacity : 64 ≤ t.tableCapacity
  chains : ChainsOf t cs
  beyond : ∀ b, t.tableCapacity ≤ b → cs b = []
  index_lt : ∀ b, ∀ c ∈ cs b, t.tableIndex c < t.tableCapacity
  node : ∀ i, (t.nodeTable i).key.isSome = (t.nodeTable i).used ∧
    (t.nodeTable i).value.isSome = (t.nodeTable i).used

/-- The bucket of the key in slot 1 has a chain to that slot, and every chain there whose slot has
an equal key leads to it. -/
structure SlotOne (equals : Key → Key → Bool) (hash : Key → Nat) (t : Hashmap Key Val)
    (cs : Nat → List Ptr) : Prop where
  chain : ∀ k, (t.nodeTable 1).key = some k →
    ∃ c ∈ cs (hash k % t.tableCapacity), t.tableIndex c = 1
  only : ∀ k, (t.nodeTable 1).key = some k → ∀ c ∈ cs (hash k % t.tableCapacity), ∀ k',
    (t.nodeTable (t.tableIndex c)).key = some k' → equals k k' = true → t.tableIndex c = 1

section Indexed

variable (h : Indexed t cs)
include h

theorem Indexed.capacity_pos : 0 < t.tableCapacity :=
  Nat.lt_of_lt_of_le (by decide) h.capacity

/-- The answer of a lookup that returned is that of the search through the bucket. -/
theorem Indexed.search_of_locate {fuel : Nat} {r : Option (Ptr × Nat)}
    (hloc : t.locate equals hash fuel key = some r) :
    (t.search equals key (cs (hash key % t.tableCapacity))).map
      (Option.map fun c => (c, t.tableIndex c)) = some r := by
  have hcap := h.capacity_pos.ne'
  have hlong := locate_mono (Nat.le_max_left fuel
    ((cs (hash key % t.tableCapacity)).length + 1)) hloc
  rwa [locate_eq h.chains hcap (by omega)] at hlong

/-- `at` answers what the search through the bucket finds. -/
theorem Indexed.answers {r : Option Ptr}
    (hsearch : t.search equals key (cs (hash key % t.tableCapacity)) = some r) :
    Answers equals hash t key (r.bind fun c => (t.nodeTable (t.tableIndex c)).value) := by
  have hcap := h.capacity_pos.ne'
  refine ⟨(cs (hash key % t.tableCapacity)).length + 1, ?_⟩
  rw [atKey, locate_eq h.chains hcap (by omega), hsearch]
  cases r with
  | none => rfl
  | some c => rfl

omit h in
/-- `at` has one answer. -/
theorem Answers.unique {r r' : Option Val} (h : Answers equals hash t key r)
    (h' : Answers equals hash t key r') : r = r' := by
  obtain ⟨fuel, hr⟩ := h
  obtain ⟨fuel', hr'⟩ := h'
  simp only [atKey, map_eq_some_iff] at hr hr'
  obtain ⟨found, hloc, rfl⟩ := hr
  obtain ⟨found', hloc', rfl⟩ := hr'
  have hlong := locate_mono (Nat.le_max_left fuel fuel') hloc
  rw [locate_mono (Nat.le_max_right fuel fuel') hloc'] at hlong
  cases hlong
  rfl

/-- An absent key is unequal to the keys of all slots its bucket leads to. -/
theorem Indexed.absent (habsent : Answers equals hash t key none) :
    ∀ c ∈ cs (hash key % t.tableCapacity),
      ∃ k, (t.nodeTable (t.tableIndex c)).key = some k ∧ equals key k = false := by
  obtain ⟨fuel, hat⟩ := habsent
  simp only [atKey, map_eq_some_iff] at hat
  obtain ⟨found, hloc, hvalue⟩ := hat
  have hsearch := h.search_of_locate hloc
  cases hs : t.search equals key (cs (hash key % t.tableCapacity)) with
  | none => simp [hs] at hsearch
  | some r =>
    cases r with
    | none => exact search_eq_none.1 hs
    | some c =>
      -- the slot found has a key, so it has a value too
      obtain ⟨-, k, hk, -⟩ := search_eq_some hs
      have hfound : found = some (c, t.tableIndex c) := by simpa [hs] using hsearch.symm
      have hnull : (t.nodeTable (t.tableIndex c)).value = none := by
        simpa [hfound] using hvalue
      obtain ⟨hkeyUsed, hvalueUsed⟩ := h.node (t.tableIndex c)
      rw [← hvalueUsed, hk, hnull] at hkeyUsed
      cases hkeyUsed

/-! ## Steps -/

/-- The chain lists after an insertion. -/
def chainsAfter (hash : Key → Nat) (t : Hashmap Key Val) (cs : Nat → List Ptr) (key : Key)
    (a : Allocation) : Nat → List Ptr :=
  update cs (hash key % t.tableCapacity)
    (cs (hash key % t.tableCapacity) ++ [a.chain])

omit h in
theorem mem_chainsAfter {b : Nat} :
    c ∈ chainsAfter hash t cs key a b ↔
      c ∈ cs b ∨ b = hash key % t.tableCapacity ∧ c = a.chain :=
  Lists.mem_append cs _ a.chain b c

theorem Indexed.doubled (nodeTableAt : Ptr) : Indexed (t.doubled nodeTableAt) cs where
  capacity := h.capacity.trans (Nat.le_mul_of_pos_right _ (by decide))
  chains := ⟨h.chains.lists, h.chains.count, h.chains.live⟩
  beyond b hb := h.beyond b (le_trans (Nat.le_mul_of_pos_right _ (by decide)) hb)
  index_lt b c hc := (h.index_lt b c hc).trans_le (Nat.le_mul_of_pos_right _ (by decide))
  node := h.node

theorem Indexed.tableIndex_insertAt (hfresh : a.chain ∉ t.liveChains) {value : Val} {b : Nat}
    (hc : c ∈ cs b) : (t.insertAt hash i key value a).tableIndex c = t.tableIndex c := by
  have hne : c ≠ a.chain := fun he => h.chains.notMem hfresh b (he ▸ hc)
  exact update_of_ne hne _ _

omit h in
theorem tableIndex_insertAt_self {value : Val} :
    (t.insertAt hash i key value a).tableIndex a.chain = i := update_self _ _ _

/-- Insertion into any slot of the table keeps its chains in order. -/
theorem Indexed.insertAt (hash : Key → Nat) (ha : t.FreshFor a) (hi : i < t.tableCapacity)
    (key : Key) (value : Val) :
    Indexed (t.insertAt hash i key value a) (chainsAfter hash t cs key a) where
  capacity := h.capacity
  chains := h.chains.insertAt hash ha.1 ha.2.1 i key value
  beyond b hb := by
    have hne : b ≠ hash key % t.tableCapacity := fun he =>
      absurd (Nat.mod_lt (hash key) h.capacity_pos) (Nat.not_lt.2 (he ▸ hb))
    rw [chainsAfter, update_of_ne hne]
    exact h.beyond b hb
  index_lt b c hc := by
    rcases mem_chainsAfter.1 hc with hc | ⟨-, rfl⟩
    · rw [h.tableIndex_insertAt ha.2.1 hc]
      exact h.index_lt b c hc
    · rw [tableIndex_insertAt_self]
      exact hi
  node j := by
    by_cases hj : j = i
    · subst hj
      rw [nodeTable_insertAt_self]
      exact ⟨rfl, rfl⟩
    · rw [nodeTable_insertAt_other hj]
      exact h.node j

/-- Insertion into slot 1 makes it reachable under the new key, and it alone where no other slot
of the bucket has an equal key. -/
theorem Indexed.slotOne_insertAt_one (ha : t.FreshFor a) (value : Val)
    (hother : ∀ c ∈ cs (hash key % t.tableCapacity), ∀ k,
      (t.nodeTable (t.tableIndex c)).key = some k → equals key k = true → t.tableIndex c = 1) :
    SlotOne equals hash (t.insertAt hash 1 key value a) (chainsAfter hash t cs key a) where
  chain k hk := by
    cases hk
    exact ⟨a.chain, mem_chainsAfter.2 (.inr ⟨rfl, rfl⟩), tableIndex_insertAt_self⟩
  only k hk c hc k' hk' heq := by
    cases hk
    rcases mem_chainsAfter.1 hc with hc | ⟨-, rfl⟩
    · rw [h.tableIndex_insertAt ha.2.1 hc] at hk' ⊢
      by_contra hne
      rw [nodeTable_insertAt_other hne] at hk'
      exact hne (hother c hc k' hk' heq)
    · exact tableIndex_insertAt_self

/-- Taking out a chain and its slot keeps the other chains in order. -/
theorem Indexed.detach {as bs : List Ptr}
    (hsplit : cs (hash key % t.tableCapacity) = as ++ c :: bs) :
    Indexed (t.detach (hash key % t.tableCapacity) c (t.tableIndex c))
      (update cs (hash key % t.tableCapacity) (as ++ bs)) where
  capacity := h.capacity
  chains := by
    have hunlink := h.chains.unlinkChain hsplit
    exact ⟨hunlink.lists, hunlink.count, hunlink.live⟩
  beyond b hb := by
    have hne : b ≠ hash key % t.tableCapacity := fun he =>
      absurd (Nat.mod_lt (hash key) h.capacity_pos) (Nat.not_lt.2 (he ▸ hb))
    rw [update_of_ne hne]
    exact h.beyond b hb
  index_lt b x hx := h.index_lt b x ((h.chains.lists.mem_unlink hsplit b x).1 hx).1
  node j := by
    by_cases hj : j = t.tableIndex c
    · subst hj
      rw [nodeTable_detach_self]
      exact ⟨rfl, rfl⟩
    · rw [nodeTable_detach_other hj]
      exact h.node j

/-- A bucket of the doubled table that has chains is the bucket the key had before. -/
theorem Indexed.mod_double {n : Nat} (hc : c ∈ cs (n % (t.tableCapacity * 2))) :
    n % (t.tableCapacity * 2) = n % t.tableCapacity := by
  have hlt : n % (t.tableCapacity * 2) < t.tableCapacity := by
    by_contra hge
    rw [h.beyond _ (Nat.not_lt.1 hge)] at hc
    cases hc
  rw [← Nat.mod_mul_right_mod n t.tableCapacity 2, Nat.mod_eq_of_lt hlt]

/-! ## Slot 1 -/

section SlotOne

variable (hone : SlotOne equals hash t cs)
include hone

/-- Insertion of a key unequal to that of slot 1 into another slot keeps slot 1 reachable. -/
theorem SlotOne.insertAt (ha : t.FreshFor a) (hi : i ≠ 1) (value : Val)
    (hne : ∀ k, (t.nodeTable 1).key = some k → equals k key = false) :
    SlotOne equals hash (t.insertAt hash i key value a) (chainsAfter hash t cs key a) where
  chain k hk := by
    rw [nodeTable_insertAt_other hi.symm] at hk
    obtain ⟨c, hc, hindex⟩ := hone.chain k hk
    exact ⟨c, mem_chainsAfter.2 (.inl hc), (h.tableIndex_insertAt ha.2.1 hc).trans hindex⟩
  only k hk c hc k' hk' heq := by
    rw [nodeTable_insertAt_other hi.symm] at hk
    -- the slot just written has the new key, which is not equal to `k`
    have hslot : (t.insertAt hash i key value a).tableIndex c ≠ i := by
      intro he
      rw [he, nodeTable_insertAt_self] at hk'
      cases hk'
      rw [hne k hk] at heq
      cases heq
    rcases mem_chainsAfter.1 hc with hc | ⟨-, rfl⟩
    · rw [nodeTable_insertAt_other hslot] at hk'
      rw [h.tableIndex_insertAt ha.2.1 hc] at hk' ⊢
      exact hone.only k hk c hc k' hk' heq
    · exact absurd tableIndex_insertAt_self hslot

/-- Taking out a chain and its slot keeps slot 1 reachable, or empties it. -/
theorem SlotOne.detach {as bs : List Ptr}
    (hsplit : cs (hash key % t.tableCapacity) = as ++ c :: bs) :
    SlotOne equals hash (t.detach (hash key % t.tableCapacity) c (t.tableIndex c))
      (update cs (hash key % t.tableCapacity) (as ++ bs)) := by
  have hslot : ∀ j k, ((t.detach (hash key % t.tableCapacity) c (t.tableIndex c)).nodeTable j).key =
      some k → j ≠ t.tableIndex c ∧ (t.nodeTable j).key = some k := by
    intro j k hk
    by_cases hj : j = t.tableIndex c
    · subst hj
      rw [nodeTable_detach_self] at hk
      cases hk
    · rw [nodeTable_detach_other hj] at hk
      exact ⟨hj, hk⟩
  have hmem := h.chains.lists.mem_unlink hsplit
  refine ⟨?_, ?_⟩
  · intro k hk
    obtain ⟨hne, hk⟩ := hslot 1 k hk
    obtain ⟨x, hx, hindex⟩ := hone.chain k hk
    refine ⟨x, (hmem _ x).2 ⟨hx, ?_⟩, hindex⟩
    rintro rfl
    exact hne hindex.symm
  · intro k hk x hx k' hk' heq
    exact hone.only k (hslot 1 k hk).2 x ((hmem _ x).1 hx).1 k' (hslot _ k' hk').2 heq

variable (hlaw : LawfulHash equals hash) (hk : (t.nodeTable 1).key = some k)
include hlaw hk

/-- An absent key is not equal to that of slot 1. -/
theorem SlotOne.ne_of_absent (habsent : Answers equals hash t key none) : equals k key = false := by
  rw [Bool.eq_false_iff]
  intro heq
  obtain ⟨c, hc, hindex⟩ := hone.chain k hk
  rw [hlaw.hash_eq heq] at hc
  obtain ⟨k', hk', hne⟩ := h.absent habsent c hc
  rw [hindex, hk] at hk'
  cases hk'
  rw [hlaw.symm heq] at hne
  cases hne

/-- The key of slot 1 of a full table is found there. -/
theorem SlotOne.answers (hfull : t.Full) : Answers equals hash t k (t.nodeTable 1).value := by
  have hkeys : ∀ c ∈ cs (hash k % t.tableCapacity),
      ∃ k', (t.nodeTable (t.tableIndex c)).key = some k' := by
    intro c hc
    have hused := hfull _ (h.index_lt _ c hc)
    rw [← (h.node _).1, isSome_iff_exists] at hused
    exact hused
  obtain ⟨r, hr⟩ := search_returns equals k hkeys
  have hanswer := h.answers hr
  cases r with
  | none =>
    -- the chain to slot 1 would have been found
    obtain ⟨c, hc, hindex⟩ := hone.chain k hk
    obtain ⟨k', hk', hne⟩ := search_eq_none.1 hr c hc
    rw [hindex, hk] at hk'
    cases hk'
    rw [hlaw.refl k] at hne
    cases hne
  | some c =>
    obtain ⟨hc, k', hk', heq⟩ := search_eq_some hr
    have hindex := hone.only k hk c hc k' hk' heq
    rwa [bind_some, hindex] at hanswer

/-- After the growth the old key of slot 1 is absent. -/
theorem SlotOne.lost (hfull : t.Full) (habsent : Answers equals hash t key none) (ha : t.FreshFor a)
    (value : Val) : Answers equals hash (t.emplaceAt hash key value a) k none := by
  have hcap := h.capacity_pos.ne'
  have hne := hone.ne_of_absent h hlaw hk habsent
  unfold emplaceAt
  rw [reserve_of_full hcap hfull]
  have hafter := (h.doubled a.nodeTable).insertAt hash ha
    (show 1 < t.tableCapacity * 2 by have := h.capacity; omega) key value
  refine hafter.answers (search_eq_none.2 fun c hc => ?_)
  -- no chain in the bucket of `k` leads to a slot with an equal key any more
  by_cases hone' : ((t.doubled a.nodeTable).insertAt hash 1 key value a).tableIndex c = 1
  · exact ⟨key, by rw [hone', nodeTable_insertAt_self], hne⟩
  · rcases mem_chainsAfter.1 hc with hc | ⟨-, rfl⟩
    · rw [nodeTable_insertAt_other hone']
      rw [(h.doubled a.nodeTable).tableIndex_insertAt ha.2.1 hc] at hone' ⊢
      have hold := h.mod_double hc ▸ hc
      have hused := hfull _ (h.index_lt _ c hold)
      rw [← (h.node _).1, isSome_iff_exists] at hused
      obtain ⟨k', hk'⟩ := hused
      refine ⟨k', hk', ?_⟩
      rw [Bool.eq_false_iff]
      exact fun heq => hone' (hone.only k hk c hold k' hk' heq)
    · exact absurd tableIndex_insertAt_self hone'

end SlotOne

end Indexed

/-! ## Runs -/

/-- What every reachable table keeps. -/
def Kept (equals : Key → Key → Bool) (hash : Key → Nat) (t : Hashmap Key Val) : Prop :=
  ∃ cs, Indexed t cs ∧ SlotOne equals hash t cs

/-- `emplace_at` of an absent key keeps slot 1 reachable, also when it grows the table. -/
theorem Kept.emplaceAt (hkept : Kept equals hash t) (hlaw : LawfulHash equals hash)
    (habsent : Answers equals hash t key none) (ha : t.FreshFor a) (value : Val) :
    Kept equals hash (t.emplaceAt hash key value a) := by
  obtain ⟨cs, h, hone⟩ := hkept
  have hcap := h.capacity_pos.ne'
  have hother : ∀ c ∈ cs (hash key % t.tableCapacity), ∀ k,
      (t.nodeTable (t.tableIndex c)).key = some k → equals key k = true → t.tableIndex c = 1 := by
    intro c hc k hk heq
    obtain ⟨k', hk', hne⟩ := h.absent habsent c hc
    rw [hk] at hk'
    cases hk'
    rw [heq] at hne
    cases hne
  unfold Hashmap.emplaceAt
  by_cases hfull : t.Full
  · rw [reserve_of_full hcap hfull]
    have hgrown := h.doubled a.nodeTable
    refine ⟨_, hgrown.insertAt hash ha ?_ key value, hgrown.slotOne_insertAt_one ha value ?_⟩
    · have := hgrown.capacity
      omega
    · intro c hc k hk heq
      exact hother c (h.mod_double hc ▸ hc) k hk heq
  · simp only [Full, not_forall, Bool.not_eq_true] at hfull
    obtain ⟨i, hi, hunused⟩ := hfull
    obtain ⟨hscan, hfree⟩ := scan_of_unused hi hunused
    rw [reserve_of_unused hcap hfree]
    refine ⟨_, h.insertAt hash ha hscan key value, ?_⟩
    by_cases hslot : t.scan = 1
    · rw [hslot]
      exact h.slotOne_insertAt_one ha value hother
    · exact hone.insertAt h ha hslot value fun k hk => hone.ne_of_absent h hlaw hk habsent

/-- `remove` keeps slot 1 reachable, or empties it. -/
theorem Kept.remove (hkept : Kept equals hash t) {fuel : Nat} {t' : Hashmap Key Val}
    (hremove : t.remove equals hash fuel key = some t') : Kept equals hash t' := by
  obtain ⟨cs, h, hone⟩ := hkept
  simp only [Hashmap.remove, bind_eq_bind, bind_eq_some_iff] at hremove
  obtain ⟨found, hloc, hedit⟩ := hremove
  cases found with
  | none =>
    cases hedit
    exact ⟨cs, h, hone⟩
  | some found =>
    have hsearch := h.search_of_locate hloc
    simp only [map_eq_some_iff] at hsearch
    obtain ⟨r, hr, hci⟩ := hsearch
    obtain ⟨c', rfl, hpair⟩ := hci
    cases hpair
    obtain ⟨hmem, -⟩ := search_eq_some hr
    obtain ⟨as, bs, hsplit⟩ := List.append_of_mem hmem
    simp only at hedit
    split at hedit <;> cases hedit
    exact ⟨_, h.detach hsplit, hone.detach h hsplit⟩

/-- Every reachable table keeps slot 1 reachable. -/
theorem Reachable.kept (hlaw : LawfulHash equals hash) (ht : Reachable equals hash t) :
    Kept equals hash t := by
  obtain ⟨nodeTableAt, hrun⟩ := ht
  refine hrun.invariant (Kept equals hash)
    ⟨fun _ => [], ⟨le_refl 64, ChainsOf.empty nodeTableAt, fun _ _ => rfl,
    by simp, fun _ => ⟨rfl, rfl⟩⟩, ⟨fun k hk => ?_, fun k hk => ?_⟩⟩ ?_
  · cases hk
  · cases hk
  · rintro t call t' hkept hcall ⟨fuel, hstep⟩
    cases call with
    | emplaceAt key value a =>
      cases hstep
      exact hkept.emplaceAt hlaw hcall.1 hcall.2 value
    | remove key => exact hkept.remove hstep
    | atKey key =>
      simp only [Call.run, map_eq_some_iff] at hstep
      obtain ⟨-, -, rfl⟩ := hstep
      exact hkept

/-- `emplace_at` on a full table does not add its binding: it overwrites the one in slot 1. -/
theorem Kept.not_addsBinding (hkept : Kept equals hash t) (hlaw : LawfulHash equals hash)
    (hfull : t.Full) (habsent : Answers equals hash t key none) (ha : t.FreshFor a) (value : Val) :
    ¬ AddsBinding equals hash t (t.emplaceAt hash key value a) key value := by
  obtain ⟨cs, h, hone⟩ := hkept
  have hused := hfull 1 (by have := h.capacity; omega)
  obtain ⟨hkey, hvalue⟩ := h.node 1
  rw [hused, isSome_iff_exists] at hkey hvalue
  obtain ⟨k, hk⟩ := hkey
  obtain ⟨v, hv⟩ := hvalue
  intro hadds
  have hbefore := hone.answers h hlaw hk hfull
  rw [hv] at hbefore
  have hlost := (hadds.1 k v hbefore).unique (hone.lost h hlaw hk hfull habsent ha value)
  cases hlost

/-! ## A table that fills up -/

/-- The table after `emplace_at` of the keys below `n`, each under itself. -/
def filled : Nat → Hashmap Nat Nat
  | 0 => empty 0
  | n + 1 => (filled n).emplaceAt id n n ⟨n + 1, n + 1, 0, 0, 0⟩

theorem lawfulHash_id : LawfulHash (fun k k' : Nat => k == k') id :=
  ⟨by simp, by simp, by simp, by simp⟩

/-- The table with the keys below `n` lacks the key `n`, and the heap has objects for it. -/
theorem filled_next : ∀ n ≤ 64,
    (filled n).atKey (fun k k' : Nat => k == k') id 65 n = some none ∧
    (filled n).FreshFor ⟨n + 1, n + 1, 0, 0, 0⟩ := by
  decide +kernel

/-- Filling the table is a run without growth. -/
theorem filled_reachable {n : Nat} (hn : n ≤ 64) :
    Reachable (fun k k' : Nat => k == k') id (filled n) := by
  induction n with
  | zero => exact ⟨0, .refl⟩
  | succ n ih =>
    obtain ⟨p, hrun⟩ := ih (by omega)
    obtain ⟨habsent, hfresh⟩ := filled_next n (by omega)
    exact ⟨p, hrun.tail ⟨.emplaceAt n n _, ⟨⟨65, habsent⟩, hfresh⟩, 0, rfl⟩⟩

/-- The table with the keys below 64 is full, lacks the key 64, and the heap has objects for it. -/
theorem filled_full : (filled 64).Full ∧
    Answers (fun k k' : Nat => k == k') id (filled 64) 64 none ∧
    (filled 64).FreshFor ⟨65, 65, 0, 0, 0⟩ := by
  obtain ⟨habsent, hfresh⟩ := filled_next 64 le_rfl
  refine ⟨?_, ⟨65, habsent⟩, hfresh⟩
  unfold Full
  decide +kernel

/-- Inserting the keys 0 to 63 and then 64 loses a binding. -/
theorem growth_of_filled_table : ¬ ∀ t : Hashmap Nat Nat,
    Reachable (fun k k' : Nat => k == k') id t → t.Full →
    ∀ (key value : Nat) (a : Allocation), Answers (fun k k' : Nat => k == k') id t key none →
      t.FreshFor a →
      AddsBinding (fun k k' : Nat => k == k') id t (t.emplaceAt id key value a) key value := by
  intro hall
  obtain ⟨hfull, habsent, hfresh⟩ := filled_full
  have hreach := filled_reachable le_rfl
  exact (hreach.kept lawfulHash_id).not_addsBinding lawfulHash_id hfull habsent hfresh 64
    (hall _ hreach hfull 64 64 _ habsent hfresh)

/-- On every full table that a run can reach, `emplace_at` of an absent key loses a binding. -/
theorem growth_loses_slot_one (equals : Key → Key → Bool) (hash : Key → Nat)
    (hlaw : LawfulHash equals hash) (t : Hashmap Key Val) (ht : Reachable equals hash t)
    (hfull : t.Full) (key : Key) (value : Val) (habsent : Answers equals hash t key none)
    (a : Allocation) (ha : t.FreshFor a) :
    ¬ AddsBinding equals hash t (t.emplaceAt hash key value a) key value :=
  (ht.kept hlaw).not_addsBinding hlaw hfull habsent ha value

/-- The table with the keys below 64 is one on which every growth loses a binding. -/
theorem growth_loses_slot_one_filled :
    ¬ AddsBinding (fun k k' : Nat => k == k') id (filled 64)
      ((filled 64).emplaceAt id 64 64 ⟨65, 65, 0, 0, 0⟩) 64 64 :=
  growth_loses_slot_one _ _ lawfulHash_id _ (filled_reachable le_rfl) filled_full.1 64 64
    filled_full.2.1 _ filled_full.2.2

end Hashmap

end Obos.Utils
