import Obos.Lib.Run
import Obos.Utils.Hashmap

/-!
# The hash map refines a finite map

As long as no more than 64 bindings are live at once, the table never grows, and
a `Hashmap` behaves as a finite map that remembers the order its bindings came
in. `Represents t es` ties a table to the list of its entries in insertion
order, each with the slot, the chain and the list node that hold it.
`emplaceAt` appends an entry and `remove` filters one out, so the relation holds
along every run; `hashmap_refines_map` reads the answers of `at`, `contains` and
the iterators off it.
-/

namespace Obos.Utils

open Lib Function List

/-- The comparison and the hash function of a key type: the comparison is an equivalence, and the
hash function respects it. -/
structure LawfulHash {Key : Type} (equals : Key → Key → Bool) (hash : Key → Nat) : Prop where
  refl : ∀ k, equals k k = true
  symm : ∀ {k k'}, equals k k' = true → equals k' k = true
  trans : ∀ {k k' k''}, equals k k' = true → equals k' k'' = true → equals k k'' = true
  hash_eq : ∀ {k k'}, equals k k' = true → hash k = hash k'

/-- A binding and where the table keeps it. -/
structure Entry (Key Val : Type) where
  key : Key
  value : Val
  slot : Nat
  chain : Ptr
  link : Ptr

/-- The binding alone. -/
def Entry.binding {Key Val : Type} (e : Entry Key Val) : Key × Val := (e.key, e.value)

open Entry (binding link slot)

namespace Hashmap

variable {Key Val : Type} {equals : Key → Key → Bool} {hash : Key → Nat} {t : Hashmap Key Val}
  {es : List (Entry Key Val)}

/-- The chains a bucket holds for the given entries. -/
def chainsIn (hash : Key → Nat) (es : List (Entry Key Val)) (b : Nat) : List Ptr :=
  (es.filter fun e => hash e.key % 64 = b).map Entry.chain

/-- The table holds exactly the given entries, inserted in this order. -/
structure Represents (equals : Key → Key → Bool) (hash : Key → Nat) (t : Hashmap Key Val)
    (es : List (Entry Key Val)) : Prop where
  capacity : t.tableCapacity = 64
  chains : ChainsOf t (chainsIn hash es)
  index : ∀ e ∈ es, t.tableIndex e.chain = e.slot
  node : ∀ e ∈ es, t.nodeTable e.slot = ⟨some e.key, some e.value, e.link, true⟩
  slots_nodup : (es.map Entry.slot).Nodup
  slot_lt : ∀ e ∈ es, e.slot < 64
  unused : ∀ i, i ∉ es.map Entry.slot → (t.nodeTable i).used = false
  list : t.insertionList.IsList 0 (es.map Entry.link)
  data : ∀ e ∈ es, t.data e.link = (t.nodeTableAt, e.slot)
  live : ∀ e ∈ es, e.link ∈ t.liveListNodes
  distinct : es.Pairwise fun e e' => equals e.key e'.key = false

/-! ## Searching -/

/-- A search through the chains of some entries finds the first one with an equal key. -/
theorem search_map (key : Key) {es : List (Entry Key Val)}
    (hindex : ∀ e ∈ es, t.tableIndex e.chain = e.slot)
    (hnode : ∀ e ∈ es, (t.nodeTable e.slot).key = some e.key) :
    t.search equals key (es.map Entry.chain) =
      some ((es.find? fun e => equals key e.key).map Entry.chain) := by
  induction es with
  | nil => rfl
  | cons e es ih =>
    have hrest := ih (fun e' he' => hindex e' (mem_cons_of_mem e he'))
      (fun e' he' => hnode e' (mem_cons_of_mem e he'))
    have hkey := hnode e mem_cons_self
    rw [← hindex e mem_cons_self] at hkey
    by_cases he : equals key e.key = true
    · simp [search, hkey, he]
    · simp [search, hkey, he, hrest]

theorem length_chainsIn_le (hash : Key → Nat) (es : List (Entry Key Val)) (b : Nat) :
    (chainsIn hash es b).length ≤ es.length := by
  rw [chainsIn, length_map]
  exact length_filter_le _ _

/-! ## The operations -/

/-- Objects that are not in use yet, the list node with a null `next` field. -/
def FreshFor (t : Hashmap Key Val) (a : Allocation) : Prop :=
  a.chain ≠ 0 ∧ a.chain ∉ t.liveChains ∧ a.listNode ≠ 0 ∧ a.listNode ∉ t.liveListNodes ∧
    a.rawNext = 0

instance (t : Hashmap Key Val) (a : Allocation) : Decidable (t.FreshFor a) :=
  inferInstanceAs (Decidable (_ ∧ _))

/-- A new map represents no entries. -/
theorem Represents.empty (nodeTableAt : Ptr) :
    Represents equals hash (Hashmap.empty nodeTableAt : Hashmap Key Val) [] where
  capacity := rfl
  chains := ChainsOf.empty nodeTableAt
  index := by simp
  node := by simp
  slots_nodup := by simp
  slot_lt := by simp
  unused _ _ := rfl
  list := ⟨by simp [DList.Adjacent, Hashmap.empty, insertionList], by simp, by simp⟩
  data := by simp
  live := by simp
  distinct := .nil

/-- Removal of an entry's chain, list node and slot takes the entry out. -/
theorem Represents.detach {before after : List (Entry Key Val)} {e : Entry Key Val}
    (h : Represents equals hash t (before ++ e :: after)) :
    Represents equals hash (t.detach (hash e.key % t.tableCapacity) e.chain e.slot)
      (before ++ after) := by
  have hself : e ∈ before ++ e :: after := mem_append_right _ mem_cons_self
  have hmem : ∀ e' ∈ before ++ after, e' ∈ before ++ e :: after := fun e' he' =>
    perm_middle.mem_iff.2 (mem_cons_of_mem e he')
  have hslots : e.slot ∉ (before ++ after).map slot ∧
      ((before ++ after).map slot).Nodup := by
    have hperm := (perm_middle.map slot).nodup_iff.1 h.slots_nodup
    exact nodup_cons.1 hperm
  have hslot : ∀ e' ∈ before ++ after, e'.slot ≠ e.slot := fun e' he' heq =>
    hslots.1 (heq ▸ mem_map_of_mem he')
  refine ⟨h.capacity, ?_, fun e' he' => h.index e' (hmem e' he'), ?_, hslots.2,
    fun e' he' => h.slot_lt e' (hmem e' he'), ?_, ?_, fun e' he' => h.data e' (hmem e' he'),
    fun e' he' => h.live e' (hmem e' he'), ?_⟩
  · have hsplit : chainsIn hash (before ++ e :: after) (hash e.key % 64) =
        chainsIn hash before (hash e.key % 64) ++
          e.chain :: chainsIn hash after (hash e.key % 64) := by
      simp [chainsIn]
    rw [h.capacity]
    have hunlink := h.chains.unlinkChain hsplit
    have hsame : chainsIn hash (before ++ after) = update
        (chainsIn hash (before ++ e :: after)) (hash e.key % 64)
        (chainsIn hash before (hash e.key % 64) ++ chainsIn hash after (hash e.key % 64)) := by
      funext b
      by_cases hb : b = hash e.key % 64
      · subst hb
        simp [chainsIn]
      · simp [chainsIn, update_of_ne hb, Ne.symm hb]
    rw [hsame]
    exact ⟨hunlink.lists, hunlink.count, hunlink.live⟩
  · intro e' he'
    rw [nodeTable_detach_other (hslot e' he')]
    exact h.node e' (hmem e' he')
  · intro i hi
    by_cases hie : i = e.slot
    · subst hie
      rw [nodeTable_detach_self]
    · rw [nodeTable_detach_other hie]
      refine h.unused i fun hin => hi ?_
      have hperm := (perm_middle.map slot).mem_iff.1 hin
      exact (mem_cons.1 hperm).resolve_left hie
  · have hlist : t.insertionList.IsList 0
        (before.map link ++ e.link :: after.map link) := by
      simpa using h.list
    have hnode : (t.nodeTable e.slot).referencingNode = e.link := by rw [h.node e hself]
    rw [map_append]
    have hunlink := hlist.unlink
    rw [← hnode] at hunlink
    exact hunlink
  · exact h.distinct.sublist (List.Sublist.append_left (sublist_cons_self e after) before)

theorem exists_unused_slot (hlen : es.length < 64) : ∃ i < 64, i ∉ es.map Entry.slot := by
  by_contra! hall
  have hsub : range 64 ⊆ es.map slot := fun i hi => hall i (mem_range.1 hi)
  have hle := (nodup_range.subperm hsub).length_le
  rw [length_range, length_map] at hle
  omega

section

variable (h : Represents equals hash t es)
include h

/-- Iterating from an entry's list node visits it and the entries after it. -/
theorem Represents.iterate {before rest : List (Entry Key Val)} (hes : es = before ++ rest)
    {fuel : Nat} (hfuel : rest.length < fuel) :
    t.iterate fuel ((rest.map Entry.link ++ [0]).head (by simp)) =
      some (rest.map Entry.binding) := by
  induction rest generalizing before fuel with
  | nil =>
    obtain ⟨fuel, rfl⟩ := Nat.exists_eq_add_of_lt hfuel
    simp [Hashmap.iterate]
  | cons e rest ih =>
    obtain ⟨fuel, rfl⟩ := Nat.exists_eq_add_of_lt hfuel
    have hmem : e ∈ es := by simp [hes]
    have hlist : t.insertionList.IsList 0
        (before.map link ++ e.link :: rest.map link) := by
      simpa [hes] using h.list
    have hne : e.link ≠ 0 := fun he => hlist.null_notMem (by simp [he])
    have hnext : t.listNext e.link = (rest.map link ++ [0]).head (by simp) :=
      hlist.neighbours.2
    have hsplit : es = (before ++ [e]) ++ rest := by simpa using hes
    have hrest := ih hsplit (show rest.length < rest.length + 1 + fuel by omega)
    simp [Hashmap.iterate, hne, h.data e hmem, h.node e hmem, hnext, hrest, binding]

variable (hlaw : LawfulHash equals hash)
include hlaw

/-- Insertion into an unused slot appends the entry. -/
theorem Represents.insertAt {a : Allocation} (ha : t.FreshFor a) {i : Nat} (hi : i < 64)
    (hfree : i ∉ es.map Entry.slot) {key : Key} (hnew : ∀ e ∈ es, equals key e.key = false)
    (value : Val) :
    Represents equals hash (t.insertAt hash i key value a)
      (es ++ [⟨key, value, i, a.chain, a.listNode⟩]) := by
  obtain ⟨hc, hcfresh, hl, hlfresh, hraw⟩ := ha
  have hchain : ∀ e ∈ es, e.chain ≠ a.chain := by
    intro e he heq
    refine h.chains.notMem hcfresh (hash e.key % 64) (heq ▸ ?_)
    exact mem_map_of_mem (mem_filter.2 ⟨he, by simp⟩)
  have hlink : ∀ e ∈ es, e.link ≠ a.listNode := fun e he heq => hlfresh (heq ▸ h.live e he)
  have hslot : ∀ e ∈ es, e.slot ≠ i := fun e he heq =>
    hfree (heq ▸ mem_map_of_mem he)
  have hlinkMem : a.listNode ∉ es.map link := by
    intro hmem
    obtain ⟨e, he, heq⟩ := mem_map.1 hmem
    exact hlink e he heq
  have hsnoc {P : Entry Key Val → Prop} (hold : ∀ e ∈ es, P e)
      (hlast : P ⟨key, value, i, a.chain, a.listNode⟩) :
      ∀ e ∈ es ++ [⟨key, value, i, a.chain, a.listNode⟩], P e :=
    forall_mem_append.2 ⟨hold, forall_mem_singleton.2 hlast⟩
  refine ⟨h.capacity, ?_, ?_, ?_, ?_, hsnoc h.slot_lt hi, ?_, ?_, ?_, ?_, ?_⟩
  · have hinsert := h.chains.insertAt hash hc hcfresh i key value
    rw [h.capacity] at hinsert
    convert hinsert using 1
    funext b
    by_cases hb : b = hash key % 64
    · subst hb
      simp [chainsIn]
    · simp [chainsIn, update_of_ne hb, Ne.symm hb]
  · exact hsnoc (fun e he => (update_of_ne (hchain e he) _ _).trans (h.index e he))
      (update_self _ _ _)
  · exact hsnoc (fun e he => (nodeTable_insertAt_other (hslot e he)).trans (h.node e he))
      nodeTable_insertAt_self
  · rw [map_append, nodup_append]
    refine ⟨h.slots_nodup, by simp, fun j hj j' hj' heq => hfree ?_⟩
    rw [← (show j' = i by simpa using hj'), ← heq]
    exact hj
  · intro j hj
    rw [map_append, mem_append, not_or] at hj
    have hne : j ≠ i := by simpa using hj.2
    rw [nodeTable_insertAt_other hne]
    exact h.unused j hj.1
  · have hkept : (t.allocListNode a (t.nodeTableAt, i)).insertionList.IsList 0
        (es.map link) := by
      have hne : ∀ x ∈ es.map link, x ≠ a.listNode := fun x hx he => hlinkMem (he ▸ hx)
      exact h.list.congr rfl rfl (fun x hx => update_of_ne (hne x hx) _ _)
        (fun x hx => update_of_ne (hne x hx) _ _)
    rw [map_append]
    exact hkept.pushBack hl hlinkMem ((update_self _ _ _).trans hraw)
  · exact hsnoc (fun e he => (update_of_ne (hlink e he) _ _).trans (h.data e he))
      (update_self _ _ _)
  · exact hsnoc (fun e he => mem_cons_of_mem _ (h.live e he)) mem_cons_self
  · refine pairwise_append.2 ⟨h.distinct, by simp, fun e he e' he' => ?_⟩
    rw [mem_singleton.1 he', Bool.eq_false_iff]
    intro heq
    have hflip := hlaw.symm heq
    rw [hnew e he] at hflip
    cases hflip

/-- `emplace_at` of a new key appends its entry while fewer than 64 are live. -/
theorem Represents.emplaceAt {a : Allocation} (ha : t.FreshFor a) (hlen : es.length < 64)
    {key : Key} (hnew : ∀ e ∈ es, equals key e.key = false) (value : Val) :
    Represents equals hash (t.emplaceAt hash key value a)
      (es ++ [⟨key, value, t.scan, a.chain, a.listNode⟩]) := by
  obtain ⟨i, hi, hmem⟩ := exists_unused_slot hlen
  have hscan := scan_of_unused (t := t) (h.capacity ▸ hi) (h.unused i hmem)
  have hfree : t.scan ∉ es.map slot := by
    intro hin
    obtain ⟨e, he, heq⟩ := mem_map.1 hin
    have hused := hscan.2
    rw [← heq, h.node e he] at hused
    cases hused
  unfold Hashmap.emplaceAt
  rw [reserve_of_unused (by simp [h.capacity]) hscan.2]
  exact h.insertAt hlaw ha (h.capacity ▸ hscan.1) hfree hnew value

variable {fuel : Nat} (hfuel : es.length < fuel) (key : Key)
include hfuel

/-- A lookup finds the entry with an equal key. -/
theorem Represents.locate :
    t.locate equals hash fuel key =
      some ((es.find? fun e => equals key e.key).map fun e => (e.chain, e.slot)) := by
  have hcap : t.tableCapacity ≠ 0 := by simp [h.capacity]
  have hlen := (length_chainsIn_le hash es (hash key % t.tableCapacity)).trans_lt hfuel
  have hmem : ∀ e ∈ es.filter fun e => hash e.key % 64 = hash key % t.tableCapacity, e ∈ es :=
    fun e he => (mem_filter.1 he).1
  -- an equal key has an equal hash, so the bucket loses no match
  have hfind : (es.filter fun e => hash e.key % 64 = hash key % t.tableCapacity).find?
      (fun e => equals key e.key) = es.find? fun e => equals key e.key := by
    rw [find?_filter]
    congr 1
    funext e
    by_cases he : equals key e.key = true
    · simp [he, h.capacity, hlaw.hash_eq he]
    · simp [he]
  rw [locate_eq h.chains hcap hlen, chainsIn, search_map key
    (fun e he => h.index e (hmem e he)) (fun e he => by rw [h.node e (hmem e he)]), hfind]
  cases hfound : es.find? fun e => equals key e.key with
  | none => rfl
  | some e =>
    have he : e ∈ es := mem_of_find?_eq_some hfound
    simp [h.index e he]

/-- `at` answers with the value of the entry with an equal key. -/
theorem Represents.atKey :
    t.atKey equals hash fuel key =
      some ((es.find? fun e => equals key e.key).map Entry.value) := by
  unfold Hashmap.atKey
  rw [h.locate hlaw hfuel key]
  cases hfound : es.find? fun e => equals key e.key with
  | none => rfl
  | some e => simp [h.node e (mem_of_find?_eq_some hfound)]

/-- `remove` returns, and keeps exactly the entries whose key is not equal to the given one. -/
theorem Represents.remove :
    ∃ t', t.remove equals hash fuel key = some t' ∧
      Represents equals hash t' (es.filter fun e => !equals key e.key) := by
  unfold Hashmap.remove
  rw [h.locate hlaw hfuel key]
  cases hfound : es.find? fun e => equals key e.key with
  | none =>
    have hall := find?_eq_none.1 hfound
    refine ⟨t, rfl, ?_⟩
    rwa [filter_eq_self.2 fun e he => by simpa using hall e he]
  | some e =>
    obtain ⟨hkey, before, after, rfl, hbefore⟩ := find?_eq_some_iff_append.1 hfound
    have hself : e ∈ before ++ e :: after := mem_append_right _ mem_cons_self
    have hlink : e.link ≠ 0 := fun he => h.list.null_notMem (he ▸ mem_map_of_mem hself)
    -- the entries behind the one found have other keys
    have hafter : ∀ e' ∈ after, equals key e'.key = false := by
      intro e' he'
      rw [Bool.eq_false_iff]
      intro hkey'
      have hdistinct := (pairwise_cons.1 (pairwise_append.1 h.distinct).2.1).1 e' he'
      rw [hlaw.trans (hlaw.symm hkey) hkey'] at hdistinct
      cases hdistinct
    have hkept : (before ++ e :: after).filter (fun e => !equals key e.key) =
        before ++ after := by
      rw [filter_append, filter_cons_of_neg (by simp [hkey]),
        filter_eq_self.2 hbefore,
        filter_eq_self.2 fun e' he' => by simp [hafter e' he']]
    rw [hkept, hlaw.hash_eq hkey]
    refine ⟨t.detach (hash e.key % t.tableCapacity) e.chain e.slot, ?_, h.detach⟩
    simp [h.node e hself, hlink]

end

/-! ## Runs -/

/-- A call on the map, with what the heap hands out during it. -/
inductive Call (Key Val : Type) where
  | emplaceAt (key : Key) (value : Val) (a : Allocation)
  | remove (key : Key)
  | atKey (key : Key)

variable (equals hash) in
/-- What a call does to the table, `none` where it does not return. -/
def Call.run (fuel : Nat) (t : Hashmap Key Val) : Call Key Val → Option (Hashmap Key Val)
  | .emplaceAt key value a => some (t.emplaceAt hash key value a)
  | .remove key => t.remove equals hash fuel key
  | .atKey key => (t.atKey equals hash fuel key).map fun _ => t

variable (equals) in
/-- What a call does to the bindings of a finite map, kept in the order they came in. -/
def Call.effect (m : List (Key × Val)) : Call Key Val → List (Key × Val)
  | .emplaceAt key value _ => m ++ [(key, value)]
  | .remove key => m.filter fun e => !equals key e.1
  | .atKey _ => m

variable (equals) in
/-- The value a finite map has for a key. -/
def lookup (m : List (Key × Val)) (key : Key) : Option Val :=
  (m.find? fun e => equals key e.1).map Prod.snd

variable (equals hash) in
/-- A call on the table and on the finite map side by side. -/
def next (fuel : Nat) (s : Hashmap Key Val × List (Key × Val)) (call : Call Key Val) :
    Option (Hashmap Key Val × List (Key × Val)) :=
  (call.run equals hash fuel s.1).map fun t => (t, call.effect equals s.2)

variable (equals) in
/-- Keys are only emplaced while they are absent and fewer than 64 bindings are live. -/
def Permitted (s : Hashmap Key Val × List (Key × Val)) : Call Key Val → Prop
  | .emplaceAt key _ a =>
    (∀ e ∈ s.2, equals key e.1 = false) ∧ s.2.length < 64 ∧ s.1.FreshFor a
  | .remove _ | .atKey _ => True

instance (s : Hashmap Key Val × List (Key × Val)) (call : Call Key Val) :
    Decidable (Permitted equals s call) :=
  match call with
  | .emplaceAt _ _ _ => inferInstanceAs (Decidable (_ ∧ _))
  | .remove _ | .atKey _ => inferInstanceAs (Decidable True)

/-- The table holds the bindings of the finite map, at most 64 of them. -/
def Refines (equals : Key → Key → Bool) (hash : Key → Nat)
    (s : Hashmap Key Val × List (Key × Val)) : Prop :=
  ∃ es, Represents equals hash s.1 es ∧ es.map Entry.binding = s.2 ∧ es.length ≤ 64

/-- A permitted call returns and keeps the table and the finite map together. -/
theorem Refines.next {s : Hashmap Key Val × List (Key × Val)} {call : Call Key Val} {fuel : Nat}
    (h : Refines equals hash s) (hlaw : LawfulHash equals hash) (hfuel : 64 < fuel)
    (hcall : Permitted equals s call) :
    ∃ s', next equals hash fuel s call = some s' ∧ Refines equals hash s' := by
  obtain ⟨t, m⟩ := s
  obtain ⟨es, hes, rfl, hlen⟩ := h
  have hmore := hlen.trans_lt hfuel
  cases call with
  | emplaceAt key value a =>
    obtain ⟨hnew, hroom, hfresh⟩ := hcall
    have hnew' : ∀ e ∈ es, equals key e.key = false := fun e he =>
      hnew e.binding (mem_map_of_mem he)
    have hroom' : es.length < 64 := by simpa using hroom
    refine ⟨_, rfl, _, hes.emplaceAt hlaw hfresh hroom' hnew' value, ?_, ?_⟩
    · simp [Call.effect, binding]
    · simpa using hroom'
  | remove key =>
    obtain ⟨t', hrun, hes'⟩ := hes.remove hlaw hmore key
    refine ⟨(t', (Call.remove key).effect equals (es.map binding)),
      by simp [Hashmap.next, Call.run, hrun], _, hes', ?_, ?_⟩
    · rw [Call.effect, filter_map]
      rfl
    · exact (length_filter_le _ _).trans hlen
  | atKey key =>
    have hat := hes.atKey hlaw hmore key
    exact ⟨(t, _), by simp [Hashmap.next, Call.run, Call.effect, hat], es, hes, rfl, hlen⟩

/-- In every run of `emplace_at` of absent keys, `remove` and `at` on a new map in which no more
than 64 bindings are ever live, every call returns, `at` and `contains` agree with a finite map,
and iterating from `begin()` visits its bindings, each once, in the order they were inserted. -/
theorem hashmap_refines_map (equals : Key → Key → Bool) (hash : Key → Nat)
    (hlaw : LawfulHash equals hash) (nodeTableAt : Ptr) (fuel : Nat) (hfuel : 64 < fuel)
    (t : Hashmap Key Val) (m : List (Key × Val))
    (hrun : Reaches (Permitted equals) (fun s call s' => next equals hash fuel s call = some s')
      (empty nodeTableAt, []) (t, m)) :
    (∀ key, t.atKey equals hash fuel key = some (lookup equals m key) ∧
      t.contains equals hash fuel key = some (lookup equals m key).isSome) ∧
    t.iterate fuel t.head = some m ∧
    (m.Pairwise fun e e' => equals e.1 e'.1 = false) ∧
    ∀ call, Permitted equals (t, m) call →
      ∃ s', next equals hash fuel (t, m) call = some s' := by
  have hrefines : Refines equals hash (t, m) := by
    refine hrun.invariant (Refines equals hash) ⟨[], Represents.empty nodeTableAt, rfl, by simp⟩ ?_
    intro s call s' h hcall hstep
    obtain ⟨s'', hs'', h'⟩ := h.next hlaw hfuel hcall
    rw [hstep] at hs''
    cases hs''
    exact h'
  have hreturn : ∀ call, Permitted equals (t, m) call →
      ∃ s', next equals hash fuel (t, m) call = some s' := by
    intro call hcall
    obtain ⟨s', hs', -⟩ := hrefines.next hlaw hfuel hcall
    exact ⟨s', hs'⟩
  obtain ⟨es, hes, rfl, hlen⟩ := hrefines
  have hmore := hlen.trans_lt hfuel
  have hat : ∀ key, t.atKey equals hash fuel key =
      some (lookup equals (es.map binding) key) := by
    intro key
    rw [hes.atKey hlaw hmore key, lookup, find?_map, Option.map_map]
    rfl
  refine ⟨fun key => ⟨hat key, ?_⟩, ?_, ?_, hreturn⟩
  · rw [contains, hat key, Option.map_some]
  · have hhead : t.head = (es.map link ++ [0]).head (by simp) := hes.list.head_eq
    rw [hhead]
    exact hes.iterate (nil_append es).symm hmore
  · exact pairwise_map.2 hes.distinct

/-- Three keys in one bucket, the second `emplace_at` from the end reusing a freed chain. -/
theorem hashmap_refines_map_collision : ∃ t : Hashmap Nat Nat,
    t.iterate 65 t.head = some [(2, 20), (3, 30)] ∧
    t.contains (· == ·) (fun _ => 5) 65 1 = some false := by
  have hlaw : LawfulHash (fun k k' : Nat => k == k') (fun _ => 5) :=
    ⟨by simp, by simp, by simp, by simp⟩
  have hagree := hashmap_refines_map _ _ hlaw 8 65 (by decide) _ _ (Reaches.of_execute
    (show execute (Permitted _) (next _ _ 65) ((empty 8 : Hashmap Nat Nat), [])
      [.emplaceAt 1 10 ⟨1, 1, 0, 0, 0⟩, .emplaceAt 2 20 ⟨2, 2, 0, 0, 0⟩, .remove 1,
        .emplaceAt 3 30 ⟨1, 3, 0, 0, 0⟩] = some (_, [(2, 20), (3, 30)]) from rfl))
  exact ⟨_, hagree.2.1, (hagree.1 1).2⟩

end Hashmap

end Obos.Utils
