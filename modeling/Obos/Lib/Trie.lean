import Mathlib.Data.List.Nodup

/-!
# Tries of chains

A forest whose nodes have a key and a value. `insert` follows a chain of keys from the top
and makes the nodes that are missing, with the values of the chain; a node that exists keeps
its value. `mem_forest_build` says what is in a forest that is built from the empty one: a
node for every beginning of a chain, with the value of the first chain that has it, and no
node twice (`distinct_build`).
-/

namespace Lib

open List

/-- A node with the forest below it. -/
inductive Trie (K V : Type*) where
  | node (key : K) (value : V) (children : List (Trie K V))

namespace Trie

variable {K V : Type*}

/-- The key of the node at the top. -/
def key : Trie K V → K
  | node k _ _ => k

/-- The value of the node at the top. -/
def value : Trie K V → V
  | node _ v _ => v

/-- The forest below the node at the top. -/
def children : Trie K V → List (Trie K V)
  | node _ _ ts => ts

mutual

/-- Every node, given by the keys from the top down to it, with its value. -/
def entries : Trie K V → List (List K × V)
  | node k v ts => ([k], v) :: (forest ts).map fun e => (k :: e.1, e.2)

/-- Every node of a forest. -/
def forest : List (Trie K V) → List (List K × V)
  | [] => []
  | t :: ts => entries t ++ forest ts

end

/-- The nodes of a forest. -/
def chains (ts : List (Trie K V)) : List (List K) := (forest ts).map Prod.fst

/-- No node twice. -/
def Distinct (ts : List (Trie K V)) : Prop := (chains ts).Nodup

section Nodes

variable {k : K} {w : V} {ks : List K} {t : Trie K V} {ts : List (Trie K V)}

/-- The node at the top and those below it. -/
theorem mem_entries : (ks, w) ∈ entries t ↔
    (ks = [t.key] ∧ w = t.value) ∨ ∃ ks', ks = t.key :: ks' ∧ (ks', w) ∈ forest t.children := by
  obtain ⟨k, v, ts⟩ := t
  simp only [entries, key, value, children, mem_cons, Prod.mk.injEq, mem_map, Prod.exists]
  constructor
  · rintro (h | ⟨ks', w', hmem, rfl, rfl⟩)
    · exact .inl h
    · exact .inr ⟨ks', rfl, hmem⟩
  · rintro (h | ⟨ks', rfl, hmem⟩)
    · exact .inl h
    · exact .inr ⟨ks', w, hmem, rfl, rfl⟩

theorem mem_forest_cons : (ks, w) ∈ forest (t :: ts) ↔ (ks, w) ∈ entries t ∨
    (ks, w) ∈ forest ts := by
  rw [forest, mem_append]

theorem chains_cons :
    chains (t :: ts) = ([t.key] :: (chains t.children).map (t.key :: ·)) ++ chains ts := by
  obtain ⟨k, v, us⟩ := t
  simp [chains, forest, entries, key, children, Function.comp_def]

theorem mem_chains_cons : ks ∈ chains (t :: ts) ↔
    ks = [t.key] ∨ (∃ ks' ∈ chains t.children, ks = t.key :: ks') ∨ ks ∈ chains ts := by
  rw [chains_cons, mem_append, mem_cons, mem_map, or_assoc]
  simp only [eq_comm]

theorem mem_chains : ks ∈ chains ts ↔ ∃ w, (ks, w) ∈ forest ts := by
  simp [chains]

theorem nil_notMem_chains : [] ∉ chains ts := by
  induction ts with
  | nil => exact not_mem_nil
  | cons t ts ih => simp [chains_cons, ih]

/-- A node of a forest is below one of the same first key. -/
theorem singleton_mem_chains (h : k :: ks ∈ chains ts) : [k] ∈ chains ts := by
  induction ts with
  | nil => cases h
  | cons t ts ih =>
    rw [chains_cons, mem_append] at h ⊢
    rcases h with h | h
    · have hk : k = t.key := by
        rcases mem_cons.1 h with heq | hmem
        · exact (cons.inj heq).1
        · obtain ⟨ks', -, heq⟩ := mem_map.1 hmem
          exact (cons.inj heq).1.symm
      exact .inl (by rw [hk]; exact mem_cons_self)
    · exact .inr (ih h)

/-- A forest is distinct if what is below its first node is, the rest of it is, and the key of that
node is new. -/
theorem distinct_cons :
    Distinct (t :: ts) ↔ Distinct t.children ∧ Distinct ts ∧ [t.key] ∉ chains ts := by
  have hinj : Function.Injective (t.key :: · : List K → List K) := fun _ _ h => (cons.inj h).2
  have hhead : [t.key] ∉ (chains t.children).map (t.key :: ·) := by
    intro h
    obtain ⟨ks, hmem, heq⟩ := mem_map.1 h
    rw [(cons.inj heq).2] at hmem
    exact nil_notMem_chains hmem
  rw [Distinct, chains_cons, nodup_append', nodup_cons, nodup_map_iff hinj]
  constructor
  · rintro ⟨⟨-, hbelow⟩, hrest, hdisjoint⟩
    exact ⟨hbelow, hrest, fun h => hdisjoint mem_cons_self h⟩
  · rintro ⟨hbelow, hrest, hnew⟩
    refine ⟨⟨hhead, hbelow⟩, hrest, fun ks hks hmem => hnew ?_⟩
    rcases mem_cons.1 hks with rfl | h
    · exact hmem
    · obtain ⟨ks', -, rfl⟩ := mem_map.1 h
      exact singleton_mem_chains hmem

end Nodes

theorem distinct_nil : Distinct ([] : List (Trie K V)) := nodup_nil

variable [DecidableEq K]

/-- Change what is below the first node with a key, or append a node if there is none. -/
def update (k : K) (f : List (Trie K V) → List (Trie K V)) (new : Trie K V) :
    List (Trie K V) → List (Trie K V)
  | [] => [new]
  | node k' v ts :: rest =>
    if k' = k then node k' v (f ts) :: rest else node k' v ts :: update k f new rest

/-- Follow a chain and make what is missing. -/
def insert : List (K × V) → List (Trie K V) → List (Trie K V)
  | [], ts => ts
  | (k, v) :: rest, ts => update k (insert rest) (node k v (insert rest [])) ts

/-- Insert chains one after the other. -/
def build (cs : List (List (K × V))) : List (Trie K V) := cs.foldl (fun ts c => insert c ts) []

/-- The value a chain has for a beginning of it. -/
def valueAt : List (K × V) → List K → Option V
  | (k, v) :: rest, k' :: ks => if k = k' then (if ks = [] then some v else valueAt rest ks)
      else none
  | _, _ => none

section Chains

variable {k : K} {v w : V} {ks : List K} {c rest : List (K × V)} {ts : List (Trie K V)}

@[simp] theorem valueAt_nil : valueAt c ([] : List K) = none := by
  cases c <;> rfl

/-- The value for a beginning of a chain with another node in front. -/
theorem valueAt_cons : valueAt ((k, v) :: rest) ks = some w ↔
    (ks = [k] ∧ w = v) ∨ ∃ ks', ks = k :: ks' ∧ valueAt rest ks' = some w := by
  cases ks with
  | nil => simp [valueAt]
  | cons k' ks =>
    simp only [valueAt]
    by_cases hk : k = k'
    · subst hk
      by_cases hks : ks = []
      · subst hks
        simp [eq_comm]
      · simp [hks]
    · simp [hk, Ne.symm hk]

/-- The beginnings of a chain, by their length. -/
theorem valueAt_eq_some_iff : valueAt c ks = some w ↔
    ∃ j, ∃ h : j < c.length, ks = (c.map Prod.fst).take (j + 1) ∧ (c.get ⟨j, h⟩).2 = w := by
  induction c generalizing ks with
  | nil => simp [valueAt]
  | cons a rest ih =>
    rw [valueAt_cons]
    constructor
    · rintro (⟨rfl, rfl⟩ | ⟨ks', rfl, hval⟩)
      · exact ⟨0, Nat.zero_lt_succ _, rfl, rfl⟩
      · obtain ⟨j, hj, rfl, hw⟩ := ih.1 hval
        exact ⟨j + 1, Nat.succ_lt_succ hj, rfl, hw⟩
    · rintro ⟨j, hj, rfl, hw⟩
      cases j with
      | zero => exact .inl ⟨rfl, hw.symm⟩
      | succ j => exact .inr ⟨_, rfl, ih.2 ⟨j, Nat.lt_of_succ_lt_succ hj, rfl, hw⟩⟩

/-- What an insertion below the first node adds. -/
theorem mem_forest_insert_same {v' : V} {us : List (Trie K V)} (hk : [k] ∉ chains ts)
    (ih : ∀ {ks w}, (ks, w) ∈ forest (insert rest us) ↔
      (ks, w) ∈ forest us ∨ (ks ∉ chains us ∧ valueAt rest ks = some w)) :
    (ks, w) ∈ forest (node k v' (insert rest us) :: ts) ↔
      (ks, w) ∈ forest (node k v' us :: ts) ∨
        (ks ∉ chains (node k v' us :: ts) ∧ valueAt ((k, v) :: rest) ks = some w) := by
  simp only [mem_forest_cons, mem_entries, key, value, children, ih, valueAt_cons, mem_chains_cons]
  constructor
  · rintro ((h | ⟨ks', rfl, h | ⟨hnew, hval⟩⟩) | h)
    · exact .inl (.inl (.inl h))
    · exact .inl (.inl (.inr ⟨ks', rfl, h⟩))
    · refine .inr ⟨?_, .inr ⟨ks', rfl, hval⟩⟩
      rintro (heq | ⟨ks'', hmem, heq⟩ | hmem)
      · rw [(cons.inj heq).2, valueAt_nil] at hval
        cases hval
      · exact hnew ((cons.inj heq).2 ▸ hmem)
      · exact hk (singleton_mem_chains hmem)
    · exact .inl (.inr h)
  · rintro (((h | ⟨ks', rfl, h⟩) | h) | ⟨hnew, ⟨rfl, rfl⟩ | ⟨ks', rfl, hval⟩⟩)
    · exact .inl (.inl h)
    · exact .inl (.inr ⟨ks', rfl, .inl h⟩)
    · exact .inr h
    · exact absurd (.inl rfl) hnew
    · exact .inl (.inr ⟨ks', rfl, .inr
        ⟨fun hmem => hnew (.inr (.inl ⟨ks', hmem, rfl⟩)), hval⟩⟩)

/-- What an insertion adds. -/
theorem mem_forest_insert (hts : Distinct ts) : (ks, w) ∈ forest (insert c ts) ↔
    (ks, w) ∈ forest ts ∨ (ks ∉ chains ts ∧ valueAt c ks = some w) := by
  induction c generalizing ts ks w with
  | nil => simp [insert, valueAt]
  | cons a rest ih =>
    obtain ⟨k, v⟩ := a
    induction ts with
    | nil =>
      rw [insert, update, mem_forest_cons, mem_entries, valueAt_cons]
      simp only [key, value, children, ih distinct_nil]
      simp [forest, chains]
    | cons t ts ihts =>
      obtain ⟨k', v', us⟩ := t
      obtain ⟨hus, hts', hk'⟩ := distinct_cons.1 hts
      rw [insert, update]
      split
      · rename_i heq
        subst heq
        exact mem_forest_insert_same hk' (ih hus)
      · rename_i hne
        rw [insert] at ihts
        rw [mem_forest_cons, ihts hts', mem_forest_cons, or_assoc]
        -- a chain with another first key is not below this node
        have hother (hval : valueAt ((k, v) :: rest) ks = some w) :
            ks ∈ chains (node k' v' us :: ts) ↔ ks ∈ chains ts := by
          have hks : ∀ ks', ks ≠ k' :: ks' := by
            rintro ks' rfl
            rcases valueAt_cons.1 hval with ⟨heq, -⟩ | ⟨_, heq, -⟩
            · exact hne (cons.inj heq).1
            · exact hne (cons.inj heq).1
          rw [mem_chains_cons]
          simp [key, hks]
        refine or_congr_right (or_congr_right (and_congr_left fun hval => ?_))
        rw [hother hval]

/-- An insertion keeps a forest distinct. -/
theorem Distinct.insert (hts : Distinct ts) : Distinct (insert c ts) := by
  induction c generalizing ts with
  | nil => exact hts
  | cons a rest ih =>
    obtain ⟨k, v⟩ := a
    induction ts with
    | nil => exact distinct_cons.2 ⟨ih distinct_nil, distinct_nil, not_mem_nil⟩
    | cons t ts ihts =>
      obtain ⟨k', v', us⟩ := t
      obtain ⟨hus, hts', hk'⟩ := distinct_cons.1 hts
      rw [Trie.insert, update]
      split
      · exact distinct_cons.2 ⟨ih hus, hts', hk'⟩
      · rename_i hne
        refine distinct_cons.2 ⟨hus, ihts hts', fun hmem => ?_⟩
        obtain ⟨w, hw⟩ := mem_chains.1 hmem
        have hins : ([k'], w) ∈ forest (Trie.insert ((k, v) :: rest) ts) := hw
        rcases (mem_forest_insert hts').1 hins with h | ⟨-, hval⟩
        · exact hk' (mem_chains.2 ⟨w, h⟩)
        · rcases valueAt_cons.1 hval with ⟨heq, -⟩ | ⟨_, heq, -⟩
          · exact hne (cons.inj heq).1
          · exact hne (cons.inj heq).1

/-- The nodes after an insertion. -/
theorem mem_chains_insert (hts : Distinct ts) :
    ks ∈ chains (insert c ts) ↔ ks ∈ chains ts ∨ (valueAt c ks).isSome := by
  by_cases hks : ks ∈ chains ts
  · obtain ⟨w, hw⟩ := mem_chains.1 hks
    exact iff_of_true (mem_chains.2 ⟨w, (mem_forest_insert hts).2 (.inl hw)⟩) (.inl hks)
  · have hnot (w : V) : (ks, w) ∉ forest ts := fun h => hks (mem_chains.2 ⟨w, h⟩)
    rw [mem_chains, Option.isSome_iff_exists]
    simp only [mem_forest_insert hts, hnot, hks, not_false_eq_true, true_and, false_or]

variable (cs : List (List (K × V)))

/-- What insertions one after the other add. -/
theorem mem_forest_foldl (hts : Distinct ts) :
    (ks, w) ∈ forest (cs.foldl (fun ts c => insert c ts) ts) ↔ (ks, w) ∈ forest ts ∨
      (ks ∉ chains ts ∧ cs.findSome? (fun c => valueAt c ks) = some w) := by
  induction cs generalizing ts with
  | nil => simp
  | cons c cs ih =>
    rw [foldl_cons, ih hts.insert, mem_forest_insert hts, mem_chains_insert hts,
      findSome?_cons, or_assoc]
    refine or_congr_right ?_
    by_cases hks : ks ∈ chains ts
    · simp [hks]
    · cases valueAt c ks with
      | none => simp [hks]
      | some v => simp [hks]

/-- The nodes of a forest that is built are the beginnings of the chains, with the value of the
first chain that has them. -/
theorem mem_forest_build : (ks, w) ∈ forest (build cs) ↔
    cs.findSome? (fun c => valueAt c ks) = some w := by
  rw [build, mem_forest_foldl cs distinct_nil]
  simp [forest, chains]

theorem distinct_build : Distinct (build cs) := by
  suffices h : ∀ ts : List (Trie K V), Distinct ts →
      Distinct (cs.foldl (fun ts c => insert c ts) ts) from h [] distinct_nil
  induction cs with
  | nil => exact fun _ h => h
  | cons c cs ih => exact fun ts hts => ih _ hts.insert

end Chains

end Trie

end Lib
