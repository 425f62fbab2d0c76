import Obos.Allocators.SlabLists

/-!
# Allocating several objects

The loop of `ImplSlabAllocate` takes the node it has found before the loop again and again. One
object is allocated as it should be, which is `allocates_right_iff`; from the second turn on the
node is its own successor, whatever the lists were. `HasNode` finds every pointer, so that freeing
one that is not allocated changes the lists, which is `slabHasObject_right_iff`.
-/

namespace Obos.Allocators

open Lib Option Function

/-- The objects that `ImplSlabFree` finds at an address. -/
def objectsAt (sizes : ObjectSizes) (t : ObjectType) (obj nObjects : Nat) : List Nat :=
  (List.range nObjects).map fun i => obj + i * (sizes.size t + nodeSize)

/-- `ImplSlabAllocate` returns objects that overlap no live object and no node, and that are the
ones that become allocated. -/
def AllocatesRight (sizes : ObjectSizes) (virtualAlloc : PageSupply sizes) (s : SlabSystem)
    (t : ObjectType) (nObjects : Nat) : Prop :=
  ∃ ret slab, implSlabAllocate sizes virtualAlloc s.slab t nObjects = some (ret, slab) ∧
    (∀ obj ∈ objectsAt sizes t ret nObjects,
      (∀ t', ∀ obj' ∈ s.live t', obj + sizes.size t ≤ obj' ∨ obj' + sizes.size t' ≤ obj) ∧
      ∀ t', ∀ x ∈ slab.nodes t', obj + sizes.size t ≤ x ∨ x + nodeSize ≤ obj) ∧
    ∃ xs, SlabLists slab xs ∧ ∀ t', ((xs (t', .allocated)).map (· + nodeSize)).Perm
      (update s.live t (s.live t ++ objectsAt sizes t ret nObjects) t')

section

variable {sizes : ObjectSizes} {virtualAlloc : PageSupply sizes} {s : SlabSystem} {t : ObjectType}

theorem lists_remove_free (s : Slab) (t : ObjectType) (node : Nat) :
    (s.remove (t, .free) node).lists (t, .allocated) = s.lists (t, .allocated) :=
  update_of_ne (by simp) _ _

theorem tail_take (s : Slab) (t : ObjectType) (node : Nat) :
    ((s.take t node).lists (t, .allocated)).tail = node := by
  simp [Slab.take, Slab.pushBack, DList.pushBack, DList.ends]

theorem next_pushBack_tail {s : Slab} {i : ObjectType × Side} (node : Nat)
    (htail : (s.lists i).tail ≠ 0) : (s.pushBack i node).links.next (s.lists i).tail = node := by
  simp [Slab.pushBack, DList.links, DList.pushBack, LinkFields.through, htail]

/-- A node that is taken twice is its own successor. -/
theorem next_take_take (s : Slab) (t : ObjectType) {node : Nat} (hnode : node ≠ 0) :
    ((s.take t node).take t node).links.next node = node := by
  have htail : (((s.take t node).remove (t, .free) node).lists (t, .allocated)).tail = node := by
    rw [lists_remove_free, tail_take]
  have hnext := next_pushBack_tail node (htail ▸ hnode)
  rwa [htail] at hnext

/-- After the second turn of the loop the lists are not in order. -/
theorem not_slabLists_take_take (s : Slab) (t : ObjectType) {node : Nat} (hnode : node ≠ 0)
    (xs : ObjectType × Side → List Nat) : ¬ SlabLists ((s.take t node).take t node) xs := by
  intro h
  have htail := tail_take (s.take t node) t node
  have hend := h.next_tail (i := (t, .allocated)) (by rwa [htail])
  rw [htail, next_take_take s t hnode] at hend
  exact hnode hend

/-- Several objects are never allocated as they should be. -/
theorem not_allocatesRight {n : Nat} (hn : 2 ≤ n) : ¬ AllocatesRight sizes virtualAlloc s t n := by
  rintro ⟨ret, slab, hallocate, -, xs, hlists, -⟩
  simp only [implSlabAllocate, bind_eq_bind, bind_eq_some_iff] at hallocate
  obtain ⟨s1, -, hallocate⟩ := hallocate
  by_cases hnode : (s1.lists (t, .free)).tail = 0
  · rw [if_pos ⟨hnode, by omega⟩] at hallocate
    cases hallocate
  · rw [if_neg fun hand => hnode hand.1] at hallocate
    obtain ⟨m, rfl⟩ := Nat.exists_eq_add_of_le' hn
    obtain ⟨-, rfl⟩ := hallocate
    rw [Function.iterate_succ_apply', Function.iterate_succ_apply'] at hlists
    exact not_slabLists_take_take _ t hnode xs hlists

/-- One object is allocated as it should be. -/
theorem SlabSystem.Inv.allocatesRight (h : s.Inv sizes)
    (hsupply : (provideNodes sizes virtualAlloc s.slab t 1).isSome) :
    AllocatesRight sizes virtualAlloc s t 1 := by
  obtain ⟨xs, hslab, hlive⟩ := h
  obtain ⟨⟨ret, slab⟩, hallocate⟩ := hslab.exists_allocate hsupply
  obtain ⟨xs', node, rfl, hslab', -, hsame, hnew, hother⟩ := hslab.allocate hallocate
  have hobjects : objectsAt sizes t (node + nodeSize) 1 = [node + nodeSize] := by
    simp [objectsAt]
  have hmem : node ∈ slab.nodes t := hslab'.mem_nodes (i := (t, .allocated)) (by simp [hsame])
  refine ⟨_, slab, hallocate, ?_, xs', hslab'.toSlabLists, fun t' => ?_⟩
  · rw [hobjects]
    intro obj hobj
    obtain rfl := List.mem_singleton.1 hobj
    refine ⟨fun t' obj' hobj' => ?_, fun t' x hx => ?_⟩
    · rw [hlive] at hobj'
      obtain ⟨x, hx, rfl⟩ := List.mem_map.1 hobj'
      -- the node of a live object stays allocated, and is another one
      have hx' : x ∈ xs' (t', .allocated) := by
        by_cases ht : t' = t
        · subst ht
          simp [hsame, hx]
        · rwa [hother t' ht]
      have hne : (t, node) ≠ (t', x) := by
        rintro ⟨⟩
        exact hnew hx
      have hapart := hslab'.apart t t' node x hmem (hslab'.mem_nodes hx') hne
      omega
    · by_cases hne : (t, node) = (t', x)
      · obtain ⟨rfl, rfl⟩ := Prod.mk.inj hne
        exact .inr le_rfl
      · have hapart := hslab'.apart t t' node x hmem hx hne
        omega
  · rw [hobjects]
    by_cases ht : t' = t
    · subst ht
      simp [hsame, hlive]
    · simp [hother t' ht, hlive, ht]

end

/-- In a state that is reached by calls for one object, with every object freed being the one that
was allocated last, `ImplSlabAllocate` is right if and only if it is asked for one object. -/
theorem allocates_right_iff (sizes : ObjectSizes) (virtualAlloc : PageSupply sizes) {s : SlabSystem}
    (hrun : Reaches SlabSystem.FreesLast
      (fun s a s' => s.call sizes virtualAlloc a = some s') .initial s) (t : ObjectType) {n : Nat}
    (hn : 1 ≤ n) (hsupply : (provideNodes sizes virtualAlloc s.slab t n).isSome) :
    AllocatesRight sizes virtualAlloc s t n ↔ n = 1 := by
  refine ⟨fun h => ?_, fun h => ?_⟩
  · by_contra hne
    exact not_allocatesRight (by omega) h
  · subst h
    exact (SlabSystem.inv_of_reaches hrun).allocatesRight hsupply

/-- A third mutex, after two of them. -/
theorem allocates_right_iff_third : ∃ s : SlabSystem, s.live .mutex = [13264, 13168] ∧
    AllocatesRight smallSizes smallSupply s .mutex 1 := by
  obtain ⟨s, hrun, hlive, -, hsupply⟩ := exists_two_allocated
  exact ⟨s, hlive, (allocates_right_iff smallSizes smallSupply hrun .mutex le_rfl hsupply).2 rfl⟩

/-- Two objects of the first call. -/
theorem first_two_not_right : ¬ AllocatesRight smallSizes smallSupply .initial .mutex 2 :=
  not_allocatesRight le_rfl

/-! ## The check of a pointer -/

/-- `SlabHasObject`, for a type other than `Invalid`. -/
def slabHasObject (s : Slab) (t : ObjectType) (obj : Nat) : Option Bool := hasNode s t obj

theorem nNodes_giveBack (sizes : ObjectSizes) (s : Slab) (t : ObjectType) (node : Nat) :
    ((s.giveBack sizes t node).lists (t, .free)).nNodes =
      ((s.lists (t, .free)).nNodes + 1) % 2 ^ 64 := by
  have hsame : (s.remove (t, .allocated) node).lists (t, .free) = s.lists (t, .free) :=
    update_of_ne (by simp) _ _
  simp only [Slab.giveBack, Slab.pushBack, update_self, hsame]

/-- In every such state `SlabHasObject` is right about a pointer if and only if that is a live
object, and `ImplSlabFree` leaves the allocator as it is for another one if and only if nothing was
allocated yet. -/
theorem slabHasObject_right_iff (sizes : ObjectSizes) (virtualAlloc : PageSupply sizes)
    {s : SlabSystem} (hrun : Reaches SlabSystem.FreesLast
      (fun s a s' => s.call sizes virtualAlloc a = some s') .initial s)
    (t : ObjectType) (obj : Nat) :
    (slabHasObject s.slab t obj = some (decide (obj ∈ s.live t)) ↔ obj ∈ s.live t) ∧
    (obj ∉ s.live t →
      (implSlabFree sizes s.slab t obj 1 = some s.slab ↔ s.slab.initialized = false)) := by
  obtain ⟨xs, hslab, -⟩ := SlabSystem.inv_of_reaches hrun
  refine ⟨?_, fun _ => ⟨fun hsame => ?_, fun hinit => ?_⟩⟩
  · rw [slabHasObject, hslab.hasNode]
    simp
  · by_contra hinit
    rw [implSlabFree_eq hslab (by simpa using hinit)] at hsame
    -- the free list counts one node more
    have hcount := nNodes_giveBack sizes s.slab t ((obj + 2 ^ 64 - nodeSize) % 2 ^ 64)
    rw [some.inj hsame] at hcount
    omega
  · simp [implSlabFree, hinit]

theorem slabHasObject_right_two : ∃ s : SlabSystem, 13264 ∈ s.live .mutex ∧
    slabHasObject s.slab .mutex 13264 = some (decide (13264 ∈ s.live .mutex)) := by
  obtain ⟨s, hrun, hlive, -⟩ := exists_two_allocated
  have hmem : 13264 ∈ s.live .mutex := by simp [hlive]
  exact ⟨s, hmem, (slabHasObject_right_iff _ _ hrun .mutex 13264).1.2 hmem⟩

/-- The only mutex is freed and freed again: the free list of 32 nodes counts 33. -/
theorem slab_freed_twice : ((SlabSystem.initial.call smallSizes smallSupply (.allocate .mutex)).bind
    fun s => s.call smallSizes smallSupply (.free .mutex 13264)).bind (fun s =>
      (implSlabFree smallSizes s.slab .mutex 13264 1).map fun slab =>
        (s.live .mutex, slabHasObject s.slab .mutex 13264,
          (s.slab.lists (.mutex, .free)).nNodes, (slab.lists (.mutex, .free)).nNodes)) =
    some ([], some true, 32, 33) := by
  decide +kernel

end Obos.Allocators
