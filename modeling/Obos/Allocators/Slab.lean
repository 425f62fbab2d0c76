import Obos.Lib.DLists
import Obos.Lib.Memory

/-!
# The slab allocator

Objects of a type are carved out of blocks of pages, each behind a node of its own. The nodes of
the objects that are free are on one list of the type, and those of the objects that are allocated
are on another one; both lists go through the same links. The fields of the nodes are kept apart
from the bytes of the objects.

`VirtualAlloc` is a parameter: it may fail, and what it returns is apart from all nodes and objects
that have been carved.
-/

namespace Obos.Allocators

open Lib

/-- `ObjectTypes`, without `Invalid`, for which nothing is allocated. -/
inductive ObjectType where
  | thread
  | process
  | mutex
  | mountPoint
  | directoryEntry
  | partitionEntry
  | driveEntry
  | inputDevice
  | driverIdentity
  deriving DecidableEq

/-- The types in the order of `g_freeLists`. -/
def ObjectType.all : List ObjectType :=
  [thread, process, mutex, mountPoint, directoryEntry, partitionEntry, driveEntry, inputDevice,
    driverIdentity]

/-- `g_objectTypesToSize`. -/
structure ObjectSizes where
  size : ObjectType → Nat
  size_lt : ∀ t, size t < 2 ^ 32

/-- `sizeof(FreeListNode)`. -/
def nodeSize : Nat := 48

/-- `DEFAULT_OBJECT_COUNT`. -/
def defaultObjectCount : Nat := 32

/-- The two lists of a type. -/
inductive Side where
  | free
  | allocated
  deriving DecidableEq

/-- The ends of a list and its number of nodes: `fhead`, `ftail` and `nFNodes`, or `ahead`, `atail`
and `nANodes`. -/
structure NodeList extends Ends Nat where
  nNodes : Nat

/-- The state of the allocator. -/
structure Slab where
  /-- The fields `next` and `prev` of the nodes. -/
  links : LinkFields Nat
  /-- `g_freeLists`. -/
  lists : ObjectType × Side → NodeList
  /-- The bytes of the objects. -/
  objects : Memory
  /-- `g_slabAllocatorInitialized`. -/
  initialized : Bool
  /-- The nodes that have been carved so far. -/
  nodes : ObjectType → List Nat

/-- The allocator before its first call. -/
def Slab.initial : Slab :=
  ⟨⟨fun _ => 0, fun _ => 0⟩, fun _ => ⟨⟨0, 0⟩, 0⟩, fun _ => 0, false, fun _ => []⟩

namespace Slab

/-- `FreeListNode::Remove`. -/
def remove (s : Slab) (i : ObjectType × Side) (node : Nat) : Slab :=
  let l := (s.links.through (s.lists i).toEnds).unlink 0 node
  { s with
    links := l.links
    lists := Function.update s.lists i ⟨l.ends, ((s.lists i).nNodes + 2 ^ 64 - 1) % 2 ^ 64⟩ }

/-- `FreeListNode::PushBack`. -/
def pushBack (s : Slab) (i : ObjectType × Side) (node : Nat) : Slab :=
  let l := (s.links.through (s.lists i).toEnds).pushBack 0 node
  { s with
    links := l.links
    lists := Function.update s.lists i ⟨l.ends, ((s.lists i).nNodes + 1) % 2 ^ 64⟩ }

/-- A node is made, and appended to the free list. -/
def carve (s : Slab) (t : ObjectType) (node : Nat) : Slab :=
  let s := { s with
    links := ⟨Function.update s.links.next node 0, Function.update s.links.prev node 0⟩
    nodes := Function.update s.nodes t (s.nodes t ++ [node]) }
  s.pushBack (t, .free) node

end Slab

variable (sizes : ObjectSizes)

/-- Pages that hold no node and no object. -/
structure Block (s : Slab) (size : Nat) where
  base : Nat
  base_pos : 0 < base
  fits : base + size ≤ 2 ^ 64
  fresh : ∀ t, ∀ x ∈ s.nodes t, x + nodeSize + sizes.size t ≤ base ∨ base + size ≤ x

/-- `VirtualAlloc`. -/
abbrev PageSupply := (s : Slab) → (size : Nat) → Option (Block sizes s size)

variable (virtualAlloc : PageSupply sizes)

/-- `realSzObject`. -/
def realSzObject (t : ObjectType) (alignment : Nat) : Nat :=
  let realSzObject := sizes.size t + nodeSize
  if alignment = 0 then realSzObject else realSzObject + realSzObject % alignment

/-- `ExpandFreeList`. A block that is not there is written to nevertheless. -/
def expandFreeList (s : Slab) (t : ObjectType) (nObjects alignment : Nat) : Option Slab := do
  let realSzObject := realSzObject sizes t alignment
  let newBlock ← virtualAlloc s (nObjects * realSzObject % 2 ^ 64)
  return (List.range nObjects).foldl
    (fun s i => s.carve t ((newBlock.base + i * realSzObject) % 2 ^ 64)) s

/-- `SlabInitialize`. -/
def slabInitialize (s : Slab) : Option Slab := do
  let s ← ObjectType.all.foldlM (fun s t => expandFreeList sizes virtualAlloc s t
    defaultObjectCount (if t = .thread then 0x10 else 0)) s
  return { s with initialized := true }

/-- The part of `ImplSlabAllocate` that makes sure that there are free nodes. -/
def provideNodes (s : Slab) (t : ObjectType) (nObjects : Nat) : Option Slab := do
  let s ← (if s.initialized then some s else slabInitialize sizes virtualAlloc s)
  let s ← (if (s.lists (t, .free)).head = 0 then
    expandFreeList sizes virtualAlloc s t defaultObjectCount 0 else some s)
  if (s.lists (t, .free)).nNodes < nObjects then expandFreeList sizes virtualAlloc s t nObjects 0
  else some s

/-- The body of the loop of `ImplSlabAllocate`. -/
def Slab.take (s : Slab) (t : ObjectType) (node : Nat) : Slab :=
  (s.remove (t, .free) node).pushBack (t, .allocated) node

/-- `ImplSlabAllocate`: the address it returns, and the state. -/
def implSlabAllocate (s : Slab) (t : ObjectType) (nObjects : Nat) : Option (Nat × Slab) := do
  let s ← provideNodes sizes virtualAlloc s t nObjects
  let node := (s.lists (t, .free)).tail
  if node = 0 ∧ nObjects ≠ 0 then none
  else return (node + nodeSize, (fun s => s.take t node)^[nObjects] s)

/-- The loop of `HasNode`. -/
def hasNodeFrom (s : Slab) (obj : Nat) : Nat → Nat → Option Bool
  | 0, _ => none
  | fuel + 1, node =>
    if node = 0 then some true
    else if node = obj then some true
    else hasNodeFrom s obj fuel (s.links.next node)

/-- `HasNode`. It does not return if the list has no end. -/
def hasNode (s : Slab) (t : ObjectType) (obj : Nat) : Option Bool :=
  hasNodeFrom s obj (2 ^ 64) (s.lists (t, .allocated)).head

/-- The body of the second loop of `ImplSlabFree`. -/
def Slab.giveBack (s : Slab) (t : ObjectType) (node : Nat) : Slab :=
  let s := (s.remove (t, .allocated) node).pushBack (t, .free) node
  { s with objects := s.objects.fill (node + nodeSize) (sizes.size t) 0 }

/-- `ImplSlabFree`. -/
def implSlabFree (s : Slab) (t : ObjectType) (obj nObjects : Nat) : Option Slab :=
  if s.initialized then do
    let obj := (obj + 2 ^ 64 - nodeSize) % 2 ^ 64
    let node := fun i => (obj + i * (sizes.size t + nodeSize)) % 2 ^ 64
    if ← (List.range nObjects).allM fun i => hasNode s t (node i) then
      return (List.range nObjects).foldl (fun s i => s.giveBack sizes t (node i)) s
    else return s
  else some s

end Obos.Allocators
