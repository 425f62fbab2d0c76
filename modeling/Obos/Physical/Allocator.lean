import Obos.Lib.DList
import Obos.Lib.Memory

/-!
# The physical page allocator

Free physical memory is a doubly linked list of nodes that live in the first
bytes of the free ranges themselves: the words at offsets 0, 8 and 16 of a range
are the `next` and `prev` pointers and the number of pages of the range.
`allocatePhysicalPage` cuts pages off the end of a range,
`freePhysicalPage` appends a range, and `InitializePhysicalMemoryManager` builds
the list from the usable entries of the boot loader's memory map.

The functions are modelled on the bytes of physical memory. `FreeList s xs` says
that the list consists of the nodes `xs`; the specifications of the operations
say what they do to `xs` and to the pages the nodes stand for, and which bytes
they write.
-/

namespace Obos.Physical

open Lib List Memory Option
open DList (pred pushBack succ unlink)

/-! ## The program -/

/-- The allocator's variables, with physical memory and the interrupt flag of the CPU. -/
structure Pmm where
  mem : Memory
  memoryHead : Nat
  memoryTail : Nat
  nMemoryNodes : Nat
  locked : Bool
  interruptFlag : Bool

/-- `MemoryNode::next` of the node at a physical address. -/
def nextOf (m : Memory) (node : Nat) : Nat := m.loadNat node

/-- `MemoryNode::prev` of the node at a physical address. -/
def prevOf (m : Memory) (node : Nat) : Nat := m.loadNat (node + 8)

/-- `MemoryNode::nPages` of the node at a physical address. -/
def nPagesOf (m : Memory) (node : Nat) : Nat := m.loadNat (node + 16)

/-- An entry of the boot loader's memory map. -/
structure MemmapEntry where
  base : Nat
  length : Nat
  usable : Bool

/-- The physical address of the node initialisation makes of an entry. -/
def MemmapEntry.nodeBase (e : MemmapEntry) : Nat :=
  let base := if e.base < 0x1000 then 0x1000 else e.base
  if base % 0x1000 ≠ 0 then (base + 0xfff) % 2 ^ 64 % 0x1000 else base

/-- The number of pages initialisation gives the node of an entry. -/
def MemmapEntry.nodePages (e : MemmapEntry) : Nat := (e.length - e.length % 0x1000) / 0x1000

namespace Pmm

/-- The body of the loop of `InitializePhysicalMemoryManager`. -/
def addEntry (s : Pmm) (e : MemmapEntry) : Pmm :=
  if e.usable then
    let node := e.nodeBase
    let mem := if s.memoryTail ≠ 0 then s.mem.storeNat s.memoryTail node else s.mem
    { s with
      mem := ((mem.storeNat (node + 8) s.memoryTail).storeNat node 0).storeNat (node + 16)
        e.nodePages
      memoryHead := if s.memoryHead = 0 then node else s.memoryHead
      memoryTail := node
      nMemoryNodes := s.nMemoryNodes + 1 }
  else s

/-- `InitializePhysicalMemoryManager`, on memory with any contents. -/
def initializePhysicalMemoryManager (mem : Memory) (map : List MemmapEntry) : Pmm :=
  map.foldl addEntry ⟨mem, 0, 0, 0, false, true⟩

/-- The loop of `allocatePhysicalPage`: the first node from `node` on that has enough pages. -/
def findNode (m : Memory) (nPages : Nat) : Nat → Nat → Option (Option Nat)
  | 0, _ => none
  | fuel + 1, node =>
    if nPagesOf m node < nPages then
      if nextOf m node = 0 then some none else findNode m nPages fuel (nextOf m node)
    else some (some node)

/-- Take a node out of the list and clear its links. -/
def unlinkNode (s : Pmm) (node : Nat) : Pmm :=
  let next := nextOf s.mem node
  let prev := prevOf s.mem node
  let mem := if next ≠ 0 then s.mem.storeNat (next + 8) prev else s.mem
  let mem := if prev ≠ 0 then mem.storeNat prev next else mem
  { s with
    mem := (mem.storeNat node 0).storeNat (node + 8) 0
    memoryHead := if s.memoryHead = node then next else s.memoryHead
    memoryTail := if s.memoryTail = node then prev else s.memoryTail }

/-- Write the number of pages of a node. -/
def setNPages (s : Pmm) (node nPages : Nat) : Pmm :=
  { s with mem := s.mem.storeNat (node + 16) nPages }

/-- `allocatePhysicalPage`: the address returned and the state after the call. It does not return
where it panics, where the lock is held, and where the walk is not over when the fuel is. A
request that no node can satisfy returns 0 with the lock still held and interrupts disabled. -/
def allocatePhysicalPage (fuel : Nat) (s : Pmm) (nPages : Nat) : Option (Nat × Pmm) :=
  if s.nMemoryNodes = 0 ∨ s.locked = true then none
  else (findNode s.mem nPages fuel s.memoryHead).map fun
    | none => (0, { s with locked := true, interruptFlag := false })
    | some node =>
      let left := nPagesOf s.mem node - nPages
      let taken := s.setNPages node left
      let taken := if left = 0 then taken.unlinkNode node else taken
      -- the address is counted from the head of the list, not from the node
      ((s.memoryHead + nPagesOf taken.mem node * 4096) % 2 ^ 64, taken)

/-- Make a node of the range and append it; the `next` field of the node is not written. -/
def appendNode (s : Pmm) (addr nPages : Nat) : Pmm :=
  let mem := if s.memoryTail ≠ 0 then s.mem.storeNat s.memoryTail addr else s.mem
  { s with
    mem := (mem.storeNat (addr + 8) s.memoryTail).storeNat (addr + 16) nPages
    memoryHead := if s.memoryHead = 0 then addr else s.memoryHead
    memoryTail := addr
    nMemoryNodes := s.nMemoryNodes + 1 }

/-- `freePhysicalPage`, which does not return where the lock is held. -/
def freePhysicalPage (s : Pmm) (addr nPages : Nat) : Option Pmm :=
  if s.locked then none else some (s.appendNode addr nPages)

/-- The links of the free list. -/
def list (s : Pmm) : DList Nat := ⟨nextOf s.mem, prevOf s.mem, s.memoryHead, s.memoryTail⟩

end Pmm

/-! ## The free list -/

/-- The free list of the allocator consists of the nodes `xs`: page-aligned, none of them at
address 0, each with at least one page and within the address space. -/
structure FreeList (s : Pmm) (xs : List Nat) : Prop where
  list : s.list.IsList 0 xs
  aligned : ∀ x ∈ xs, x % 4096 = 0
  pos : ∀ x ∈ xs, 1 ≤ nPagesOf s.mem x
  bound : ∀ x ∈ xs, x + 4096 * nPagesOf s.mem x ≤ 2 ^ 64

/-- The two memories differ in the headers of the given nodes only. -/
def HeadersOnly (m m' : Memory) (xs : List Nat) : Prop :=
  ∀ b, (∀ x ∈ xs, b < x ∨ x + 24 ≤ b) → m' b = m b

namespace FreeList

variable {s s' : Pmm} {xs as bs : List Nat} {node : Nat}

theorem tail_aligned (h : FreeList s xs) : s.memoryTail % 4096 = 0 := by
  by_cases ht : s.memoryTail = 0
  · simp [ht]
  · exact h.aligned _ (h.list.tail_mem ht)

/-- The tail is an address. -/
theorem tail_lt (h : FreeList s xs) : s.memoryTail < 2 ^ 64 := by
  by_cases ht : s.memoryTail = 0
  · simp [ht]
  · have hmem := h.list.tail_mem ht
    have hpos := h.pos _ hmem
    have hbound := h.bound _ hmem
    change s.memoryTail + 4096 * nPagesOf s.mem s.memoryTail ≤ 2 ^ 64 at hbound
    change 1 ≤ nPagesOf s.mem s.memoryTail at hpos
    omega

/-- A free list only depends on the ends and on the headers of its nodes. -/
theorem congr (h : FreeList s xs) (hhead : s'.memoryHead = s.memoryHead)
    (htail : s'.memoryTail = s.memoryTail)
    (hmem : ∀ x ∈ xs, Memory.SameOn s.mem s'.mem x (x + 24)) : FreeList s' xs := by
  have hpages : ∀ x ∈ xs, nPagesOf s'.mem x = nPagesOf s.mem x := fun x hx =>
    loadNat_congr ((hmem x hx).mono (by omega) (by omega))
  refine ⟨h.list.congr hhead htail (fun x hx => ?_) (fun x hx => ?_), h.aligned, ?_, ?_⟩
  · exact loadNat_congr ((hmem x hx).mono (by omega) (by omega))
  · exact loadNat_congr ((hmem x hx).mono (by omega) (by omega))
  · intro x hx
    rw [hpages x hx]
    exact h.pos x hx
  · intro x hx
    rw [hpages x hx]
    exact h.bound x hx

/-! ### Appending a node -/

section Append

variable {a n : Nat}

theorem mem_appendNode : (s.appendNode a n).mem =
    ((if s.memoryTail ≠ 0 then s.mem.storeNat s.memoryTail a else s.mem).storeNat (a + 8)
      s.memoryTail).storeNat (a + 16) n := rfl

variable {x : Nat}

/-- The `next` fields after a node was appended. -/
theorem nextOf_appendNode (h : FreeList s xs) (ha : a % 4096 = 0) (hlt : a < 2 ^ 64)
    (hx : x % 4096 = 0) : nextOf (s.appendNode a n).mem x = (s.list.pushBack 0 a).next x := by
  have htail := h.tail_aligned
  rw [nextOf, mem_appendNode, loadNat_storeNat_other (by omega),
    loadNat_storeNat_other (by omega)]
  by_cases ht : s.memoryTail = 0
  · simp [pushBack, Pmm.list, ht, nextOf]
  · rw [if_pos ht]
    by_cases hxt : x = s.memoryTail
    · subst hxt
      rw [loadNat_storeNat_same hlt]
      simp [pushBack, Pmm.list, ht]
    · rw [loadNat_storeNat_other (by omega)]
      simp [pushBack, Pmm.list, ht, hxt, nextOf]

/-- The `prev` fields after a node was appended. -/
theorem prevOf_appendNode (h : FreeList s xs) (ha : a % 4096 = 0) (hx : x % 4096 = 0) :
    prevOf (s.appendNode a n).mem x = (s.list.pushBack 0 a).prev x := by
  have htail := h.tail_aligned
  rw [prevOf, mem_appendNode, loadNat_storeNat_other (by omega)]
  by_cases hxa : x = a
  · subst hxa
    rw [loadNat_storeNat_same h.tail_lt]
    simp [pushBack, Pmm.list]
  · rw [loadNat_storeNat_other (by omega), loadNat_ite_storeNat (by omega)]
    simp [pushBack, Pmm.list, hxa, prevOf]

/-- Appending a node does not change the number of pages of the others. -/
theorem nPagesOf_appendNode (h : FreeList s xs) (ha : a % 4096 = 0) (hx : x % 4096 = 0)
    (hne : x ≠ a) : nPagesOf (s.appendNode a n).mem x = nPagesOf s.mem x := by
  have htail := h.tail_aligned
  rw [nPagesOf, mem_appendNode, loadNat_storeNat_other (by omega),
    loadNat_storeNat_other (by omega), loadNat_ite_storeNat (by omega), nPagesOf]

theorem nPagesOf_appendNode_self (hn : n < 2 ^ 64) : nPagesOf (s.appendNode a n).mem a = n :=
  loadNat_storeNat_same hn

/-- Appending a node writes the headers of the tail and of the node only. -/
theorem headersOnly_appendNode (h : FreeList s xs) :
    HeadersOnly s.mem (s.appendNode a n).mem (a :: xs) := by
  intro b hb
  have hba := hb a mem_cons_self
  rw [mem_appendNode, storeNat_outside (by omega), storeNat_outside (by omega)]
  by_cases ht : s.memoryTail = 0
  · simp [ht]
  · have hbt : b < s.memoryTail ∨ s.memoryTail + 24 ≤ b :=
      hb _ (mem_cons_of_mem a (h.list.tail_mem ht))
    rw [if_pos ht, storeNat_outside (by omega)]

/-- Appending the node of a range whose first word is zero puts it at the end of the list. -/
theorem appendNode (h : FreeList s xs) (ha : a % 4096 = 0) (hzero : a ≠ 0) (hmem : a ∉ xs)
    (hnext : nextOf s.mem a = 0) (hn : 1 ≤ n) (hbound : a + 4096 * n ≤ 2 ^ 64) :
    FreeList (s.appendNode a n) (xs ++ [a]) := by
  have hlt : a < 2 ^ 64 := by omega
  have hsnoc {P : Nat → Prop} (hold : ∀ x ∈ xs, P x) (hnew : P a) : ∀ x ∈ xs ++ [a], P x :=
    forall_mem_append.2 ⟨hold, forall_mem_singleton.2 hnew⟩
  have haligned := hsnoc h.aligned ha
  have hpages : ∀ x ∈ xs, nPagesOf (s.appendNode a n).mem x = nPagesOf s.mem x := fun x hx =>
    h.nPagesOf_appendNode ha (h.aligned x hx) fun he => hmem (he ▸ hx)
  refine ⟨?_, haligned, ?_, ?_⟩
  · refine (h.list.pushBack hzero hmem hnext).congr rfl rfl (fun x hx => ?_) (fun x hx => ?_)
    · exact h.nextOf_appendNode ha hlt (haligned x hx)
    · exact h.prevOf_appendNode ha (haligned x hx)
  · refine hsnoc (fun x hx => ?_) ?_
    · rw [hpages x hx]
      exact h.pos x hx
    · rwa [nPagesOf_appendNode_self (by omega)]
  · refine hsnoc (fun x hx => ?_) ?_
    · rw [hpages x hx]
      exact h.bound x hx
    · rwa [nPagesOf_appendNode_self (by omega)]

end Append

end FreeList

/-! ### Taking a node out -/

section Unlink

variable {s : Pmm} {as bs : List Nat} {node x : Nat}

theorem nextOf_lt (m : Memory) (node : Nat) : nextOf m node < 2 ^ 64 := loadNat_lt _ _

theorem prevOf_lt (m : Memory) (node : Nat) : prevOf m node < 2 ^ 64 := loadNat_lt _ _

variable (hl : s.list.IsList 0 (as ++ node :: bs))
include hl

/-- The neighbours of a node are nodes of the list or null. -/
theorem neighbours_mem : (prevOf s.mem node = 0 ∨ prevOf s.mem node ∈ as) ∧
      (nextOf s.mem node = 0 ∨ nextOf s.mem node ∈ bs) := by
  obtain ⟨hprev, hnext⟩ := hl.neighbours
  change prevOf s.mem node = _ at hprev
  change nextOf s.mem node = _ at hnext
  constructor
  · rw [hprev]
    exact mem_cons.1 (getLast_mem _)
  · rw [hnext]
    exact (mem_append.1 (head_mem _)).symm.imp_left mem_singleton.1

variable (haligned : ∀ x ∈ as ++ node :: bs, x % 4096 = 0)
include haligned

/-- The neighbours of a node of an aligned list are aligned. -/
theorem neighbours_aligned : prevOf s.mem node % 4096 = 0 ∧ nextOf s.mem node % 4096 = 0 := by
  obtain ⟨hprev, hnext⟩ := neighbours_mem hl
  constructor
  · rcases hprev with hp | hp
    · simp [hp]
    · exact haligned _ (mem_append_left _ hp)
  · rcases hnext with hn | hn
    · simp [hn]
    · exact haligned _ (mem_append_right _ (mem_cons_of_mem node hn))

omit hl in
omit haligned in
/-- The memory after a node was taken out. -/
theorem mem_unlinkNode : (s.unlinkNode node).mem =
    ((if prevOf s.mem node ≠ 0 then
        (if nextOf s.mem node ≠ 0 then
          s.mem.storeNat (nextOf s.mem node + 8) (prevOf s.mem node) else s.mem).storeNat
          (prevOf s.mem node) (nextOf s.mem node)
      else if nextOf s.mem node ≠ 0 then
        s.mem.storeNat (nextOf s.mem node + 8) (prevOf s.mem node) else s.mem).storeNat
      node 0).storeNat (node + 8) 0 := rfl

/-- The `next` fields of the other nodes after a node was taken out. -/
theorem nextOf_unlinkNode (hx : x % 4096 = 0) (hne : x ≠ node) :
    nextOf (s.unlinkNode node).mem x = (s.list.unlink 0 node).next x := by
  have hnode := haligned node (by simp)
  obtain ⟨hprev, hnext⟩ := neighbours_aligned hl haligned
  rw [nextOf, mem_unlinkNode, loadNat_storeNat_other (by omega),
    loadNat_storeNat_other (by omega)]
  by_cases hxp : prevOf s.mem node ≠ 0 ∧ x = prevOf s.mem node
  · obtain ⟨hp, rfl⟩ := hxp
    rw [if_pos hp, loadNat_storeNat_same (nextOf_lt _ _)]
    simp [unlink, Pmm.list, hp]
  · -- the write to the `prev` field of the right neighbour does not reach a `next` field
    rw [loadNat_ite_storeNat (by omega), loadNat_ite_storeNat (by omega)]
    by_cases hp : prevOf s.mem node = 0
    · simp [unlink, Pmm.list, hp, nextOf]
    · have hx : x ≠ prevOf s.mem node := fun h => hxp ⟨hp, h⟩
      simp [unlink, Pmm.list, hp, hx, nextOf]

/-- The `prev` fields of the other nodes after a node was taken out. -/
theorem prevOf_unlinkNode (hx : x % 4096 = 0) (hne : x ≠ node) :
    prevOf (s.unlinkNode node).mem x = (s.list.unlink 0 node).prev x := by
  have hnode := haligned node (by simp)
  obtain ⟨hprev, hnext⟩ := neighbours_aligned hl haligned
  rw [prevOf, mem_unlinkNode, loadNat_storeNat_other (by omega),
    loadNat_storeNat_other (by omega), loadNat_ite_storeNat (by omega)]
  by_cases hxn : nextOf s.mem node ≠ 0 ∧ x = nextOf s.mem node
  · obtain ⟨hn, rfl⟩ := hxn
    rw [if_pos hn, loadNat_storeNat_same (prevOf_lt _ _)]
    simp [unlink, Pmm.list, hn]
  · rw [loadNat_ite_storeNat (by omega)]
    by_cases hn : nextOf s.mem node = 0
    · simp [unlink, Pmm.list, hn, prevOf]
    · have hx : x ≠ nextOf s.mem node := fun h => hxn ⟨hn, h⟩
      simp [unlink, Pmm.list, hn, hx, prevOf]

theorem nPagesOf_unlinkNode (hx : x % 4096 = 0) :
    nPagesOf (s.unlinkNode node).mem x = nPagesOf s.mem x := by
  have hnode := haligned node (by simp)
  obtain ⟨hprev, hnext⟩ := neighbours_aligned hl haligned
  rw [nPagesOf, mem_unlinkNode, loadNat_storeNat_other (by omega),
    loadNat_storeNat_other (by omega), loadNat_ite_storeNat (by omega),
    loadNat_ite_storeNat (by omega), nPagesOf]

omit haligned in
/-- Taking a node out writes its own header and those of its neighbours only. -/
theorem headersOnly_unlinkNode : HeadersOnly s.mem (s.unlinkNode node).mem (as ++ node :: bs) := by
  intro b hb
  obtain ⟨hprev, hnext⟩ := neighbours_mem hl
  have hbn := hb node (by simp)
  rw [mem_unlinkNode, storeNat_outside (by omega), storeNat_outside (by omega)]
  have hright : (if nextOf s.mem node ≠ 0 then
      s.mem.storeNat (nextOf s.mem node + 8) (prevOf s.mem node) else s.mem) b = s.mem b := by
    split
    · rename_i hn
      have hbnext := hb _ (mem_append_right _ (mem_cons_of_mem node
        (hnext.resolve_left hn)))
      exact storeNat_outside (by omega)
    · rfl
  split
  · rename_i hp
    have hbprev := hb _ (mem_append_left _ (hprev.resolve_left hp))
    rw [storeNat_outside (by omega), hright]
  · exact hright

/-- Taking a node out of the list removes it there. -/
theorem isList_unlinkNode : (s.unlinkNode node).list.IsList 0 (as ++ bs) := by
  have hmem : ∀ x ∈ as ++ bs, x % 4096 = 0 ∧ x ≠ node := by
    intro x hx
    refine ⟨haligned x (perm_middle.mem_iff.2 (mem_cons_of_mem node hx)), ?_⟩
    rintro rfl
    have hnodup : (x :: (as ++ bs)).Nodup := perm_middle.nodup_iff.1 hl.nodup
    exact (nodup_cons.1 hnodup).1 hx
  refine hl.unlink.congr rfl rfl (fun x hx => ?_) (fun x hx => ?_)
  · exact nextOf_unlinkNode hl haligned (hmem x hx).1 (hmem x hx).2
  · exact prevOf_unlinkNode hl haligned (hmem x hx).1 (hmem x hx).2

end Unlink

/-! ### Cutting pages off a node -/

/-- The page frames of a range of pages. -/
def pages (base nPages : Nat) : List Nat := List.range' (base / 4096) nPages

/-- The page frames on the free list. -/
def freePages (s : Pmm) (xs : List Nat) : List Nat :=
  xs.flatMap fun x => pages x (nPagesOf s.mem x)

variable {n : Nat} {s : Pmm} {node fuel : Nat} {rest : List Nat}

theorem pages_split (base : Nat) {k : Nat} (hn : n ≤ k) :
    pages base (k - n) ++ pages (base + (k - n) * 4096) n = pages base k := by
  unfold pages
  rw [Nat.add_mul_div_right _ _ (by decide), range'_append_1, Nat.sub_add_cancel hn]

theorem mem_pages {base p : Nat} :
    p ∈ pages base n ↔ base / 4096 ≤ p ∧ p < base / 4096 + n := mem_range'_1

theorem freePages_congr {s' : Pmm} {xs : List Nat}
    (h : ∀ x ∈ xs, nPagesOf s'.mem x = nPagesOf s.mem x) : freePages s' xs = freePages s xs :=
  flatMap_congr fun x hx => by rw [h x hx]

section SetNPages

variable {s : Pmm} {xs : List Nat} {node n x : Nat}

theorem isList_setNPages (hl : s.list.IsList 0 xs) (haligned : ∀ x ∈ xs, x % 4096 = 0)
    (hnode : node % 4096 = 0) : (s.setNPages node n).list.IsList 0 xs := by
  refine hl.congr rfl rfl (fun x hx => ?_) (fun x hx => ?_)
  · have := haligned x hx
    exact loadNat_storeNat_other (by omega)
  · have := haligned x hx
    exact loadNat_storeNat_other (by omega)

theorem nPagesOf_setNPages_other (hnode : node % 4096 = 0) (hx : x % 4096 = 0) (hne : x ≠ node) :
    nPagesOf (s.setNPages node n).mem x = nPagesOf s.mem x :=
  loadNat_storeNat_other (by omega)

theorem nPagesOf_setNPages_self (hn : n < 2 ^ 64) :
    nPagesOf (s.setNPages node n).mem node = n := loadNat_storeNat_same hn

theorem headersOnly_setNPages (hmem : node ∈ xs) :
    HeadersOnly s.mem (s.setNPages node n).mem xs := by
  intro b hb
  have := hb node hmem
  exact storeNat_outside (by omega)

end SetNPages

/-- What an allocation from the first node does: it returns the last pages of that node, takes
their frames off the list, and writes headers of the list only. -/
structure Allocated (s : Pmm) (xs : List Nat) (ret n : Nat) (s' : Pmm) (xs' : List Nat) : Prop where
  freeList : FreeList s' xs'
  perm : (freePages s' xs' ++ pages ret n).Perm (freePages s xs)
  subset : xs' ⊆ xs
  le : ∀ x ∈ xs', nPagesOf s'.mem x ≤ nPagesOf s.mem x
  headers : HeadersOnly s.mem s'.mem xs
  locked : s'.locked = s.locked
  nMemoryNodes : s'.nMemoryNodes = s.nMemoryNodes

/-- Cutting some of the pages off the first node. -/
theorem FreeList.cut (h : FreeList s (node :: rest)) (hn : n < nPagesOf s.mem node) :
    Allocated s (node :: rest) (node + (nPagesOf s.mem node - n) * 4096) n
      (s.setNPages node (nPagesOf s.mem node - n)) (node :: rest) := by
  have hnode := h.aligned node mem_cons_self
  have hlt : nPagesOf s.mem node < 2 ^ 64 := loadNat_lt _ _
  have hself : nPagesOf (s.setNPages node (nPagesOf s.mem node - n)).mem node =
      nPagesOf s.mem node - n := nPagesOf_setNPages_self (by omega)
  have hother : ∀ x ∈ rest,
      nPagesOf (s.setNPages node (nPagesOf s.mem node - n)).mem x = nPagesOf s.mem x := by
    intro x hx
    refine nPagesOf_setNPages_other hnode (h.aligned x (mem_cons_of_mem node hx)) ?_
    rintro rfl
    exact (nodup_cons.1 h.list.nodup).1 hx
  refine ⟨⟨isList_setNPages h.list h.aligned hnode, h.aligned, ?_, ?_⟩, ?_, fun _ hx => hx,
    ?_, headersOnly_setNPages mem_cons_self, rfl, rfl⟩
  · intro x hx
    rcases mem_cons.1 hx with rfl | hx'
    · omega
    · rw [hother x hx']
      exact h.pos x hx
  · intro x hx
    rcases mem_cons.1 hx with rfl | hx'
    · have := h.bound x hx
      omega
    · rw [hother x hx']
      exact h.bound x hx
  · have hrest := freePages_congr hother
    unfold freePages at hrest ⊢
    rw [flatMap_cons, flatMap_cons, hself, hrest,
      ← pages_split node (Nat.le_of_lt hn), append_assoc, append_assoc]
    exact perm_append_comm.append_left _
  · intro x hx
    rcases mem_cons.1 hx with rfl | hx'
    · omega
    · rw [hother x hx']

/-- Taking all pages of the first node. -/
theorem FreeList.take (h : FreeList s (node :: rest)) :
    Allocated s (node :: rest) node (nPagesOf s.mem node)
      ((s.setNPages node 0).unlinkNode node) rest := by
  have hnode := h.aligned node mem_cons_self
  have hl : (s.setNPages node 0).list.IsList 0 ([] ++ node :: rest) :=
    isList_setNPages h.list h.aligned hnode
  have haligned : ∀ x ∈ rest, x % 4096 = 0 := fun x hx =>
    h.aligned x (mem_cons_of_mem node hx)
  have hother : ∀ x ∈ rest,
      nPagesOf ((s.setNPages node 0).unlinkNode node).mem x = nPagesOf s.mem x := by
    intro x hx
    rw [nPagesOf_unlinkNode hl h.aligned (haligned x hx)]
    refine nPagesOf_setNPages_other hnode (haligned x hx) ?_
    rintro rfl
    exact (nodup_cons.1 h.list.nodup).1 hx
  refine ⟨⟨isList_unlinkNode hl h.aligned, haligned, ?_, ?_⟩, ?_,
    subset_cons_of_subset node (List.Subset.refl rest), fun x hx => (hother x hx).le,
    ?_, rfl, rfl⟩
  · intro x hx
    rw [hother x hx]
    exact h.pos x (mem_cons_of_mem node hx)
  · intro x hx
    rw [hother x hx]
    exact h.bound x (mem_cons_of_mem node hx)
  · rw [freePages_congr hother]
    exact perm_append_comm
  · intro b hb
    rw [headersOnly_unlinkNode hl b hb]
    exact headersOnly_setNPages mem_cons_self b hb

/-- `allocatePhysicalPage` on a list whose first node is large enough. -/
theorem FreeList.allocatePhysicalPage (h : FreeList s (node :: rest)) (hlock : s.locked = false)
    (hnodes : s.nMemoryNodes ≠ 0) (hn : 1 ≤ n) (hlarge : n ≤ nPagesOf s.mem node)
    (hfuel : 0 < fuel) :
    ∃ s' xs', s.allocatePhysicalPage fuel n =
        some (node + (nPagesOf s.mem node - n) * 4096, s') ∧
      (xs' = if n = nPagesOf s.mem node then rest else node :: rest) ∧
      Allocated s (node :: rest) (node + (nPagesOf s.mem node - n) * 4096) n s' xs' := by
  have hnode := h.aligned node mem_cons_self
  have hbound := h.bound node mem_cons_self
  have hhead : s.memoryHead = node := h.list.head_eq
  have hmod : (node + (nPagesOf s.mem node - n) * 4096) % 2 ^ 64 =
      node + (nPagesOf s.mem node - n) * 4096 := Nat.mod_eq_of_lt (by omega)
  obtain ⟨fuel, rfl⟩ := Nat.exists_eq_add_of_lt hfuel
  have hfind : Pmm.findNode s.mem n (0 + fuel + 1) s.memoryHead = some (some node) := by
    rw [hhead, Pmm.findNode, if_neg (by omega)]
  unfold Pmm.allocatePhysicalPage
  rw [if_neg (by simp [hlock, hnodes]), hfind, map_some, hhead]
  dsimp only
  by_cases hleft : nPagesOf s.mem node - n = 0
  · have htake := h.take
    have hall : n = nPagesOf s.mem node := by omega
    have hzero : nPagesOf ((s.setNPages node 0).unlinkNode node).mem node = 0 := by
      have hl : (s.setNPages node 0).list.IsList 0 ([] ++ node :: rest) :=
        isList_setNPages h.list h.aligned hnode
      rw [nPagesOf_unlinkNode hl h.aligned hnode, nPagesOf_setNPages_self (by decide)]
    refine ⟨(s.setNPages node 0).unlinkNode node, rest, ?_, (if_pos hall).symm, ?_⟩
    · rw [if_pos hleft, hleft, hzero, ← hleft, hmod]
    · rw [hleft, Nat.add_zero, hall]
      exact htake
  · have hself : nPagesOf (s.setNPages node (nPagesOf s.mem node - n)).mem node =
        nPagesOf s.mem node - n := nPagesOf_setNPages_self (by omega)
    refine ⟨s.setNPages node (nPagesOf s.mem node - n), node :: rest, ?_,
      (if_neg (by omega)).symm, h.cut (by omega)⟩
    rw [if_neg hleft, hself, hmod]

/-- A call of `allocatePhysicalPage` that returns found the lock free. -/
theorem allocatePhysicalPage_returns {r : Nat × Pmm} (h : s.allocatePhysicalPage fuel n = some r) :
    s.locked = false ∧ s.nMemoryNodes ≠ 0 ∧ 0 < fuel := by
  unfold Pmm.allocatePhysicalPage at h
  split at h
  · cases h
  · rename_i hfree
    simp only [not_or, Bool.not_eq_true] at hfree
    refine ⟨hfree.2, hfree.1, Nat.pos_of_ne_zero ?_⟩
    rintro rfl
    cases h

/-- The nodes the loop of `allocatePhysicalPage` looks at while none is large enough. -/
inductive Scanned (s : Pmm) : Nat → Prop where
  | head : Scanned s s.memoryHead
  | next {node : Nat} : Scanned s node → nextOf s.mem node ≠ 0 → Scanned s (nextOf s.mem node)

/-- A walk over nodes that are too small does not end at a node. -/
theorem findNode_small {m : Memory} {P : Nat → Prop}
    (hnext : ∀ node, P node → nextOf m node ≠ 0 → P (nextOf m node))
    (hsmall : ∀ node, P node → nPagesOf m node < n) (hnode : P node) {found : Option Nat}
    (h : Pmm.findNode m n fuel node = some found) : found = none := by
  induction fuel generalizing node with
  | zero => cases h
  | succ fuel ih =>
    rw [Pmm.findNode, if_pos (hsmall node hnode)] at h
    split at h
    · cases h
      rfl
    · rename_i hzero
      exact ih (hnext node hnode hzero) h

/-- A request that is larger than every node scanned returns 0 and keeps the lock. -/
theorem allocatePhysicalPage_small {s' : Pmm} {ret : Nat}
    (hsmall : ∀ node, Scanned s node → nPagesOf s.mem node < n)
    (h : s.allocatePhysicalPage fuel n = some (ret, s')) :
    ret = 0 ∧ s' = { s with locked := true, interruptFlag := false } := by
  unfold Pmm.allocatePhysicalPage at h
  split at h
  · cases h
  · rw [map_eq_some_iff] at h
    obtain ⟨found, hfind, hresult⟩ := h
    have hnone := findNode_small (fun _ => Scanned.next) hsmall Scanned.head hfind
    subst hnone
    cases hresult
    exact ⟨rfl, rfl⟩

/-! ## A request that fails -/

/-- The free list with the sizes of its nodes, the lock and the interrupt flag are as they were. -/
structure Unchanged (s s' : Pmm) (xs : List Nat) : Prop where
  freeList : FreeList s' xs
  nPages : ∀ x ∈ xs, nPagesOf s'.mem x = nPagesOf s.mem x
  nodes : s'.nMemoryNodes = s.nMemoryNodes
  locked : s'.locked = s.locked
  interruptFlag : s'.interruptFlag = s.interruptFlag

/-- A walk over the end of a list whose nodes are all too small. -/
theorem FreeList.findNode_small {s : Pmm} {as bs : List Nat} {node n fuel : Nat}
    (h : FreeList s (as ++ node :: bs)) (hsmall : ∀ x ∈ node :: bs, nPagesOf s.mem x < n)
    (hfuel : bs.length < fuel) : Pmm.findNode s.mem n fuel node = some none := by
  induction bs generalizing as node fuel with
  | nil =>
    obtain ⟨k, rfl⟩ := Nat.exists_eq_succ_of_ne_zero (Nat.ne_of_gt hfuel)
    have hnext : nextOf s.mem node = 0 := h.list.neighbours.2
    rw [Pmm.findNode, if_pos (hsmall node mem_cons_self), if_pos hnext]
  | cons x bs ih =>
    obtain ⟨k, rfl⟩ := Nat.exists_eq_succ_of_ne_zero (Nat.ne_of_gt (Nat.zero_lt_of_lt hfuel))
    have hnext : nextOf s.mem node = x := h.list.neighbours.2
    have hx : x ≠ 0 := fun h0 => h.list.null_notMem (by simp [h0])
    rw [Pmm.findNode, if_pos (hsmall node mem_cons_self), hnext, if_neg hx]
    exact @ih (as ++ [node]) x k (by simpa using h)
      (fun y hy => hsmall y (mem_cons_of_mem node hy)) (by simpa using hfuel)

/-- A request larger than every node returns 0, and never leaves everything as it was: the lock is
held, and interrupts are disabled. An empty list is read as a node at physical page 0. -/
theorem allocatePhysicalPage_failed_changes {s : Pmm} {xs : List Nat} {n fuel : Nat}
    (h : FreeList s xs) (hsmall : ∀ x ∈ xs, nPagesOf s.mem x < n)
    (hempty : xs = [] → nPagesOf s.mem 0 < n ∧ nextOf s.mem 0 = 0) (hlock : s.locked = false)
    (hnodes : s.nMemoryNodes ≠ 0) (hfuel : xs.length < fuel) :
    ∃ s', s.allocatePhysicalPage fuel n = some (0, s') ∧ ¬ Unchanged s s' xs := by
  have hfind : Pmm.findNode s.mem n fuel s.memoryHead = some none := by
    cases xs with
    | nil =>
      obtain ⟨k, rfl⟩ := Nat.exists_eq_succ_of_ne_zero (Nat.ne_of_gt hfuel)
      obtain ⟨hpages, hnext⟩ := hempty rfl
      have hhead : s.memoryHead = 0 := h.list.head_eq
      rw [hhead, Pmm.findNode, if_pos hpages, if_pos hnext]
    | cons node rest =>
      have hhead : s.memoryHead = node := h.list.head_eq
      rw [hhead]
      exact @FreeList.findNode_small s [] rest node n fuel h hsmall (by
        rw [length_cons] at hfuel
        omega)
  refine ⟨{ s with locked := true, interruptFlag := false }, ?_, fun hsame => ?_⟩
  · rw [Pmm.allocatePhysicalPage, if_neg (by simp [hlock, hnodes]), hfind]
    rfl
  · have hlocked : true = s.locked := hsame.locked
    rw [hlock] at hlocked
    cases hlocked

/-- A node of one page at `0x1000`. -/
def oneNode : Pmm := ⟨Memory.storeNat (fun _ => 0) 0x1010 1, 0x1000, 0x1000, 1, false, true⟩

/-- The node is the free list. -/
theorem freeList_oneNode : FreeList oneNode [0x1000] := by
  have hpages : nPagesOf oneNode.mem 0x1000 = 1 := by decide
  have hnext : nextOf oneNode.mem 0x1000 = 0 := by decide
  have hprev : prevOf oneNode.mem 0x1000 = 0 := by decide
  refine ⟨⟨?_, by simp, by simp⟩, by simp, ?_, ?_⟩
  · simp [DList.Adjacent, succ, pred, Pmm.list, oneNode] at hnext hprev ⊢
    exact ⟨hnext, hprev⟩
  · simp [hpages]
  · simp [hpages]

/-- Two pages are asked for and there is one. -/
theorem allocatePhysicalPage_failed_changes_oneNode :
    ∃ s', oneNode.allocatePhysicalPage 2 2 = some (0, s') ∧ ¬ Unchanged oneNode s' [0x1000] :=
  allocatePhysicalPage_failed_changes freeList_oneNode (by decide) (by decide) rfl (by decide)
    (by decide)

/-- After a failed request the lock is held, and a request for one page does not return. -/
theorem allocatePhysicalPage_after_failure :
    ∃ s', oneNode.allocatePhysicalPage 2 2 = some (0, s') ∧ s'.locked = true ∧
      s'.interruptFlag = false ∧ ∀ fuel, s'.allocatePhysicalPage fuel 1 = none := by
  refine ⟨{ oneNode with locked := true, interruptFlag := false }, by rfl, rfl, rfl, fun fuel => ?_⟩
  rw [Pmm.allocatePhysicalPage, if_pos (.inr rfl)]

end Obos.Physical
