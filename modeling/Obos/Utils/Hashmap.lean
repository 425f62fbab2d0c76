import Obos.Lib.DLists

/-!
# The kernel's hash map

`utils::Hashmap` keeps its bindings in three linked structures: the node table,
an array of slots; the collision chains, one doubly linked list for each
bucket; and the insertion list the iterators walk. The chain and list-node
objects live on the kernel heap and are modelled field by field, as maps from
addresses. Dereferencing a null pointer and walking for longer than the fuel
both give `none`: the call does not return.

`ChainsOf t cs` says which chains each bucket holds; `locate_eq` says what a
lookup finds in them, and `ChainsOf.insertAt` and `ChainsOf.unlinkChain` say
what insertion and removal do to them.
-/

namespace Obos.Utils

open Lib Function List Option

/-- The address of an object on the kernel heap; 0 is the null pointer. -/
abbrev Ptr := Nat

/-- `struct node`, a slot of the node table. The key and the value stand for the objects the
fields point at, `none` for a null pointer. -/
@[ext] structure Node (Key Val : Type) where
  key : Option Key := none
  value : Option Val := none
  referencingNode : Ptr := 0
  used : Bool := false

/-- `class Hashmap` with the heap objects behind it: the fields of `struct chain` and
`struct listNode` by address, those of `struct bucket` by bucket number, and the objects of the
two kinds that are allocated. Slots and buckets behind the end of their array read as zero. -/
structure Hashmap (Key Val : Type) where
  tableIndex : Ptr → Nat
  chainNext : Ptr → Ptr
  chainPrev : Ptr → Ptr
  liveChains : List Ptr
  firstChain : Nat → Ptr
  lastChain : Nat → Ptr
  nChains : Nat → Nat
  nodeTable : Nat → Node Key Val
  nodeTableAt : Ptr
  listNext : Ptr → Ptr
  listPrev : Ptr → Ptr
  data : Ptr → Ptr × Nat
  liveListNodes : List Ptr
  head : Ptr
  tail : Ptr
  tableCapacity : Nat

/-- What the heap hands to one call of `emplace_at`: the chain, the list node with the contents
its uninitialised link fields have, and the place the node table is reallocated to. -/
structure Allocation where
  chain : Ptr
  listNode : Ptr
  rawNext : Ptr := 0
  rawPrev : Ptr := 0
  nodeTable : Ptr := 0
  deriving DecidableEq

namespace Hashmap

variable {Key Val : Type}

/-! ## The program -/

/-- The default constructor: 64 zeroed buckets and slots. -/
def empty (nodeTableAt : Ptr) : Hashmap Key Val where
  tableIndex := fun _ => 0
  chainNext := fun _ => 0
  chainPrev := fun _ => 0
  liveChains := []
  firstChain := fun _ => 0
  lastChain := fun _ => 0
  nChains := fun _ => 0
  nodeTable := fun _ => {}
  nodeTableAt := nodeTableAt
  listNext := fun _ => 0
  listPrev := fun _ => 0
  data := fun _ => (0, 0)
  liveListNodes := []
  head := 0
  tail := 0
  tableCapacity := 64

/-- The chain list of a bucket. -/
def bucket (t : Hashmap Key Val) (b : Nat) : DList Ptr :=
  ⟨t.chainNext, t.chainPrev, t.firstChain b, t.lastChain b⟩

/-- Write back the chain list of a bucket. -/
def setBucket (t : Hashmap Key Val) (b : Nat) (l : DList Ptr) : Hashmap Key Val :=
  { t with
    chainNext := l.next
    chainPrev := l.prev
    firstChain := update t.firstChain b l.head
    lastChain := update t.lastChain b l.tail }

/-- The list the iterators walk. -/
def insertionList (t : Hashmap Key Val) : DList Ptr :=
  ⟨t.listNext, t.listPrev, t.head, t.tail⟩

/-- Write back the list the iterators walk. -/
def setInsertionList (t : Hashmap Key Val) (l : DList Ptr) : Hashmap Key Val :=
  { t with listNext := l.next, listPrev := l.prev, head := l.head, tail := l.tail }

/-- `kcalloc` of a chain followed by the write of its slot number. -/
def allocChain (t : Hashmap Key Val) (c : Ptr) (index : Nat) : Hashmap Key Val :=
  { t with
    tableIndex := update t.tableIndex c index
    chainNext := update t.chainNext c 0
    chainPrev := update t.chainPrev c 0
    liveChains := c :: t.liveChains }

/-- `new listNode`, which leaves the links as they are in memory, followed by the write of
`data`. -/
def allocListNode (t : Hashmap Key Val) (a : Allocation) (data : Ptr × Nat) : Hashmap Key Val :=
  { t with
    listNext := update t.listNext a.listNode a.rawNext
    listPrev := update t.listPrev a.listNode a.rawPrev
    data := update t.data a.listNode data
    liveListNodes := a.listNode :: t.liveListNodes }

/-- `expand`: both arrays are reallocated, which keeps their contents and zeroes what is new.
Nothing is rehashed. -/
def expand (t : Hashmap Key Val) (newCapacity : Nat) (nodeTableAt : Ptr) : Hashmap Key Val :=
  if newCapacity < t.tableCapacity then t
  else { t with tableCapacity := newCapacity, nodeTableAt := nodeTableAt }

/-- The slot number the scan at the start of `emplace_at` ends with: the first unused slot, or 0
where every slot is in use. -/
def scan (t : Hashmap Key Val) : Nat :=
  ((List.range t.tableCapacity).find? fun i => !(t.nodeTable i).used).getD 0

/-- The part of `emplace_at` before the bucket is chosen: the scan, and the growth of a table
whose scanned slot is in use. -/
def reserve (t : Hashmap Key Val) (a : Allocation) : Hashmap Key Val × Nat :=
  let ourIndex := t.scan
  let t := if t.tableCapacity = 0 then { t with tableCapacity := 64 }.expand 64 a.nodeTable else t
  if (t.nodeTable ourIndex).used then
    ({ t with tableCapacity := t.tableCapacity * 2 }.expand (t.tableCapacity * 2) a.nodeTable,
      ourIndex + 1)
  else (t, ourIndex)

/-- Hang a chain into a bucket. -/
def linkChain (t : Hashmap Key Val) (b : Nat) (c : Ptr) : Hashmap Key Val :=
  let t := t.setBucket b ((t.bucket b).pushBack 0 c)
  { t with nChains := update t.nChains b (t.nChains b + 1) }

/-- Take a chain out of a bucket and free it. -/
def unlinkChain (t : Hashmap Key Val) (b : Nat) (c : Ptr) : Hashmap Key Val :=
  let t := t.setBucket b ((t.bucket b).unlink 0 c)
  { t with
    nChains := update t.nChains b (t.nChains b - 1)
    liveChains := t.liveChains.erase c }

/-- Hang a list node into the insertion list. -/
def linkListNode (t : Hashmap Key Val) (n : Ptr) : Hashmap Key Val :=
  t.setInsertionList (t.insertionList.pushBack 0 n)

/-- Take a list node out of the insertion list; it is not freed. -/
def unlinkListNode (t : Hashmap Key Val) (n : Ptr) : Hashmap Key Val :=
  t.setInsertionList (t.insertionList.unlink 0 n)

/-- Overwrite a slot of the node table. -/
def setNode (t : Hashmap Key Val) (i : Nat) (node : Node Key Val) : Hashmap Key Val :=
  { t with nodeTable := update t.nodeTable i node }

section Hashing

variable (equals : Key → Key → Bool) (hash : Key → Nat)

/-- The part of `emplace_at` from the choice of the bucket on. -/
def insertAt (t : Hashmap Key Val) (ourIndex : Nat) (key : Key) (value : Val) (a : Allocation) :
    Hashmap Key Val :=
  let b := hash key % t.tableCapacity
  let t := t.allocChain a.chain ourIndex
  let t := t.linkChain b a.chain
  let t := t.allocListNode a (t.nodeTableAt, ourIndex)
  let t := t.linkListNode a.listNode
  t.setNode ourIndex
    { key := some key, value := some value, referencingNode := a.listNode, used := true }

/-- `emplace_at`. -/
def emplaceAt (t : Hashmap Key Val) (key : Key) (value : Val) (a : Allocation) :
    Hashmap Key Val :=
  (t.reserve a).1.insertAt hash (t.reserve a).2 key value a

/-- The loop `at` and `remove` share, from the chain `c` and the slot `i` on: it ends on a slot
with an equal key, or past the last chain with the last slot. -/
def walk (t : Hashmap Key Val) (key : Key) : Nat → Ptr → Nat → Option (Ptr × Nat)
  | 0, _, _ => none
  | fuel + 1, c, i =>
    -- a slot without a key is a null dereference
    (t.nodeTable i).key >>= fun k =>
      if !equals key k && c ≠ 0 then
        let next := t.chainNext c
        walk t key fuel next (if next ≠ 0 then t.tableIndex next else i)
      else some (c, i)

/-- The comparison behind the loop of `at` and `remove`. -/
def accept (t : Hashmap Key Val) (key : Key) : Ptr × Nat → Option (Option (Ptr × Nat))
  | (c, i) => (t.nodeTable i).key >>= fun k =>
    if equals key k then some (some (c, i)) else some none

/-- The common start of `at` and `remove`: the chain and the slot of a key, or `some none` where
they return early. -/
def locate (t : Hashmap Key Val) (fuel : Nat) (key : Key) : Option (Option (Ptr × Nat)) :=
  if t.tableCapacity = 0 then some none
  else if t.nChains (hash key % t.tableCapacity) = 0 then some none
  else
    let first := t.firstChain (hash key % t.tableCapacity)
    if first = 0 then none
    else t.walk equals key fuel first (t.tableIndex first) >>= t.accept equals key

/-- `at`: the value the returned reference refers to, `some none` for the null reference. -/
def atKey (t : Hashmap Key Val) (fuel : Nat) (key : Key) : Option (Option Val) :=
  (t.locate equals hash fuel key).map fun found => found.bind fun (_, i) => (t.nodeTable i).value

/-- `contains`. -/
def contains (t : Hashmap Key Val) (fuel : Nat) (key : Key) : Option Bool :=
  (t.atKey equals hash fuel key).map Option.isSome

/-- The edits `remove` makes once it has found the chain `c` and the slot `i` of the key. -/
def detach (t : Hashmap Key Val) (b : Nat) (c : Ptr) (i : Nat) : Hashmap Key Val :=
  let t := t.unlinkChain b c
  let t := t.unlinkListNode (t.nodeTable i).referencingNode
  t.setNode i {}

/-- `remove`. -/
def remove (t : Hashmap Key Val) (fuel : Nat) (key : Key) : Option (Hashmap Key Val) :=
  t.locate equals hash fuel key >>= fun
    | none => some t
    | some (c, i) =>
      if (t.nodeTable i).referencingNode = 0 then none
      else some (t.detach (hash key % t.tableCapacity) c i)

end Hashing

/-- Iterating from the list node `n`, `begin()` being the head: the key and value of the node each
step visits. A list node that points outside of the present node table is dangling. -/
def iterate (t : Hashmap Key Val) : Nat → Ptr → Option (List (Key × Val))
  | 0, _ => none
  | fuel + 1, n =>
    if n = 0 then some []
    else if (t.data n).1 ≠ t.nodeTableAt then none
    else do
      let k ← (t.nodeTable (t.data n).2).key
      let v ← (t.nodeTable (t.data n).2).value
      let rest ← iterate t fuel (t.listNext n)
      pure ((k, v) :: rest)

/-! ## The choice of a slot -/

section Reserve

variable {t : Hashmap Key Val}

/-- The scan finds an unused slot where there is one. -/
theorem scan_of_unused {i : Nat} (hi : i < t.tableCapacity)
    (hunused : (t.nodeTable i).used = false) :
    t.scan < t.tableCapacity ∧ (t.nodeTable t.scan).used = false := by
  unfold scan
  cases hfind : (range t.tableCapacity).find? fun i => !(t.nodeTable i).used with
  | none =>
    have hall := find?_eq_none.1 hfind i (mem_range.2 hi)
    simp [hunused] at hall
  | some j =>
    have hj := mem_range.1 (mem_of_find?_eq_some hfind)
    have hfree := find?_some hfind
    exact ⟨hj, by simpa using hfree⟩

/-- The scan of a table without an unused slot ends with 0. -/
theorem scan_of_full (hfull : ∀ i < t.tableCapacity, (t.nodeTable i).used = true) : t.scan = 0 := by
  unfold scan
  have hnone : ((range t.tableCapacity).find? fun i => !(t.nodeTable i).used) = none := by
    refine find?_eq_none.2 fun i hi => ?_
    simp [hfull i (mem_range.1 hi)]
  rw [hnone, getD_none]

theorem reserve_of_unused (hcap : t.tableCapacity ≠ 0) (hunused : (t.nodeTable t.scan).used = false)
    (a : Allocation) : t.reserve a = (t, t.scan) := by
  simp [reserve, hcap, hunused]

/-- The table after `expand` to twice its capacity. -/
def doubled (t : Hashmap Key Val) (nodeTableAt : Ptr) : Hashmap Key Val :=
  { t with tableCapacity := t.tableCapacity * 2, nodeTableAt := nodeTableAt }

theorem reserve_of_full (hcap : t.tableCapacity ≠ 0)
    (hfull : ∀ i < t.tableCapacity, (t.nodeTable i).used = true) (a : Allocation) :
    t.reserve a = (t.doubled a.nodeTable, 1) := by
  have hzero := hfull 0 (Nat.pos_of_ne_zero hcap)
  simp [reserve, expand, doubled, hcap, scan_of_full hfull, hzero]

end Reserve

/-! ## The node table -/

section NodeTable

variable {hash : Key → Nat} {t : Hashmap Key Val} {a : Allocation} {i j b : Nat} {c : Ptr}
  {key : Key} {value : Val}

theorem nodeTable_insertAt_self : (t.insertAt hash i key value a).nodeTable i =
    ⟨some key, some value, a.listNode, true⟩ := update_self _ _ _

theorem nodeTable_insertAt_other (hj : j ≠ i) :
    (t.insertAt hash i key value a).nodeTable j = t.nodeTable j := update_of_ne hj _ _

theorem nodeTable_detach_self : (t.detach b c i).nodeTable i = {} := update_self _ _ _

theorem nodeTable_detach_other (hj : j ≠ i) : (t.detach b c i).nodeTable j = t.nodeTable j :=
  update_of_ne hj _ _

end NodeTable

/-! ## The chains of a bucket -/

/-- The ends of the buckets. -/
def ends (t : Hashmap Key Val) (b : Nat) : Ends Ptr := ⟨t.firstChain b, t.lastChain b⟩

/-- Every bucket `b` holds exactly the chains `cs b`, in this order. -/
structure ChainsOf (t : Hashmap Key Val) (cs : Nat → List Ptr) : Prop where
  lists : Lists 0 ⟨t.chainNext, t.chainPrev⟩ t.ends cs
  count : ∀ b, t.nChains b = (cs b).length
  live : ∀ b, ∀ c ∈ cs b, c ∈ t.liveChains

namespace ChainsOf

variable {t : Hashmap Key Val} {cs : Nat → List Ptr}

theorem empty (nodeTableAt : Ptr) :
    ChainsOf (Hashmap.empty nodeTableAt : Hashmap Key Val) fun _ => [] where
  lists := ⟨fun b => ⟨by simp [DList.Adjacent, Hashmap.empty, LinkFields.through, ends], by simp,
    by simp⟩, by simp⟩
  count b := rfl
  live := by simp

variable (h : ChainsOf t cs)
include h

variable {c : Ptr} {b : Nat}

theorem notMem (hc : c ∉ t.liveChains) (b : Nat) : c ∉ cs b :=
  fun hmem => hc (h.live b c hmem)

/-- Allocating a chain leaves the buckets alone. -/
theorem allocChain (hc : c ∉ t.liveChains) (i : Nat) : ChainsOf (t.allocChain c i) cs where
  lists := h.lists.congr fun b x hx =>
    have hne : x ≠ c := fun he => h.notMem hc b (he ▸ hx)
    ⟨update_of_ne hne _ _, update_of_ne hne _ _⟩
  count := h.count
  live b x hx := mem_cons_of_mem c (h.live b x hx)

omit h in
theorem ends_setBucket {l : DList Ptr} : (t.setBucket b l).ends = update t.ends b l.ends := by
  funext b'
  by_cases hb : b' = b
  · subst hb
    simp [setBucket, ends, DList.ends]
  · simp [setBucket, ends, hb]

/-- Hanging in an allocated chain that is in no bucket appends it to its bucket. -/
theorem linkChain (hc : c ≠ 0) (hmem : ∀ b, c ∉ cs b) (hnext : t.chainNext c = 0)
    (hlive : c ∈ t.liveChains) : ChainsOf (t.linkChain b c) (update cs b (cs b ++ [c])) := by
  refine ⟨ends_setBucket ▸ h.lists.pushBack hmem hc hnext, fun b' => ?_, fun b' x hx => ?_⟩
  · by_cases hb : b' = b
    · subst hb
      simp [Hashmap.linkChain, setBucket, h.count]
    · simp [Hashmap.linkChain, setBucket, hb, h.count]
  · rcases (Lists.mem_append cs b c b' x).1 hx with hx | ⟨-, rfl⟩
    · exact h.live b' x hx
    · exact hlive

/-- Taking a chain out of its bucket removes it there. -/
theorem unlinkChain {as bs : List Ptr} (hsplit : cs b = as ++ c :: bs) :
    ChainsOf (t.unlinkChain b c) (update cs b (as ++ bs)) := by
  refine ⟨ends_setBucket ▸ h.lists.unlink hsplit, fun b' => ?_, fun b' x hx => ?_⟩
  · by_cases hb : b' = b
    · subst hb
      simp [Hashmap.unlinkChain, setBucket, h.count, hsplit]
    · simp [Hashmap.unlinkChain, setBucket, hb, h.count]
  · obtain ⟨hx, hne⟩ := (h.lists.mem_unlink hsplit b' x).1 hx
    exact (mem_erase_of_ne hne).2 (h.live b' x hx)

/-- Insertion appends the new chain to the bucket of its key. -/
theorem insertAt (hash : Key → Nat) {a : Allocation} (hc : a.chain ≠ 0)
    (hfresh : a.chain ∉ t.liveChains) (i : Nat) (key : Key) (value : Val) :
    ChainsOf (t.insertAt hash i key value a)
      (update cs (hash key % t.tableCapacity)
        (cs (hash key % t.tableCapacity) ++ [a.chain])) := by
  have hlinked := (h.allocChain hfresh i).linkChain (b := hash key % t.tableCapacity) hc
    (h.notMem hfresh) (update_self _ _ _) mem_cons_self
  -- the list node and the slot are written behind the chains' back
  exact ⟨hlinked.lists, hlinked.count, hlinked.live⟩

end ChainsOf

/-! ## Lookup -/

section Lookup

variable {equals : Key → Key → Bool} {hash : Key → Nat} {t : Hashmap Key Val}
  {cs : Nat → List Ptr}

/-- The search of `at` and `remove` over a list of chains. -/
def search (equals : Key → Key → Bool) (t : Hashmap Key Val) (key : Key) :
    List Ptr → Option (Option Ptr)
  | [] => some none
  | c :: cs => (t.nodeTable (t.tableIndex c)).key >>= fun k =>
    if equals key k then some (some c) else search equals t key cs

variable {fuel : Nat} {key : Key}

/-- Walking the chains of a bucket from one of them on is searching the rest of its list. -/
theorem walk_eq {l : DList Ptr} {c : Ptr} {as bs : List Ptr} (hl : l.IsList 0 (as ++ c :: bs))
    (hnext : l.next = t.chainNext) (hfuel : bs.length + 1 < fuel) :
    t.walk equals key fuel c (t.tableIndex c) >>= t.accept equals key =
      (t.search equals key (c :: bs)).map (Option.map fun c => (c, t.tableIndex c)) := by
  -- induction on the chains still ahead; two rounds of the loop end a list of one chain
  induction bs generalizing as c fuel with
  | nil =>
    obtain ⟨fuel, rfl⟩ := Nat.exists_eq_add_of_lt hfuel
    have hc : c ≠ 0 := fun he => hl.null_notMem (by simp [he])
    have hn : t.chainNext c = 0 := by rw [← hnext, hl.neighbours.2]; simp
    cases hk : (t.nodeTable (t.tableIndex c)).key with
    | none => simp [walk, search, hk, Nat.add_comm]
    | some k =>
      by_cases he : equals key k = true
      · simp [walk, accept, search, hk, he, Nat.add_comm]
      · simp [walk, accept, search, hk, he, hc, hn, Nat.add_comm]
  | cons d bs ih =>
    obtain ⟨fuel, rfl⟩ := Nat.exists_eq_add_of_lt hfuel
    have hc : c ≠ 0 := fun he => hl.null_notMem (by simp [he])
    have hd : d ≠ 0 := fun he => hl.null_notMem (by simp [he])
    have hn : t.chainNext c = d := by rw [← hnext, hl.neighbours.2]; simp
    cases hk : (t.nodeTable (t.tableIndex c)).key with
    | none => simp [walk, search, hk]
    | some k =>
      by_cases he : equals key k = true
      · simp [walk, accept, search, hk, he]
      · have hrest : l.IsList 0 ((as ++ [c]) ++ d :: bs) := by simpa using hl
        have hmore : bs.length + 1 < (d :: bs).length + 1 + fuel := by
          rw [length_cons]
          omega
        have hstep := ih hrest hmore
        simpa [walk, search, hk, he, hc, hn, hd] using hstep

/-- With fuel for every chain of the bucket, a lookup is a search through its chains. -/
theorem locate_eq (h : ChainsOf t cs) (hcap : t.tableCapacity ≠ 0)
    (hfuel : (cs (hash key % t.tableCapacity)).length < fuel) :
    t.locate equals hash fuel key =
      (t.search equals key (cs (hash key % t.tableCapacity))).map
        (Option.map fun c => (c, t.tableIndex c)) := by
  have hl := h.lists.list (hash key % t.tableCapacity)
  have hcount := h.count (hash key % t.tableCapacity)
  unfold locate
  rw [if_neg hcap, hcount]
  cases hcs : cs (hash key % t.tableCapacity) with
  | nil => simp [search]
  | cons c bs =>
    rw [hcs] at hl hfuel
    have hfirst : t.firstChain (hash key % t.tableCapacity) = c := hl.head_eq
    have hc : c ≠ 0 := fun he => hl.null_notMem (by simp [he])
    rw [hfirst, if_neg hc]
    have hstart : (t.bucket (hash key % t.tableCapacity)).IsList 0 ([] ++ c :: bs) := hl
    exact walk_eq hstart rfl (by simpa using hfuel)

/-- More fuel does not change the end of a walk. -/
theorem walk_mono {fuel' : Nat} {c : Ptr} {i : Nat} {r : Ptr × Nat} (hle : fuel ≤ fuel')
    (h : t.walk equals key fuel c i = some r) : t.walk equals key fuel' c i = some r := by
  induction fuel generalizing fuel' c i with
  | zero => cases h
  | succ fuel ih =>
    obtain ⟨fuel', rfl⟩ := Nat.exists_eq_add_of_le' (Nat.lt_of_lt_of_le (Nat.succ_pos fuel) hle)
    cases hk : (t.nodeTable i).key with
    | none => simp [walk, hk] at h
    | some k =>
      simp only [walk, hk, bind_eq_bind, bind_some] at h ⊢
      split at h
      · rename_i hgo
        rw [if_pos hgo]
        exact ih (by omega) h
      · rename_i hstop
        rw [if_neg hstop, h]

/-- More fuel does not change the answer of a lookup. -/
theorem locate_mono {fuel' : Nat} {r : Option (Ptr × Nat)} (hle : fuel ≤ fuel')
    (h : t.locate equals hash fuel key = some r) : t.locate equals hash fuel' key = some r := by
  unfold locate at h ⊢
  dsimp only at h ⊢
  split_ifs at h ⊢
  · exact h
  · exact h
  · simp only [bind_eq_bind, bind_eq_some_iff] at h ⊢
    obtain ⟨e, hwalk, haccept⟩ := h
    exact ⟨e, walk_mono hle hwalk, haccept⟩

end Lookup

end Hashmap

end Obos.Utils
