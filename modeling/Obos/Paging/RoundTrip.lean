import Obos.Paging.Alloc
import Obos.Paging.FreedFrames

/-!
# Mapping a range and taking it out again

`VirtualAlloc` makes the tables that a range needs and, if the flags say so, gives
each of its pages a frame. `VirtualFree` of the same range gives back the frames and
the tables that become empty. Both decide page by page and table by table, so that
it is not obvious that the second gives back what the first has taken.

`Stock` says which frames are on the free list. `Filled` is the state of the loop of
`VirtualAlloc`: what is on the free list no more is the frames of the pages done and
the tables made. A table that was there before has an entry that does not lead to the
range, hence is not emptied (`Filled.not_emptied`), and a new one has none
(`Filled.emptied`). The main theorem is `virtualAlloc_virtualFree_restores`.
-/

namespace Obos.Paging

open Lib Lib.TableTree Physical List

/-! ## Frames that can be handed out -/

/-- The frames on the free list. -/
def freeFrames (s : Pmm) (xs : List Nat) : List Nat := (freePages s xs).map (4096 * ·)

/-- Physical page 0 is not on the free list. -/
theorem null_notMem_freeFrames {s : Pmm} {xs : List Nat} (h : FreeList s xs) :
    0 ∉ freeFrames s xs := by
  intro hmem
  obtain ⟨p, hp, hzero⟩ := mem_map.1 hmem
  obtain ⟨x, hx, hpage⟩ := mem_flatMap.1 hp
  have haligned := h.aligned x hx
  have hne : x ≠ 0 := fun he => h.list.null_notMem (he ▸ hx)
  have hle := (mem_pages.1 hpage).1
  omega

/-- The allocator is not locked and has the frames `free` on its list, which are neither the root
nor a table of the page map. -/
structure Stock (cr3 : Nat) (R : Nat → Prop) (s : Pmm) (E : Entries) (free : List Nat) : Prop where
  unlocked : s.locked = false
  nodes : s.nMemoryNodes ≠ 0
  list : ∃ xs, FreeList s xs ∧ (freeFrames s xs).Perm free
  nodup : free.Nodup
  root : cr3 ∉ free
  dead : ∀ f ∈ free, ¬ Live child R 3 E f

/-- The tables a walk for a page makes. -/
def newTables (E E' : Entries) (page : Nat) : List Nat :=
  (List.range 3).flatMap fun d =>
    if E d (page / 512 ^ (3 - d)) = 0 then (child (E' d (page / 512 ^ (3 - d)))).toList else []

section Stock

variable {c : Cpu} {cr3 fuel d k t addr : Nat} {R : Nat → Prop} {s : Pmm} {E E' : Entries}
  {used : Set Nat} {free : List Nat} {flags protFlags : BitVec 64}

/-- The next frame of the stock. -/
theorem Stock.allocate (h : Stock cr3 R s E free) (hfree : free ≠ []) (hfuel : 0 < fuel) :
    ∃ f s' free', s.allocatePhysicalPage fuel 1 = some (f, s') ∧ (f :: free').Perm free ∧
      Stock cr3 R s' E free' := by
  obtain ⟨xs, hlist, hperm⟩ := h.list
  cases xs with
  | nil => exact absurd (nil_perm.1 hperm) hfree
  | cons node rest =>
    obtain ⟨s', xs', hret, -, halloc⟩ := hlist.allocatePhysicalPage h.unlocked h.nodes le_rfl
      (hlist.pos node mem_cons_self) hfuel
    have hnode := hlist.aligned node mem_cons_self
    set f := node + (nPagesOf s.mem node - 1) * 4096 with hf
    have hframe : 4096 * (f / 4096) = f := by omega
    have hperm' : (f :: freeFrames s' xs').Perm free := by
      have hmap := (halloc.perm.map (4096 * ·)).trans hperm
      rw [map_append] at hmap
      refine List.Perm.trans ?_ hmap
      rw [show (pages f 1).map (4096 * ·) = [f] from congrArg (fun x => [x]) hframe]
      exact (perm_append_singleton f _).symm
    have hmem : ∀ g ∈ freeFrames s' xs', g ∈ free := fun g hg =>
      hperm'.mem_iff.1 (mem_cons_of_mem f hg)
    exact ⟨f, s', freeFrames s' xs', hret, hperm', halloc.locked.trans h.unlocked,
      fun hn => h.nodes (halloc.nMemoryNodes.symm.trans hn), ⟨xs', halloc.freeList, .refl _⟩,
      (hperm'.nodup_iff.2 h.nodup).of_cons, fun hr => h.root (hmem _ hr),
      fun g hg => h.dead g (hmem g hg)⟩

/-- Frames that are not on the list may be written. -/
theorem Stock.congr (h : Stock cr3 R s E free) {m : Memory}
    (hmem : ∀ b, frameAt b ∈ free → m b = s.mem b)
    (hdead : ∀ f ∈ free, Live child R 3 E' f → Live child R 3 E f) :
    Stock cr3 R { s with mem := m } E' free := by
  obtain ⟨xs, hlist, hperm⟩ := h.list
  obtain ⟨hlist', hpages⟩ := hlist.congr_frames fun p hp b hb =>
    hmem b (hperm.mem_iff.1 (hb ▸ mem_map_of_mem hp))
  refine ⟨h.unlocked, h.nodes, ⟨xs, hlist', ?_⟩, h.nodup, h.root,
    fun f hf hl => h.dead f hf (hdead f hf hl)⟩
  rw [freeFrames, hpages]
  exact hperm

theorem Stock.table_notMem (h : Stock cr3 R s E free) (hd : d ≤ 3) (hk : R (k / 512 ^ d))
    (ht : tableOf child cr3 E d k = some t) : t ∉ free := by
  cases d with
  | zero =>
    cases ht
    exact h.root
  | succ d => exact fun hmem => h.dead t hmem (Represents.live_of_tableOf hd hk ht)

/-- A table after an entry was written was one before, or is the one of the entry. -/
theorem live_of_set {v : BitVec 64} {g : Nat} (hlive : Live child R 3 (set E d k v) g) :
    Live child R 3 E g ∨ child v = some g := by
  obtain ⟨d', hd', k', hk', hchild⟩ := hlive
  by_cases hnode : d' = d ∧ k' = k
  · obtain ⟨rfl, rfl⟩ := hnode
    rw [set_same] at hchild
    exact .inr hchild
  · rw [set_other hnode] at hchild
    exact .inl ⟨d', hd', k', hk', hchild⟩

/-- An entry is written; the frames on the list are no tables of it. -/
theorem Stock.setEntry (h : Stock cr3 R s E free) (htree : Represents child s.mem cr3 R 3 E)
    (hd : d ≤ 3) (hk : R (k / 512 ^ d)) (ht : tableOf child cr3 E d k = some t) {m : Memory}
    {v : BitVec 64} (hmem : ∀ b, b < t ∨ t + 4096 ≤ b → frameAt b ∈ free → m b = s.mem b)
    (hv : ∀ g ∈ free, child v = some g → Live child R 3 E g) :
    Stock cr3 R { s with mem := m } (set E d k v) free := by
  refine h.congr (fun b hb => hmem b ?_ hb) fun g hg hlive => ?_
  · exact outside_of_frameAt_ne (htree.tableOf_aligned hd hk ht) fun he =>
      h.table_notMem hd hk ht (he ▸ hb)
  · exact (live_of_set hlive).elim id (hv g hg)

/-- The kernel can reach the tables of a page map. -/
theorem tableOf_le (hc : c.physAddrBits ≤ 52) (hcr3 : cr3 ≤ 2 ^ c.physAddrBits)
    (ht : tableOf child cr3 E d k = some t) : t ≤ 2 ^ 52 := by
  cases d with
  | zero =>
    cases ht
    exact hcr3.trans (Nat.pow_le_pow_right (by decide) hc)
  | succ d =>
    have hchild := ht
    rw [← (frame_of_child hchild).2]
    exact (frame_lt _).le

/-- One level of a walk returns; it takes a frame exactly if the table is missing. Nothing need be
known of the allocator if the table is there. -/
theorem allocateTable_stock {p : Prop} (hc : c.physAddrBits ≤ 51) (h : Ready c cr3 R s E used)
    (hstock : p → Stock cr3 R s E free) (hfree : E d k = 0 → p ∧ free ≠ []) (hfuel : 0 < fuel)
    (hd : d < 3) (hk : R (k / 512 ^ d)) (hclean : Clean c d (E d k)) (hflags : TableFlags flags)
    {entryAt : Memory → BitVec 64} {tableAt : Memory → Nat}
    (hread : ∀ m, Represents child m cr3 R 3 E →
      entryAt m = E d k ∧ tableOf child cr3 E d k = some (tableAt m)) :
    ∃ s' v t used' free', allocateTable fuel s entryAt tableAt (k % 512) flags = some s' ∧
      Ready c cr3 R s' (set E d k v) used' ∧ (p → Stock cr3 R s' (set E d k v) free') ∧
      Extends c (E d k) flags v t ∧ PointsTo c v t ∧ (d < 2 → t ≠ 0) ∧
      ((if E d k = 0 then [t] else []) ++ free').Perm free := by
  have hpoint {v : BitVec 64} {t : Nat} (hext : Extends c (E d k) flags v t) : PointsTo c v t :=
    hext.reachable.resolve_right fun hlarge => by omega
  by_cases hzero : E d k = 0
  · obtain ⟨hp, hne⟩ := hfree hzero
    obtain ⟨f, s1, free', halloc, hperm, hstock1⟩ := (hstock hp).allocate hne hfuel
    have hreach : ¬ 2 ^ 52 < tableAt s1.mem := by
      have hle := tableOf_le (by omega) h.cr3_le (hread s1.mem (h.allocate halloc).ready.tree).2
      omega
    have hret : allocateTable fuel s entryAt tableAt (k % 512) flags = some { s1 with
        mem := (s1.mem.store64 (tableAt s1.mem + 8 * (k % 512)) (BitVec.ofNat 64 f ||| flags)).fill
          f 4096 0 } := by
      rw [allocateTable, if_pos ((hread s.mem h.tree).1.trans hzero), halloc]
      exact if_neg hreach
    obtain ⟨v, t, used', hready, -, hext, htaken⟩ :=
      allocateTable_spec (by omega) h hd hk hclean hflags hread hret
    have hpoints := hpoint hext
    obtain rfl : f = t := by
      obtain ⟨_, halloc'⟩ := htaken hzero
      rw [halloc] at halloc'
      cases halloc'
      rfl
    have hnew : f ∉ free' := (nodup_cons.1 (hperm.nodup_iff.2 (hstock hp).nodup)).1
    have hsup := h.allocate halloc
    obtain ⟨-, htable⟩ := hread s1.mem hsup.ready.tree
    refine ⟨_, v, f, used', free', hret, hready, fun _ => hstock1.setEntry hsup.ready.tree hd.le hk
      htable (fun b ht hb => ?_) fun g hg hchild => ?_, hext, hpoints, fun _ => ?_, ?_⟩
    · have hf := outside_of_frameAt_ne hsup.aligned fun he => hnew (he ▸ hb)
      exact (Memory.fill_outside 0 hf).trans (Memory.store64_outside _ (by omega))
    · rw [hpoints.child_eq] at hchild
      cases hchild
      exact absurd hg hnew
    · rintro rfl
      have hlock := hready.locked_of_null hd hk (by rw [set_same, hpoints.child_eq])
      exact Bool.false_ne_true (hstock1.unlocked.symm.trans hlock)
    · rw [if_pos hzero]
      exact hperm
  · have hret : allocateTable fuel s entryAt tableAt (k % 512) flags = some { s with
        mem := s.mem.store64 (tableAt s.mem + 8 * (k % 512)) (widenEntry (entryAt s.mem) flags)
          } := by
      rw [allocateTable, if_neg (by rwa [(hread s.mem h.tree).1])]
    obtain ⟨v, t, used', hready, -, hext, -⟩ :=
      allocateTable_spec (by omega) h hd hk hclean hflags hread hret
    have hpoints := hpoint hext
    obtain ⟨-, htable⟩ := hread s.mem h.tree
    obtain ⟨t', hold, hne⟩ := hclean.resolve_left hzero
    obtain rfl : t' = t := Option.some.inj (hold.child_eq.symm.trans (hext.keeps hzero))
    refine ⟨_, v, t', used', free, hret, hready, fun hp => (hstock hp).setEntry h.tree hd.le hk
      htable (fun b ht _ => Memory.store64_outside _ (by omega)) fun g _ hchild => ?_, hext,
      hpoints, hne, ?_⟩
    · rw [hpoints.child_eq, ← hext.keeps hzero] at hchild
      exact ⟨d, hd, k, hk, hchild⟩
    · rw [if_neg hzero]
      exact .refl _

/-- The tables made by the three levels of a walk. -/
theorem newTables_setPath {page t0 t1 t2 : Nat} {v0 v1 v2 : BitVec 64} (h0 : PointsTo c v0 t0)
    (h1 : PointsTo c v1 t1) (h2 : PointsTo c v2 t2) :
    newTables E (setPath E page v0 v1 v2) page =
      (if E 0 (page / 512 ^ 3) = 0 then [t0] else []) ++
      ((if E 1 (page / 512 ^ 2) = 0 then [t1] else []) ++
      (if E 2 (page / 512) = 0 then [t2] else [])) := by
  have hone : page / 512 ^ (3 - 2) = page / 512 := by rw [show (3 - 2 : Nat) = 1 from rfl,
    Nat.pow_one]
  rw [newTables, show range 3 = [0, 1, 2] from rfl, flatMap_cons, flatMap_cons,
    flatMap_cons, flatMap_nil, append_nil, hone, show (3 - 1 : Nat) = 2 from rfl,
    setPath_zero, setPath_one, setPath_two, h0.child_eq, h1.child_eq, h2.child_eq]
  rfl

/-- The number of tables that are missing on the path of a page. -/
def missingTables (E : Entries) (page : Nat) : Nat :=
  (if E 0 (page / 512 ^ 3) = 0 then 1 else 0) + (if E 1 (page / 512 ^ 2) = 0 then 1 else 0) +
    if E 2 (page / 512) = 0 then 1 else 0

/-- The number of frames left by one level. -/
theorem length_of_perm {free' : List Nat} {p : Prop} [Decidable p]
    (h : ((if p then [t] else []) ++ free').Perm free) :
    free.length = free'.length + if p then 1 else 0 := by
  rw [← h.length_eq, length_append, Nat.add_comm]
  split <;> rfl

/-- A walk returns; it takes exactly the frames of the tables it makes. -/
theorem allocatePagingStructures_stock {p : Prop} (hc : c.physAddrBits ≤ 51)
    (h : Ready c cr3 R s E used) (hstock : p → Stock cr3 R s E free) (hp : free ≠ [] → p)
    (hlen : missingTables E (key addr) ≤ free.length) (hfuel : 0 < fuel)
    (hR : R (key addr / 512 ^ 3)) (hclean : CleanPath c E (key addr)) (hflags : TableFlags flags) :
    ∃ t s' E' used' free', allocatePagingStructures c fuel s cr3 addr flags = some (t, s') ∧
      Ready c cr3 R s' E' used' ∧ (p → Stock cr3 R s' E' free') ∧ Opened c E E' (key addr) flags ∧
      child (E' 2 (key addr / 512)) = some t ∧ (newTables E E' (key addr) ++ free').Perm free := by
  set K := key addr with hK
  obtain ⟨hR0, hR1, hR2⟩ := region_levels hR
  have hnil {l : List Nat} (hl : 0 < l.length) : l ≠ [] := ne_nil_of_length_pos hl
  unfold missingTables at hlen
  -- the first level
  obtain ⟨s0, v0, t0, used0, free0, hret0, hready0, hstock0, hext0, hpoints0, hnull0, hperm0⟩ :=
    allocateTable_stock hc h hstock (fun hz => by
      rw [if_pos hz] at hlen
      exact ⟨hp (hnil (by omega)), hnil (by omega)⟩) hfuel
      (by decide) hR0 (hclean 0 (by decide)) hflags
      (fun m hm => ⟨getL4PageMapEntryAt_eq hm h.cr3_le hR, rfl⟩)
  have hne0 := hnull0 (by decide)
  have hlen0 := length_of_perm hperm0
  set E0 := set E 0 (K / 512 ^ 3) v0 with hE0
  have hE00 : PointsTo c (E0 0 (K / 512 ^ 3)) t0 := by rwa [hE0, set_same]
  have hE01 : E0 1 (K / 512 ^ 2) = E 1 (K / 512 ^ 2) := set_other (by omega)
  -- the second level
  obtain ⟨s1, v1, t1, used1, free1, hret1, hready1, hstock1, hext1, hpoints1, hnull1, hperm1⟩ :=
    allocateTable_stock hc hready0 hstock0 (fun hz => by
      rw [if_pos (hE01 ▸ hz : E 1 (K / 512 ^ 2) = 0)] at hlen
      exact ⟨hp (hnil (by omega)), hnil (by omega)⟩) hfuel
      (by decide) hR1 (by rw [hE01]; exact hclean 1 (by decide)) hflags
      (fun m hm => getL3PageMapEntryAt_reads hm h.cr3_le hR hE00 hne0)
  have hne1 := hnull1 (by decide)
  rw [hE01] at hext1 hperm1
  have hlen1 := length_of_perm hperm1
  set E1 := set E0 1 (K / 512 ^ 2) v1 with hE1
  have hE10 : PointsTo c (E1 0 (K / 512 ^ 3)) t0 := by rwa [hE1, set_other (by omega)]
  have hE11 : PointsTo c (E1 1 (K / 512 ^ 2)) t1 := by rwa [hE1, set_same]
  have hE12 : E1 2 (K / 512) = E 2 (K / 512) :=
    (set_other (by omega)).trans (set_other (by omega))
  -- the third level
  obtain ⟨s2, v2, t2, used2, free2, hret2, hready2, hstock2, hext2, hpoints2, -, hperm2⟩ :=
    allocateTable_stock hc hready1 hstock1 (fun hz => by
      rw [if_pos (hE12 ▸ hz : E 2 (K / 512) = 0)] at hlen
      exact ⟨hp (hnil (by omega)), hnil (by omega)⟩) hfuel
      (by decide) hR2 (by rw [hE12]; simpa using hclean 2 (by decide)) hflags
      (fun m hm => getL2PageMapEntryAt_reads hm h.cr3_le hR hE10 hne0 hE11 hne1)
  have hget2 := getL2PageMapEntryAt_setPath hready2.tree h.cr3_le hR hpoints0 hne0 hpoints1 hne1
  refine ⟨t2, s2, setPath E K v0 v1 v2, used2, free2, ?_, hready2, hstock2,
    .setPath hext0 hpoints0 hne0 hext1 hpoints1 hne1 hext2 hpoints2, ?_, ?_⟩
  · have hreach : ¬ 2 ^ 52 < t2 := by
      have hle := frame_lt v2
      rw [(frame_of_child hpoints2.child_eq).2] at hle
      omega
    unfold allocatePagingStructures
    rw [addressToIndex_three, addressToIndex_two, addressToIndex_one]
    simp only [← hK, bind, hret0, hret1, hret2, Option.bind_some, hget2, hpoints2.rawPtr_eq,
      if_neg hreach]
  · rw [setPath_two, hpoints2.child_eq]
  · rw [newTables_setPath hpoints0 hpoints1 hpoints2, append_assoc, append_assoc]
    exact ((hperm2.append_left _).trans hperm1).append_left _ |>.trans hperm0

theorem missingTables_le (E : Entries) (page : Nat) : missingTables E page ≤ 3 := by
  unfold missingTables
  split <;> split <;> split <;> omega

/-- The entry of a page: it is present, and gives back exactly the frame it was given. -/
theorem allocEntry_stock (hc : c.physAddrBits ≤ 51) (h : Ready c cr3 R s E used)
    (hstock : Stock cr3 R s E free) (hfree : free ≠ []) (hfuel : 0 < fuel) (protFlags : BitVec 64) :
    ∃ entry s' used' free', allocEntry c fuel protFlags s = some (entry, s') ∧
      Ready c cr3 R s' E used' ∧ Stock cr3 R s' E free' ∧ hasBit entry 0 = true ∧
      (c.frames entry ++ free').Perm free := by
  by_cases hcow : hasBit protFlags 3 = true
  · obtain ⟨f, s', free', halloc, hperm, hstock'⟩ := hstock.allocate hfree hfuel
    have hsup := h.allocate halloc
    have hflags := tableFlags_present c protFlags
    have hpoints := pointsTo_frame hc hsup.aligned hsup.lt hflags
    have hclear {i : Nat} (hlo : 6 ≤ i) (hhi : i < 12) :
        hasBit (BitVec.ofNat 64 f ||| (cpuFlags c protFlags ||| bit 0)) i = false := by
      have hframe : hasBit (BitVec.ofNat 64 f) i = false :=
        hasBit_ofNat_frame_of_not hsup.aligned hsup.lt (by omega)
      rw [hasBit_or, hframe, hflags.clear i hlo (by omega), Bool.or_self]
    have hcommitted : committed (BitVec.ofNat 64 f ||| (cpuFlags c protFlags ||| bit 0)) =
        true := by
      simp only [committed, hclear (show 6 ≤ 9 by decide) (by decide),
        hclear (show 6 ≤ 10 by decide) (by decide)]
      rfl
    refine ⟨BitVec.ofNat 64 f ||| (cpuFlags c protFlags ||| bit 0), s', _, free', ?_, hsup.ready,
      hstock', (frame_of_child hpoints.child_eq).1, ?_⟩
    · rw [allocEntry, hcow, halloc, ← BitVec.or_assoc]
      rfl
    · rw [Cpu.frames, if_pos hcommitted, hpoints.rawPtr_eq]
      exact hperm
  · refine ⟨demandPagingEntry protFlags, s, used, free, ?_, h, hstock, by simp [demandPagingEntry],
      ?_⟩
    · rw [allocEntry, Bool.eq_false_of_not_eq_true hcow]
      rfl
    · rw [Cpu.frames, if_neg (by simp [committed, demandPagingEntry])]
      exact .refl _

theorem length_frames_le (c : Cpu) (v : BitVec 64) : (c.frames v).length ≤ 1 := by
  unfold Cpu.frames
  split
  · exact le_rfl
  · exact Nat.zero_le 1

/-- One round of the loop of `VirtualAlloc` returns; it takes exactly the frame of the entry it
writes and those of the tables it makes. -/
theorem allocPage_stock (hc : c.physAddrBits ≤ 51) (h : Ready c cr3 R s E used)
    (hstock : Stock cr3 R s E free) (hlen : 4 ≤ free.length) (hfuel : 0 < fuel)
    (hR : R (key addr / 512 ^ 3)) (hclean : CleanPath c E (key addr)) :
    ∃ s' E' v used' free', allocPage c fuel cr3 protFlags s addr = some s' ∧
      Ready c cr3 R s' (set E' 3 (key addr) v) used' ∧
      Stock cr3 R s' (set E' 3 (key addr) v) free' ∧ Walked c E E' (key addr) ∧
      hasBit v 0 = true ∧ (c.frames v ++ (newTables E E' (key addr) ++ free')).Perm free := by
  obtain ⟨v, s1, used1, free1, hentry, hready1, hstock1, hpresent, hperm1⟩ :=
    allocEntry_stock hc h hstock (ne_nil_of_length_pos (by omega)) hfuel protFlags
  have hlen1 : 3 ≤ free1.length := by
    have hsum := hperm1.length_eq
    have hone := length_frames_le c v
    rw [length_append] at hsum
    omega
  obtain ⟨t, s2, E', used', free', hwalk, hready2, hstock2, hwalked, htable, hperm2⟩ :=
    allocatePagingStructures_stock hc hready1 (fun _ => hstock1) (fun _ => trivial)
      ((missingTables_le E (key addr)).trans hlen1) hfuel hR hclean
      (tableFlags_cpuFlags c protFlags)
  replace hstock2 := hstock2 trivial
  have hleaf := htable
  have haligned := hready2.tree.tableOf_aligned le_rfl hR hleaf
  refine ⟨{ s2 with mem := s2.mem.store64 (t + 8 * (key addr % 512)) v }, E', v, used', free', ?_,
    (hready2.storeLeaf hR htable v).1, hstock2.congr (fun b hb => ?_) fun g _ hlive => ?_,
    hwalked.toWalked, hpresent, (hperm2.append_left _).trans hperm1⟩
  · unfold allocPage
    rw [addressToIndex_zero]
    simp only [bind, hentry, hwalk, Option.bind_some]
  · have ht := outside_of_frameAt_ne haligned fun he =>
      hstock2.table_notMem le_rfl hR hleaf (he ▸ hb)
    exact Memory.store64_outside _ (by omega)
  · obtain ⟨d, hd, k, hk, hchild⟩ := hlive
    rw [set_other (fun hn => by omega)] at hchild
    exact ⟨d, hd, k, hk, hchild⟩

end Stock

/-! ## The loop of an allocation -/

/-- The contents `E` of a page map in which the pages `V` have been mapped, and the frames left:
the pages are present and the other leaves are as in `E0`, every old table is where it was, the new
ones are above the pages mapped, and exactly the frames of the pages and the new tables have been
taken. -/
structure Filled (c : Cpu) (cr3 : Nat) (E0 : Entries) (free0 V : List Nat) (s : Pmm) (E : Entries)
    (free : List Nat) : Prop where
  ready : ∃ used, Ready c cr3 (· < 512) s E used
  stock : Stock cr3 (· < 512) s E free
  present : ∀ p ∈ V, hasBit (E 3 p) 0 = true
  leaf : ∀ p, p ∉ V → E 3 p = E0 3 p
  old : ∀ d < 3, ∀ k, E0 d k ≠ 0 → E d k ≠ 0 ∧ child (E d k) = child (E0 d k)
  new : ∀ d < 3, ∀ k, E0 d k = 0 → E d k ≠ 0 → ∃ p ∈ V, p / 512 ^ (3 - d) = k
  clean : ∀ d < 3, ∀ k, Clean c d (E0 d k) → Clean c d (E d k)
  taken : ∃ tables, ((V.flatMap fun p => c.frames (E 3 p)) ++ (tables ++ free)).Perm free0 ∧
    ∀ t, t ∈ tables ↔ ∃ d < 3, ∃ k, E0 d k = 0 ∧ child (E d k) = some t

section Fill

variable {c : Cpu} {cr3 fuel page addr d k t : Nat} {s : Pmm} {E0 E E' : Entries}
  {free0 free V : List Nat} {protFlags v : BitVec 64}

theorem mem_newTables : t ∈ newTables E E' page ↔
    ∃ d < 3, E d (page / 512 ^ (3 - d)) = 0 ∧ child (E' d (page / 512 ^ (3 - d))) = some t := by
  simp only [newTables, mem_flatMap, mem_range]
  refine exists_congr fun d => and_congr_right fun _ => ?_
  split
  · rename_i hzero
    simp [hzero]
  · rename_i hne
    exact ⟨fun ht => absurd ht not_mem_nil, fun ht => absurd ht.1 hne⟩

/-- A walk makes at most three tables. -/
theorem length_newTables_le : (newTables E E' page).length ≤ 3 := by
  have hone (d : Nat) : (if E d (page / 512 ^ (3 - d)) = 0 then
      (child (E' d (page / 512 ^ (3 - d)))).toList else []).length ≤ 1 := by
    split
    · exact Option.length_toList_le
    · exact Nat.zero_le 1
  have h0 := hone 0
  have h1 := hone 1
  have h2 := hone 2
  rw [newTables, show range 3 = [0, 1, 2] from rfl, flatMap_cons, flatMap_cons,
    flatMap_cons, flatMap_nil, append_nil, length_append, length_append]
  omega

/-- Before the first page. -/
theorem Filled.nil {used : Set Nat} (hready : Ready c cr3 (· < 512) s E0 used)
    (hstock : Stock cr3 (· < 512) s E0 free0) : Filled c cr3 E0 free0 [] s E0 free0 := by
  refine ⟨⟨used, hready⟩, hstock, fun p hp => absurd hp not_mem_nil, fun _ _ => rfl,
    fun _ _ _ hne => ⟨hne, rfl⟩, fun _ _ _ hzero hne => absurd hzero hne, fun _ _ _ h => h, [],
    .refl _, fun t => ⟨fun ht => absurd ht not_mem_nil, ?_⟩⟩
  rintro ⟨d, -, k, hzero, hchild⟩
  rw [hzero] at hchild
  cases hchild

/-- The tables made after one more walk. -/
theorem Filled.mem_tables (h : Filled c cr3 E0 free0 V s E free) (hwalked : Walked c E E' page) :
    (∃ d < 3, ∃ k, E0 d k = 0 ∧ child (E' d k) = some t) ↔
      (∃ d < 3, ∃ k, E0 d k = 0 ∧ child (E d k) = some t) ∨ t ∈ newTables E E' page := by
  rw [mem_newTables]
  constructor
  · rintro ⟨d, hd, k, hzero, hchild⟩
    by_cases hne : E d k = 0
    · have hk : k = page / 512 ^ (3 - d) := by
        by_contra hk
        rw [hwalked.other d hd k hk, hne] at hchild
        cases hchild
      subst hk
      exact .inr ⟨d, hd, hne, hchild⟩
    · rw [(child_eq_of_keepsTable (hwalked.keep hd) hne).2] at hchild
      exact .inl ⟨d, hd, k, hzero, hchild⟩
  · rintro (⟨d, hd, k, hzero, hchild⟩ | ⟨d, hd, hzero, hchild⟩)
    · have hne : E d k ≠ 0 := fun he => by
        rw [he] at hchild
        cases hchild
      exact ⟨d, hd, k, hzero, by rw [(child_eq_of_keepsTable (hwalked.keep hd) hne).2, hchild]⟩
    · refine ⟨d, hd, _, ?_, hchild⟩
      by_contra hne
      exact (h.old d hd _ hne).1 hzero

/-- One more page. -/
theorem Filled.snoc (h : Filled c cr3 E0 free0 V s E free) (hpage : page ∉ V) {s' : Pmm}
    {used' : Set Nat} {free' : List Nat} (hready : Ready c cr3 (· < 512) s' (set E' 3 page v) used')
    (hstock : Stock cr3 (· < 512) s' (set E' 3 page v) free') (hwalked : Walked c E E' page)
    (hpresent : hasBit v 0 = true)
    (hperm : (c.frames v ++ (newTables E E' page ++ free')).Perm free) :
    Filled c cr3 E0 free0 (V ++ [page]) s' (set E' 3 page v) free' := by
  have htable {d k : Nat} (hd : d < 3) : set E' 3 page v d k = E' d k := set_other (by omega)
  have hleaf {p : Nat} (hp : p ≠ page) : set E' 3 page v 3 p = E 3 p := by
    rw [set_other fun hn => hp hn.2, hwalked.leaf]
  refine ⟨⟨used', hready⟩, hstock, fun p hp => ?_, fun p hp => ?_, fun d hd k hne => ?_,
    fun d hd k hzero hne => ?_, fun d hd k hclean => ?_, ?_⟩
  · rcases mem_append.1 hp with hp | hp
    · rw [hleaf fun he => hpage (he ▸ hp)]
      exact h.present p hp
    · rw [mem_singleton.1 hp, set_same]
      exact hpresent
  · rw [mem_append, not_or, mem_singleton] at hp
    rw [hleaf hp.2]
    exact h.leaf p hp.1
  · obtain ⟨hne', hchild⟩ := h.old d hd k hne
    rw [htable hd, ← hchild]
    exact child_eq_of_keepsTable (hwalked.keep hd) hne'
  · rw [htable hd] at hne
    by_cases hk : k = page / 512 ^ (3 - d)
    · exact ⟨page, by simp, hk.symm⟩
    · rw [hwalked.other d hd k hk] at hne
      obtain ⟨p, hp, hpk⟩ := h.new d hd k hzero hne
      exact ⟨p, mem_append_left _ hp, hpk⟩
  · rw [htable hd]
    exact clean_of_keepsTable (hwalked.keep hd) (h.clean d hd k hclean)
  · obtain ⟨tables, htaken, hmem⟩ := h.taken
    refine ⟨tables ++ newTables E E' page, ?_, fun t => ?_⟩
    · have hframes : (V.flatMap fun p => c.frames (set E' 3 page v 3 p)) =
          V.flatMap fun p => c.frames (E 3 p) :=
        flatMap_congr fun p hp => by rw [hleaf fun he => hpage (he ▸ hp)]
      rw [flatMap_append, flatMap_singleton, set_same, hframes]
      refine List.Perm.trans ?_ htaken
      rw [append_assoc]
      refine List.Perm.append_left _ (List.Perm.trans ?_ (hperm.append_left tables))
      simp only [← append_assoc]
      exact (perm_append_comm.append_right _).append_right _
    · rw [mem_append, hmem, ← h.mem_tables hwalked]
      refine exists_congr fun d => and_congr_right fun hd => exists_congr fun k => ?_
      rw [htable hd]

/-- The loop of an allocation returns, with all pages mapped. -/
theorem allocLoop_filled (hc : c.physAddrBits ≤ 51) (hfuel : 0 < fuel) {addrs : List Nat}
    (hnodup : (addrs.map key).Nodup) (hclean : ∀ a ∈ addrs, CleanPath c E0 (key a))
    (hlen : 4 * addrs.length ≤ free0.length) (h : Filled c cr3 E0 free0 [] s E0 free0)
    (protFlags : BitVec 64) :
    ∃ s' E free, addrs.foldlM (allocPage c fuel cr3 protFlags) s = some s' ∧
      Filled c cr3 E0 free0 (addrs.map key) s' E free := by
  have hrun : ∃ s', addrs.foldlM (allocPage c fuel cr3 protFlags) s = some s' ∧
      ∃ E free, free0.length ≤ free.length + 4 * addrs.length ∧
        Filled c cr3 E0 free0 (addrs.map key) s' E free := by
    refine foldlM_returns (fun done s => ∃ E free, free0.length ≤ free.length + 4 * done.length ∧
      Filled c cr3 E0 free0 (done.map key) s E free) ⟨E0, free0, le_rfl, h⟩ ?_
    rintro done a rest s1 rfl ⟨E, free, hleft, hfilled⟩
    obtain ⟨used, hready⟩ := hfilled.ready
    have ha : a ∈ done ++ a :: rest := by simp
    rw [length_append, length_cons] at hlen
    obtain ⟨s2, E', v, used', free', hret, hready', hstock', hwalked, hpresent, hperm⟩ :=
      allocPage_stock hc hready hfilled.stock (by omega) hfuel (key_region a)
        fun d hd => hfilled.clean d hd _ (hclean a ha d hd)
    have hnew : key a ∉ done.map key := by
      rw [map_append, nodup_append] at hnodup
      exact fun hmem => hnodup.2.2 _ hmem _ mem_cons_self rfl
    refine ⟨s2, hret, set E' 3 (key a) v, free', ?_, ?_⟩
    · have hsum := hperm.length_eq
      have hframes := length_frames_le c v
      have htables : (newTables E E' (key a)).length ≤ 3 := length_newTables_le
      rw [length_append, length_append] at hsum
      rw [length_append, length_singleton]
      omega
    · rw [map_append]
      exact hfilled.snoc hnew hready' hstock' hwalked hpresent hperm
  obtain ⟨s', hloop, E, free, -, hfilled⟩ := hrun
  exact ⟨s', E, free, hloop, hfilled⟩

end Fill

/-! ## What an unmapping gives back -/

section Restore

variable {c : Cpu} {cr3 d k : Nat} {s0 s : Pmm} {E0 E : Entries} {free0 free V : List Nat}

section

variable (h : Filled c cr3 E0 free0 V s E free)
include h

theorem Filled.ne_zero {p : Nat} (hp : p ∈ V) : E 3 p ≠ 0 := by
  intro hzero
  have hpresent := h.present p hp
  rw [hzero] at hpresent
  cases hpresent

/-- A table that was there before is not emptied: it has an entry that leads to a page outside the
range, or to a huge page. -/
theorem Filled.not_emptied (hclean : ∀ p ∈ V, CleanPath c E0 p) (hzero : ∀ p ∈ V, E0 3 p = 0)
    (hfull : ∀ d < 3, ∀ k, k / 512 ^ d < 512 → child (E0 d k) ≠ none →
      ∃ k', k' / 512 = k ∧ E0 (d + 1) k' ≠ 0) (hd : d ≤ 3) (hk : k / 512 ^ d < 512)
    (hne : E0 d k ≠ 0) : ¬ Emptied 3 E (· ∈ V) d k := by
  -- the induction goes down from the entry, as long as the way leads to the range
  induction hn : 3 - d generalizing d k with
  | zero =>
    obtain rfl : d = 3 := by omega
    intro hempty
    exact hne (hzero k (emptied_leaf_iff.1 hempty).1)
  | succ n ih =>
    have hlt : d < 3 := by omega
    intro hempty
    obtain ⟨p, hp, -, rfl⟩ := hempty.1
    obtain ⟨t, hpoints, -⟩ := (hclean p hp d hlt).resolve_left hne
    obtain ⟨k', hk', hne'⟩ :=
      hfull d hlt _ hk (by rw [hpoints.child_eq]; exact Option.some_ne_none t)
    have hstays : E (d + 1) k' ≠ 0 := by
      by_cases hlast : d + 1 = 3
      · rw [hlast] at hne' ⊢
        rwa [h.leaf k' fun hmem => hne' (hzero k' hmem)]
      · exact (h.old (d + 1) (by omega) k' hne').1
    rw [← hk'] at hempty
    refine ih hlt ?_ hne' (by omega) (hempty.below hlt hstays)
    rwa [← div_path, hk']

/-- A table that was made is emptied. -/
theorem Filled.emptied (hher : Hereditary (· < 512) 3 E0) (hd : d < 3) (hk : k / 512 ^ d < 512)
    (hzero : E0 d k = 0) (hne : E d k ≠ 0) : Emptied 3 E (· ∈ V) d k := by
  obtain ⟨p, hp, hpk⟩ := h.new d hd k hzero hne
  refine ⟨⟨p, hp, h.ne_zero hp, hpk⟩, fun d' hlt hle k' hk' hne' => ?_⟩
  have hregion : k' / 512 ^ d' < 512 := by
    rwa [← hk', Nat.div_div_eq_div_mul, ← Nat.pow_add, Nat.sub_add_cancel hlt.le] at hk
  have hzero' : E0 d' k' = 0 := hher.below hlt.le hle hregion (by rw [hk']; exact hzero)
  by_cases hlast : d' = 3
  · subst hlast
    have hmem : k' ∈ V := by
      by_contra hout
      exact hne' ((h.leaf k' hout).trans hzero')
    exact ⟨k', hmem, hne', by rw [Nat.sub_self, Nat.pow_zero, Nat.div_one]⟩
  · obtain ⟨q, hq, hqk⟩ := h.new d' (by omega) k' hzero' hne'
    exact ⟨q, hq, h.ne_zero hq, hqk⟩

/-- The start of the unmapping of a page map that was filled; nothing is said about the free
list. -/
abbrev filledStart (c : Cpu) (cr3 : Nat) (s : Pmm) (E : Entries) : Start :=
  ⟨c, cr3, (· < 512), s, E, ∅, False⟩

/-- The frame of a page mapped may be given back: it was free, and is not a table. -/
theorem Filled.returnable (hstock : Stock cr3 (· < 512) s0 E0 free0) (hnull : 0 ∉ free0) {p : Nat}
    (hp : p ∈ V) (hcommitted : committed (E 3 p) = true) :
    Returnable (filledStart c cr3 s E) (c.rawPtr (E 3 p)) := by
  obtain ⟨tables, hperm, htables⟩ := h.taken
  have hmem : c.rawPtr (E 3 p) ∈ V.flatMap fun p => c.frames (E 3 p) :=
    mem_flatMap.2 ⟨p, hp, mem_frames.2 ⟨hcommitted, rfl⟩⟩
  have hfree := hperm.mem_iff.1 (mem_append_left _ hmem)
  refine ⟨fun he => hnull (he ▸ hfree), fun he => ?_, ?_, False.elim⟩
  · change c.rawPtr (E 3 p) = cr3 at he
    exact hstock.root (he ▸ hfree)
  · rintro ⟨d, hd, k, hk, hchild⟩
    by_cases hzero : E0 d k = 0
    · have htable := (htables _).2 ⟨d, hd, k, hzero, hchild⟩
      have hdisjoint := (nodup_append.1 (hperm.nodup_iff.2 hstock.nodup)).2.2
      exact hdisjoint _ hmem _ (mem_append_left _ htable) rfl
    · rw [(h.old d hd k hzero).2] at hchild
      exact hstock.dead _ hfree ⟨d, hd, k, hk, hchild⟩

theorem Filled.valid (hc : c.physAddrBits ≤ 51) : (filledStart c cr3 s E).Valid := by
  obtain ⟨used, hready⟩ := h.ready
  obtain ⟨-, hne, hdead⟩ :=
    hready.pool.resolve_left (by rw [h.stock.unlocked]; exact Bool.false_ne_true)
  exact ⟨hc, hready.tree, hready.cr3_le, hne, hdead, False.elim, False.elim⟩

theorem Filled.held : Held (filledStart c cr3 s E) ⟨s, []⟩ E := by
  obtain ⟨used, hready⟩ := h.ready
  exact Ready.held (x := filledStart c cr3 s E) hready h.stock.unlocked False.elim

end

/-- The pages are taken out, and what is given back is what was taken. -/
theorem Filled.restores {addrs : List Nat} (h : Filled c cr3 E0 free0 (addrs.map key) s E free)
    (hc : c.physAddrBits ≤ 51) (hnodup : (addrs.map key).Nodup)
    (hstock : Stock cr3 (· < 512) s0 E0 free0) (hnull : 0 ∉ free0)
    (hher : Hereditary (· < 512) 3 E0) (hclean : ∀ a ∈ addrs, CleanPath c E0 (key a))
    (hzero : ∀ a ∈ addrs, E0 3 (key a) = 0)
    (hfull : ∀ d < 3, ∀ k, k / 512 ^ d < 512 → child (E0 d k) ≠ none →
      ∃ k', k' / 512 = k ∧ E0 (d + 1) k' ≠ 0) {u : Unmapping}
    (hret : addrs.foldlM (freePage c cr3) ⟨s, []⟩ = some u) :
    (∀ page < 512 ^ 4, pageMap u.pmm cr3 3 page = E0 3 page) ∧ (u.freed ++ free).Perm free0 := by
  have hcleanV := forall_mem_map.2 hclean
  have hzeroV : ∀ p ∈ addrs.map key, E0 3 p = 0 := forall_mem_map.2 hzero
  have hmapped : ∀ a ∈ addrs, E 3 (key a) ≠ 0 := fun a ha => h.ne_zero (mem_map_of_mem ha)
  have hclosed : Closed (filledStart c cr3 s E) (addrs.map key) u := by
    refine (freeLoop_spec (h.valid hc) (fun a _ => key_region a)
      (fun a ha d hd => h.clean d hd _ (hclean a ha d hd))
      (fun a ha _ => h.returnable hstock hnull (mem_map_of_mem ha)) False.elim h.held rfl
      hret).resolve_left fun hbad => hbad.2 ⟨hnodup, hmapped⟩
  constructor
  · intro page hpage
    have hread := hclosed.held.tree.eq_entries 3 le_rfl page (by change page / 512 ^ 3 < 512; omega)
    rw [pageMap, ← hread]
    by_cases hp : page ∈ addrs.map key
    · rw [pruned_of_emptied (emptied_leaf_iff.2 ⟨hp, h.ne_zero hp⟩), hzeroV page hp]
    · rw [pruned_of_not_emptied fun hempty => hp (emptied_leaf_iff.1 hempty).1]
      exact h.leaf page hp
  · obtain ⟨tables, hperm, hmade⟩ := h.taken
    obtain ⟨gone, hfreed, hgone, hmem⟩ := hclosed.freed
    -- the tables emptied are the tables made
    have htables : gone.Perm tables := by
      have hsplit := (nodup_append.1 (hperm.nodup_iff.2 hstock.nodup)).2.1
      refine (perm_ext_iff_of_nodup hgone hsplit.of_append_left).2 fun t => ?_
      rw [hmem, hmade]
      constructor
      · rintro ⟨d, hd, k, hempty, hchild⟩
        refine ⟨d, hd, k, ?_, hchild⟩
        by_contra hne
        obtain ⟨p, hp, -, rfl⟩ := hempty.1
        refine h.not_emptied hcleanV hzeroV hfull hd.le ?_ hne hempty
        obtain ⟨a, -, rfl⟩ := mem_map.1 hp
        exact key_path a hd.le
      · rintro ⟨d, hd, k, hz, hchild⟩
        have hne : E d k ≠ 0 := fun he => by
          rw [he] at hchild
          cases hchild
        refine ⟨d, hd, k, h.emptied hher hd ?_ hz hne, hchild⟩
        obtain ⟨p, hp, rfl⟩ := h.new d hd k hz hne
        obtain ⟨a, -, rfl⟩ := mem_map.1 hp
        exact key_path a hd.le
    refine (hfreed.append_right free).trans (List.Perm.trans ?_ hperm)
    rw [append_assoc]
    exact (htables.append_right free).append_left _

end Restore

/-! ## The round trip -/

/-- A page map and an allocator. The tables are not shared, and none is physical page 0. The frames
on the free list are distinct frames of physical memory that are not part of the page map; there may
be none. -/
structure Stocked (c : Cpu) (s : Pmm) (cr3 : Nat) (xs : List Nat) : Prop where
  cpu : c.physAddrBits ≤ 51
  tree : Represents child s.mem cr3 (· < 512) 3 (pageMap s cr3)
  cr3_le : cr3 ≤ 2 ^ c.physAddrBits
  cr3_ne : cr3 ≠ 0
  null : ∀ b < 4096, s.mem b = 0
  null_dead : ¬ Live child (· < 512) 3 (pageMap s cr3) 0
  unlocked : s.locked = false
  nodes : s.nMemoryNodes ≠ 0
  list : FreeList s xs
  nodup : (freeFrames s xs).Nodup
  free : ∀ f ∈ freeFrames s xs, f < 2 ^ c.physAddrBits ∧ f ≠ cr3 ∧
    ¬ Live child (· < 512) 3 (pageMap s cr3) f

/-- The page maps and the allocators the statement is about. No table is empty, no huge page is
above a page of the range, and no page of it is mapped. The frames on the free list suffice for all
pages and tables. -/
structure Allocatable (c : Cpu) (s : Pmm) (cr3 : Nat) (addrs xs : List Nat) : Prop extends
    Stocked c s cr3 xs where
  full : ∀ t, Live child (· < 512) 3 (pageMap s cr3) t → isZeroPage s.mem t = false
  clean : ∀ a ∈ addrs, ∀ d < 3, Clean c d (pageMap s cr3 d (key a / 512 ^ (3 - d)))
  leaf : ∀ a ∈ addrs, pageMap s cr3 3 (key a) = 0 ∨ hasBit (pageMap s cr3 3 (key a)) 0 = true ∨
    hasBit (pageMap s cr3 3 (key a)) 10 = true
  unmapped : ∀ a ∈ addrs, pageAllocated c s.mem cr3 a = false
  enough : 4 * addrs.length ≤ (freeFrames s xs).length

/-- A range of pages from `base` on that does not start at address 0 and ends below the top of its
half of the address space. -/
structure InHalf (base nPages : Nat) : Prop where
  aligned : base % 4096 = 0
  ne_zero : base ≠ 0
  half : base + 4096 * nPages < 2 ^ 47 ∨
    (2 ^ 64 - 2 ^ 47 ≤ base ∧ base + 4096 * nPages < 2 ^ 64)

/-- A call of `VirtualAlloc` is answered with an error only for no page or for the kernel half of a
user process, and then `VirtualFree` is as well. Otherwise the two calls succeed, every leaf entry
is as it was, and the frames given back together with those left on the free list are those that
were on it. -/
def RoundTrip (c : Cpu) (fuel : Nat) (s : Pmm) (proc : Process) (base size : Nat)
    (flags : BitVec 64) (xs : List Nat) : Prop :=
  match virtualAlloc c fuel s proc base size flags with
  | none => False
  | some (.error _) =>
    (sizeToPages size = 0 ∨ 0xffff800000000000 < base ∧ proc.isUsermode = true) ∧
      ∃ e, virtualFree c s proc base size = some (.error e)
  | some (.ok (r, s')) => r = base ∧ ∃ u xs', virtualFree c s' proc base size = some (.ok u) ∧
      (∀ page < 512 ^ 4, pageMap u.pmm proc.cr3 3 page = pageMap s proc.cr3 3 page) ∧
      FreeList s' xs' ∧ (u.freed ++ freeFrames s' xs').Perm (freeFrames s xs)

section RoundTrip

variable {c : Cpu} {fuel cr3 base nPages size : Nat} {s : Pmm} {proc : Process}
  {addrs xs : List Nat} {flags : BitVec 64}

/-- The pages of the range, as both loops visit them. -/
theorem InHalf.pages (h : InHalf base nPages) : pagesBelow base nPages = pagesFrom base nPages ∧
    ((pagesFrom base nPages).map key).Nodup ∧ (pagesFrom base nPages).length = nPages ∧
    ∀ a ∈ pagesFrom base nPages, a % 4096 = 0 ∧ a < 2 ^ 64 := by
  obtain ⟨haligned, -, hhalf⟩ := h
  have hn : nPages % 2 ^ 52 = nPages := Nat.mod_eq_of_lt (by omega)
  have hend : (base + nPages * 4096) % 2 ^ 64 - base = nPages * 4096 := by omega
  have hpages : pagesFrom base nPages = (range nPages).map fun i => base + 4096 * i := by
    rw [pagesFrom, hn]
    refine map_congr_left fun i hi => Nat.mod_eq_of_lt ?_
    rw [mem_range] at hi
    omega
  refine ⟨?_, ?_, ?_, fun a ha => ?_⟩
  · rw [pagesBelow, hend, Nat.mul_div_cancel _ (by decide), hpages]
  · rw [hpages, map_map]
    refine List.Nodup.map_on (fun i hi j hj heq => ?_) nodup_range
    rw [mem_range] at hi hj
    simp only [Function.comp, key] at heq
    omega
  · rw [hpages, length_map, length_range]
  · obtain ⟨i, hi, rfl⟩ := mem_map.1 ha
    omega

theorem InHalf.valid (h : InHalf base nPages) : isValidAddress base = true := by
  obtain ⟨-, -, hhalf⟩ := h
  unfold isValidAddress
  simp only [Bool.or_eq_true, beq_iff_eq]
  omega

theorem InHalf.canAllocatePages_iff (h : InHalf base nPages) {m : Memory} :
    canAllocatePages c m cr3 base nPages = true ↔
      ∀ a ∈ pagesFrom base nPages, pageAllocated c m cr3 a = false := by
  obtain ⟨-, -, -, haddr⟩ := h.pages
  rw [canAllocatePages, pageOf_of_aligned h.aligned, all_eq_true]
  refine forall₂_congr fun a ha => ?_
  rw [pagesAllocated_one (haddr a ha).1 (haddr a ha).2, Bool.not_eq_true']

section

variable (h : Stocked c s cr3 xs)
include h

theorem Stocked.stock : Stock cr3 (· < 512) s (pageMap s cr3) (freeFrames s xs) :=
  ⟨h.unlocked, h.nodes, ⟨xs, h.list, .refl _⟩, h.nodup, fun hmem => (h.free _ hmem).2.1 rfl,
    fun f hf => (h.free f hf).2.2⟩

theorem Stocked.ready : Ready c cr3 (· < 512) s (pageMap s cr3) {f | f ∉ freeFrames s xs} := by
  refine ⟨h.tree, h.cr3_le, h.stock.root, fun t hlive hmem => (h.free t hmem).2.2 hlive,
    .inr ⟨⟨h.unlocked, ⟨xs, h.list, h.nodup.of_map _, fun p hp => ?_⟩,
    null_notMem_freeFrames h.list, h.null⟩, h.cr3_ne, h.null_dead⟩⟩
  have hmem : 4096 * p ∈ freeFrames s xs := mem_map_of_mem hp
  exact ⟨(h.free _ hmem).1, fun hnot => hnot hmem⟩

end

section

variable (h : Allocatable c s cr3 addrs xs)
include h

theorem Allocatable.leaf_zero {a : Nat} (ha : a ∈ addrs) : pageMap s cr3 3 (key a) = 0 := by
  have hiff := pageAllocated_iff_of_clean h.tree h.cr3_le h.null_dead (key_region a) (h.clean a ha)
    (h.leaf a ha)
  rw [h.unmapped a ha] at hiff
  by_contra hne
  exact Bool.false_ne_true (hiff.2 hne)

/-- Every table has an entry. -/
theorem Allocatable.entry : ∀ d < 3, ∀ k, k / 512 ^ d < 512 → child (pageMap s cr3 d k) ≠ none →
      ∃ k', k' / 512 = k ∧ pageMap s cr3 (d + 1) k' ≠ 0 := by
  intro d hd k hk hchild
  obtain ⟨t, ht⟩ := Option.ne_none_iff_exists'.1 hchild
  have hword : ∃ i < 512, s.mem.load64 (t + 8 * i) ≠ 0 := by
    by_contra hnone
    push Not at hnone
    have hzero := isZeroPage_iff.2 hnone
    rw [h.full t ⟨d, hd, k, hk, ht⟩] at hzero
    cases hzero
  obtain ⟨i, hi, hne⟩ := hword
  have hpath : (512 * k + i) / 512 = k := by omega
  refine ⟨512 * k + i, hpath, ?_⟩
  rwa [pageMap, entries, hpath, ht, wordAt, show (512 * k + i) % 512 = i by omega]

end

/-- `VirtualAlloc` of a range in which nothing is mapped, followed by `VirtualFree` of the same
range, restores all leaf entries, and what was taken from the free list is given back. -/
theorem virtualAlloc_virtualFree_restores (hfuel : 0 < fuel)
    (hrange : InHalf base (sizeToPages size))
    (h : Allocatable c s proc.cr3 (pagesFrom base (sizeToPages size)) xs) :
    RoundTrip c fuel s proc base size flags xs := by
  obtain ⟨hbelow, hnodup, hlength, -⟩ := hrange.pages
  have hpage := pageOf_of_aligned hrange.aligned
  have hbase : allocBase c s.mem proc base (sizeToPages size) = base := by
    rw [allocBase, hpage, if_neg hrange.ne_zero]
  have hfree (s' : Pmm) : virtualFree c s' proc base size =
      procVirtualFree c s' proc base (sizeToPages size) := by
    rw [virtualFree, hpage, if_neg hrange.ne_zero]
  have hvalid : ¬ (!isValidAddress base) = true := by rw [hrange.valid]; exact Bool.false_ne_true
  have hcan := hrange.canAllocatePages_iff.2 h.unmapped
  unfold RoundTrip
  rw [virtualAlloc, hpage, if_neg hvalid]
  by_cases hsize : sizeToPages size = 0
  · rw [if_pos hsize]
    refine ⟨.inl hsize, ?_⟩
    rw [hfree, procVirtualFree, if_neg hvalid]
    split
    · exact ⟨_, rfl⟩
    · exact ⟨_, rfl⟩
  rw [if_neg hsize, hbase, if_neg hrange.ne_zero, procVirtualAlloc, if_neg hvalid]
  by_cases huser : (decide (0xffff800000000000 < base) && proc.isUsermode) = true
  · rw [if_pos huser]
    refine ⟨.inr (by simpa using huser), ?_⟩
    rw [hfree, procVirtualFree, if_neg hvalid, if_pos huser]
    exact ⟨_, rfl⟩
  rw [if_neg huser, hcan, hbelow]
  obtain ⟨s', E, free, hloop, hfilled⟩ := allocLoop_filled h.cpu hfuel hnodup h.clean h.enough
    (Filled.nil h.ready h.stock) (flags &&& protAllBitsSet)
  rw [hloop]
  refine ⟨rfl, ?_⟩
  obtain ⟨u, hunmap⟩ := freeLoop_returns c proc.cr3 hfilled.stock.unlocked
    (pagesFrom base (sizeToPages size))
  obtain ⟨xs', hlist, hperm⟩ := hfilled.stock.list
  obtain ⟨hleaf, hfreed⟩ := hfilled.restores h.cpu hnodup h.stock (null_notMem_freeFrames h.list)
    (h.tree.hereditary child_zero) h.clean (fun a ha => h.leaf_zero ha) h.entry hunmap
  refine ⟨u, xs', ?_, hleaf, hlist, (hperm.append_left _).trans hfreed⟩
  have hmapped : ¬ canAllocatePages c s'.mem proc.cr3 base (sizeToPages size) = true := by
    rw [hrange.canAllocatePages_iff]
    intro hnone
    obtain ⟨a, ha⟩ := exists_mem_of_length_pos
      (show 0 < (pagesFrom base (sizeToPages size)).length by omega)
    have hstart := hfilled.valid h.cpu
    have hiff := pageAllocated_iff_of_clean hstart.tree hstart.cr3_le hstart.table_ne (key_region a)
      (fun d hd => hfilled.clean d hd _ (h.clean a ha d hd))
      (.inr (.inl (hfilled.present _ (mem_map_of_mem ha))))
    rw [hnone a ha] at hiff
    exact Bool.false_ne_true (hiff.2 (hfilled.ne_zero (mem_map_of_mem ha)))
  rw [hfree, procVirtualFree, if_neg hvalid, if_neg huser, if_neg hmapped, hpage, hunmap]
  rfl

/-- The page map with one page, and an allocator with eight free frames behind it. -/
def spareFrames : Pmm := ⟨onePageMapped.storeNat 0x10010 8, 0x10000, 0x10000, 1, false, true⟩

/-- The tables of a page map with one page are in front of the free frames. -/
theorem stocked_onePage {words : List (Nat × BitVec 64)} {page : Nat} {leaf : BitVec 64}
    (h : Surveyed child words 0x1000 (· < 512) 3 (onePageSurvey page leaf))
    (hmem : s.mem = .ofWords words) (hlock : s.locked = false) (hnodes : s.nMemoryNodes ≠ 0)
    (hlist : FreeList s xs) (hnodup : (freeFrames s xs).Nodup)
    (hframes : ∀ f ∈ freeFrames s xs, 0x10000 ≤ f ∧ f < 2 ^ 36) : Stocked smallCpu s 0x1000 xs := by
  obtain ⟨htree, hnull, hlive, -⟩ := onePage_spec h fun _ h => h
  rw [← hmem] at htree hnull hlive
  refine ⟨by decide, htree, by decide, by decide, hnull, fun ht => ?_, hlock, hnodes, hlist, hnodup,
    fun f hf => ?_⟩
  · have := hlive 0 ht
    omega
  · obtain ⟨hlo, hhi⟩ := hframes f hf
    refine ⟨hhi, by omega, fun ht => ?_⟩
    have := hlive f ht
    omega

/-- A page of another table can be mapped there. -/
theorem allocatable_spareFrames : Allocatable smallCpu spareFrames 0x1000 [0x200000] [0x10000] := by
  have hsurvey : Surveyed child (onePageWords 5 0x9007 ++ [(0x10010, 8)]) 0x1000 (· < 512) 3
      (onePageSurvey 5 0x9007) := by decide
  have hlist : FreeList spareFrames [0x10000] :=
    ⟨⟨.cons_cons ⟨rfl, by decide⟩ (.cons_cons ⟨by decide, rfl⟩ (.singleton _)), nodup_singleton _,
      by decide⟩, by decide, by decide, by decide⟩
  obtain ⟨-, -, hlive, hclean, -⟩ := onePage_spec hsurvey fun _ h => h
  refine ⟨stocked_onePage hsurvey rfl rfl (by decide) hlist (by decide) (by decide),
    fun t ht => ?_, fun a ha d hd => (hclean d hd _ (key_path a hd.le)).1, fun a ha => ?_,
    fun a ha => ?_, by decide⟩
  · have hword : ∃ i < 512, spareFrames.mem.load64 (t + 8 * i) ≠ 0 := by
      rcases hlive t ht with rfl | rfl | rfl
      · exact ⟨0, by decide, by decide⟩
      · exact ⟨0, by decide, by decide⟩
      · exact ⟨5, by decide, by decide⟩
    obtain ⟨i, hi, hne⟩ := hword
    exact Bool.eq_false_of_not_eq_true fun hzero => hne (isZeroPage_iff.1 hzero i hi)
  · rw [mem_singleton.1 ha]
    exact .inl (by decide)
  · rw [mem_singleton.1 ha]
    decide +kernel

/-- Mapping and unmapping one page, which needs a frame and a table. -/
theorem virtualAlloc_virtualFree_restores_spareFrames :
    (∃ r, virtualAlloc smallCpu 1 spareFrames ⟨0x1000, true⟩ 0x200000 0x1000 protNoCowOnAllocate =
      some (.ok r)) ∧
    RoundTrip smallCpu 1 spareFrames ⟨0x1000, true⟩ 0x200000 0x1000 protNoCowOnAllocate
      [0x10000] := by
  have htrip := @virtualAlloc_virtualFree_restores smallCpu 1 0x200000 0x1000 spareFrames
    ⟨0x1000, true⟩ [0x10000] protNoCowOnAllocate (by decide)
    ⟨by decide, by decide, .inl (by decide)⟩ allocatable_spareFrames
  refine ⟨?_, htrip⟩
  unfold RoundTrip at htrip
  split at htrip
  · cases htrip
  · exact absurd htrip.1 (by decide)
  · rename_i hok
    exact ⟨_, hok⟩

end RoundTrip

end Obos.Paging
