import Obos.Paging.Fault
import Obos.Paging.Memcpy
import Obos.Paging.RoundTrip

/-!
# Demand paging

A page that was mapped without a frame gets one at its first protection fault:
`exception14` takes a frame, copies the page into it, takes the page out of the page
map and maps it again. Taking it out gives back the tables that are left empty, which
the mapping then makes again; the frames for them are those given back
(`Ready.refill`). `exception14_commits_iff` says that the page then is as if it had been
given a frame when it was mapped, if there is a free frame and the CPU knows the bit
that disables execution.
-/

namespace Obos.Paging

open Lib Lib.TableTree Physical List Option

/-! ## Pages the CPU finds -/

/-- The entries above a page, and its leaf. -/
def path (E : Entries) (page : Nat) : List (BitVec 64) :=
  [E 0 (page / 512 ^ 3), E 1 (page / 512 ^ 2), E 2 (page / 512), E 3 page]

/-- The entries to a page let an access through. -/
def Cpu.allows (c : Cpu) (k : AccessKind) (E : Entries) (page : Nat) : Bool :=
  (path E page).all fun entry => k.permits entry && !c.reserves entry

/-- A page of a page map that the CPU finds: the entries above it lead to tables, and its leaf is
present. -/
structure Found (c : Cpu) (m : Memory) (cr3 : Nat) (R : Nat → Prop) (E : Entries) (page : Nat) :
    Prop where
  tree : Represents child m cr3 R 3 E
  cr3_le : cr3 ≤ 2 ^ c.physAddrBits
  null_dead : ¬ Live child R 3 E 0
  region : R (page / 512 ^ 3)
  clean : ∀ d < 3, Clean c d (E d (page / 512 ^ (3 - d)))
  present : hasBit (E 3 page) 0 = true

section Found

variable {c : Cpu} {cr3 addr f : Nat} {R : Nat → Prop} {s : Pmm} {m : Memory} {E : Entries}
  {used : Set Nat}

theorem Found.mapped {page : Nat} (h : Found c m cr3 R E page) : E 3 page ≠ 0 := by
  intro hzero
  have hpresent := h.present
  rw [hzero] at hpresent
  simp at hpresent

theorem Found.table {page d : Nat} (h : Found c m cr3 R E page) (hd : d < 3) :
    ∃ t, PointsTo c (E d (page / 512 ^ (3 - d))) t :=
  ((h.clean d hd).resolve_left
    ((h.tree.hereditary child_zero).path_ne_zero hd.le h.region h.mapped)).imp fun _ ht => ht.1

variable (h : Found c m cr3 R E (key addr))
include h

/-- The CPU passes the entries of the path. -/
theorem Found.entriesTo : Paging.entriesTo c m cr3 addr =
      some (path E (key addr), frame (E 3 (key addr)) + addr % 4096) := by
  obtain ⟨t0, h0⟩ := h.table (d := 0) (by decide)
  obtain ⟨t1, h1⟩ := h.table (d := 1) (by decide)
  obtain ⟨t2, h2⟩ := h.table (d := 2) (by decide)
  have hbit0 := h0.bits.1
  have hbit1 := h1.bits.1
  have hhuge1 := h1.bits.2
  have hbit2 : hasBit (E 2 (key addr / 512)) 0 = true := h2.bits.1
  have hhuge2 : hasBit (E 2 (key addr / 512)) 7 = false := h2.bits.2
  have hclean := h.clean
  simp only [Paging.entriesTo, getL4PageMapEntryAt_eq h.tree h.cr3_le h.region,
    getL3PageMapEntryAt_eq h.tree h.cr3_le h.region (hclean 0 (by decide)),
    getL2PageMapEntryAt_eq h.tree h.cr3_le h.region (hclean 0 (by decide)) (hclean 1 (by decide)),
    getL1PageMapEntryAt_of_clean h.tree h.cr3_le h.region h.null_dead hclean, hbit0, hbit1, hhuge1,
    hbit2, hhuge2, h.present]
  rfl

theorem Found.access (k : AccessKind) :
    Paging.access c m cr3 k addr = if c.allows k E (key addr) then
      .ok (frame (E 3 (key addr)) + addr % 4096) else .error .protection := by
  rw [Paging.access, h.entriesTo]
  rfl

theorem Found.getL1 : getL1PageMapEntryAt c m cr3 addr = E 3 (key addr) :=
  getL1PageMapEntryAt_of_clean h.tree h.cr3_le h.region h.null_dead h.clean

omit h in
theorem allows_kernelRead (hc : c.executeDisable = true) (E : Entries) (page : Nat) :
    c.allows kernelRead E page = true := by
  simp [Cpu.allows, AccessKind.permits, kernelRead, Cpu.reserves, hc]

/-- An access to a byte of the page. -/
theorem Found.access_add (haligned : addr % 4096 = 0) {i : Nat} (hi : i < 4096) (k : AccessKind) :
    Paging.access c m cr3 k (addr + i) = if c.allows k E (key addr) then
      .ok (frame (E 3 (key addr)) + i) else .error .protection := by
  have hkey := key_add haligned hi
  have hfound := hkey ▸ h
  rw [hfound.access, hkey, show (addr + i) % 4096 = i by omega]

/-- The byte the kernel reads on the page. -/
theorem Found.byteAt (hc : c.executeDisable = true) (haligned : addr % 4096 = 0) {i : Nat}
    (hi : i < 4096) : Paging.byteAt c m cr3 (addr + i) = .ok (m (frame (E 3 (key addr)) + i)) := by
  rw [Paging.byteAt, h.access_add haligned hi, if_pos (allows_kernelRead hc _ _)]
  rfl

omit h in
/-- A page of the kernel's own address space is copied to a frame that holds other data. -/
theorem Ready.copyToFrame (hready : Ready c cr3 R s E used) (h : Found c s.mem cr3 R E (key addr))
    (haligned : addr % 4096 = 0) (hlt : addr < 2 ^ 64) (hf : DataFrame cr3 R E used f)
    (hsrc : frame (E 3 (key addr)) ≠ f) (hread : c.allows kernelRead E (key addr) = true) :
    ∃ m, Paging.copyToFrame c cr3 f addr 4096 s.mem = some m ∧
      (∀ b, frameAt b ≠ f → m b = s.mem b) ∧
      ∀ i < 4096, m (f + i) = s.mem (frame (E 3 (key addr)) + i) := by
  have hframe := frame_aligned (E 3 (key addr))
  obtain ⟨m, hret, hsame, hcopied⟩ : ∃ m, Paging.copyToFrame c cr3 f addr 4096 s.mem = some m ∧
      (∀ b, frameAt b ≠ f → m b = s.mem b) ∧
      ∀ i ∈ range 4096, m (f + i) = s.mem (frame (E 3 (key addr)) + i) := by
    refine foldlM_returns (fun done (m : Memory) => (∀ b, frameAt b ≠ f → m b = s.mem b) ∧
      ∀ i ∈ done, m (f + i) = s.mem (frame (E 3 (key addr)) + i))
      ⟨fun _ _ => rfl, fun _ hi => absurd hi not_mem_nil⟩ ?_
    intro done i rest m1 hsplit hinv
    obtain ⟨hsame, hcopied⟩ := hinv
    have hi : i < 4096 := mem_range.1 (hsplit ▸ by simp)
    have hfound := { h with tree := (hready.write hf hsame).tree }
    have hok : Paging.access c m1 cr3 kernelRead ((addr + i) % 2 ^ 64) =
        .ok (frame (E 3 (key addr)) + i) := by
      rw [Nat.mod_eq_of_lt (by omega), hfound.access_add haligned hi, if_pos hread]
    have hother : frameAt (frame (E 3 (key addr)) + i) ≠ f := by
      rwa [frameAt_add hframe hi]
    refine ⟨Function.update m1 (f + i) (m1 (frame (E 3 (key addr)) + i)), by simp only [hok],
      fun b hb => ?_, fun j hj => ?_⟩
    · rw [Function.update_of_ne, hsame b hb]
      rintro rfl
      exact hb (frameAt_add hf.aligned hi)
    · by_cases heq : j = i
      · rw [heq, Function.update_self, hsame _ hother]
      · have hj' := (mem_append.1 hj).resolve_right fun hlast =>
          heq (mem_singleton.1 hlast)
        rw [Function.update_of_ne (by omega)]
        exact hcopied j hj'
  exact ⟨m, hret, hsame, fun i hi => hcopied i (mem_range.2 hi)⟩

/-- A page that is copied to the frame it is read from stays as it is. -/
theorem Found.copyToFrame_self (haligned : addr % 4096 = 0) (hlt : addr < 2 ^ 64)
    (hf : frame (E 3 (key addr)) = f) (hread : c.allows kernelRead E (key addr) = true) :
    Paging.copyToFrame c cr3 f addr 4096 m = some m := by
  obtain ⟨m', hret, rfl⟩ : ∃ m', Paging.copyToFrame c cr3 f addr 4096 m = some m' ∧ m' = m := by
    refine foldlM_returns (fun _ m' => m' = m) rfl ?_
    intro done i rest m1 hsplit hinv
    subst hinv
    have hi : i < 4096 := mem_range.1 (hsplit ▸ by simp)
    have hok : Paging.access c m1 cr3 kernelRead ((addr + i) % 2 ^ 64) = .ok (f + i) := by
      rw [Nat.mod_eq_of_lt (by omega), h.access_add haligned hi, if_pos hread, hf]
    refine ⟨m1, ?_, rfl⟩
    simp only [hok, Function.update_eq_self]
  exact hret

/-- A page that the kernel cannot read is not copied. -/
theorem Found.copyToFrame_eq_none (hlt : addr < 2 ^ 64)
    (hread : c.allows kernelRead E (key addr) = false) :
    Paging.copyToFrame c cr3 f addr 4096 m = none := by
  have hfault : Paging.access c m cr3 kernelRead ((addr + 0) % 2 ^ 64) = .error .protection := by
    rw [Nat.add_zero, Nat.mod_eq_of_lt hlt, h.access, hread]
    rfl
  rw [Paging.copyToFrame, range_succ_eq_map, foldlM_cons, hfault]
  rfl

end Found

/-! ## Taking a page out and mapping it again -/

section Refill

variable {c : Cpu} {cr3 addr fuel : Nat} {R : Nat → Prop} {s s' : Pmm} {E : Entries}
  {used : Set Nat} {v : BitVec 64}

/-- The frames a pool can still hand out. -/
theorem Ready.stock (h : Ready c cr3 R s E used) (hlock : s.locked = false)
    (hnodes : s.nMemoryNodes ≠ 0) {xs : List Nat} (hlist : FreeList s xs) :
    Stock cr3 R s E (freeFrames s xs) ∧ ∀ f ∈ freeFrames s xs, f ∉ used := by
  obtain ⟨hpool, -, -⟩ := h.pool.resolve_left (by rw [hlock]; exact Bool.false_ne_true)
  obtain ⟨ys, hys, hnodup, hfree⟩ := hpool.free
  obtain rfl := hlist.list.unique hys.list
  have hunused : ∀ f ∈ freeFrames s xs, f ∉ used := by
    intro f hf
    obtain ⟨p, hp, rfl⟩ := mem_map.1 hf
    exact (hfree p hp).2
  exact ⟨⟨hlock, hnodes, ⟨xs, hlist, .refl _⟩, hnodup.map fun a b hab => by omega,
    fun hr => hunused _ hr h.cr3_used, fun f hf hl => hunused f hf (h.live_used f hl)⟩, hunused⟩

theorem missingTables_eq_length (E : Entries) (page : Nat) : missingTables E page =
    ((range 3).filter fun d => E d (page / 512 ^ (3 - d)) = 0).length := by
  rw [missingTables, show range 3 = [0, 1, 2] from rfl]
  split <;> split <;> split <;> simp_all

/-- The tables that a page leaves empty are as many as are missing when it is mapped again. -/
theorem missingTables_pruned (hready : Ready c cr3 R s E used) {page : Nat}
    (h : Found c s.mem cr3 R E page) {tables : List Nat}
    (htables : ∀ t, t ∈ tables ↔ ∃ d < 3, Emptied 3 E (plus (fun _ => False) page) d
      (page / 512 ^ (3 - d)) ∧ child (E d (page / 512 ^ (3 - d))) = some t) :
    missingTables (pruned 3 E (plus (fun _ => False) page)) page ≤ tables.length := by
  choose! T hT using fun d (hd : d < 3) => h.table hd
  have hmissing {d : Nat} (hd : d < 3) :
      pruned 3 E (plus (fun _ => False) page) d (page / 512 ^ (3 - d)) = 0 → T d ∈ tables := by
    intro hzero
    refine (htables _).2 ⟨d, hd, ?_, (hT d hd).child_eq⟩
    exact (pruned_eq_zero_iff.1 hzero).resolve_left (hT d hd).ne_zero
  have hinj (d d' : Nat) (hd : d < 3) (hd' : d' < 3) (hne : d ≠ d') : T d ≠ T d' := fun heq =>
    hne (hready.tree.inj d hd _ (region_path h.region hd.le) d' hd' _ (region_path h.region hd'.le)
      (T d) (hT d hd).child_eq (heq ▸ (hT d' hd').child_eq)).1
  rw [missingTables_eq_length, ← length_map (f := T)]
  refine (List.Nodup.subperm ?_ fun t ht => ?_).length_le
  · refine List.Nodup.map_on (fun d hd d' hd' heq => ?_) (nodup_range.filter _)
    by_contra hne
    exact hinj d d' (mem_range.1 (mem_filter.1 hd).1) (mem_range.1 (mem_filter.1 hd').1) hne heq
  · obtain ⟨d, hd, rfl⟩ := mem_map.1 ht
    rw [mem_filter, mem_range, decide_eq_true_eq] at hd
    exact hmissing hd.1 hd.2

/-- A walk along tables that are all there makes no tables. -/
theorem Walked.live_of_present {E' : Entries} {page t : Nat} (h : Walked c E E' page)
    (hne : ∀ d < 3, E d (page / 512 ^ (3 - d)) ≠ 0) (ht : Live child R 3 E' t) :
    Live child R 3 E t := by
  obtain ⟨d, hd, k, hk, hchild⟩ := ht
  refine ⟨d, hd, k, hk, ?_⟩
  by_cases hpath : k = page / 512 ^ (3 - d)
  · rw [← (child_eq_of_keepsTable (h.keep hd) (hpath ▸ hne d hd)).2, hchild]
  · rw [← h.other d hd k hpath, hchild]

/-- What `MapEntry` does to the page map. -/
theorem Ready.mapEntry (hc : c.physAddrBits ≤ 51) (h : Ready c cr3 R s E used)
    (hR : R (key addr / 512 ^ 3)) (hclean : CleanPath c E (key addr)) (hpresent : hasBit v 0 = true)
    (hret : Paging.mapEntry c fuel s cr3 v addr = some s') :
    ∃ E' used', Ready c cr3 R s' (set E' 3 (key addr) v) used' ∧
      Grown cr3 R s E used s' (set E' 3 (key addr) v) used' ∧
      Opened c E E' (key addr) (v &&& 0x800000000000003F) := by
  simp only [Paging.mapEntry, bind, bind_eq_some_iff] at hret
  obtain ⟨⟨t, s1⟩, halloc, hs⟩ := hret
  cases hs
  obtain ⟨E', used', hready', hgrown, hopened, htable, -⟩ :=
    allocatePagingStructures_spec (by omega) h hR hclean (tableFlags_entry hpresent) halloc
  obtain ⟨hstored, hlast⟩ := hready'.storeLeaf hR htable v
  rw [addressToIndex_zero]
  exact ⟨E', used', hstored, hgrown.trans hlast, hopened⟩

/-- Giving frames back does not make the allocator one without nodes. -/
theorem nMemoryNodes_of_unmapAddress (h : Paging.unmapAddress c s cr3 addr = some s')
    (hnodes : s.nMemoryNodes ≠ 0) : s'.nMemoryNodes ≠ 0 := by
  simp only [Paging.unmapAddress, map_eq_some_iff] at h
  obtain ⟨u, hfree, rfl⟩ := h
  have hrelease (u : Unmapping) (f : Nat) (u' : Unmapping) (_ : u.pmm.nMemoryNodes ≠ 0)
      (hret : u.release f = some u') : u'.pmm.nMemoryNodes ≠ 0 := by
    obtain ⟨-, rfl⟩ := release_eq_some.1 hret
    exact Nat.succ_ne_zero _
  exact freePagingStructures_preserves (fun u => u.pmm.nMemoryNodes ≠ 0) (fun _ _ hne => hne)
    hrelease hnodes hfree

/-- A page was mapped again: it is found with the leaf `v`, the entries above it have the rights of
the leaf, and the other pages are found as before. -/
structure Replaced (c : Cpu) (cr3 : Nat) (R : Nat → Prop) (E : Entries) (page : Nat) (m' : Memory)
    (E' : Entries) (v : BitVec 64) : Prop where
  found : Found c m' cr3 R E' page
  leaf : E' 3 page = v
  rights : ∀ d < 3, Widened (v &&& 0x800000000000003F) (E' d (page / 512 ^ (3 - d)))
  other : ∀ p ≠ page, R (p / 512 ^ 3) → walk E' p = walk E p

/-- A page that was taken out is mapped again; `E₁` is the page map without it. -/
theorem Found.replaced {E1 E' : Entries} {m m' : Memory} (h : Found c m cr3 R E (key addr))
    (hwalk : ∀ p ≠ key addr, walk E1 p = walk E p) (hher : Hereditary R 3 E1)
    (hclean : CleanPath c E1 (key addr))
    (hopened : Opened c E1 E' (key addr) (v &&& 0x800000000000003F))
    (htree : Represents child m' cr3 R 3 (set E' 3 (key addr) v))
    (hdead : ¬ Live child R 3 (set E' 3 (key addr) v) 0) (hpresent : hasBit v 0 = true) :
    Replaced c cr3 R E (key addr) m' (set E' 3 (key addr) v) v := by
  have htable {d k : Nat} (hd : d < 3) : set E' 3 (key addr) v d k = E' d k := set_other (by omega)
  refine ⟨⟨htree, h.cr3_le, hdead, h.region, fun d hd => ?_, ?_⟩, set_same .., fun d hd => ?_,
    fun p hp hR => ?_⟩
  · rw [htable hd]
    exact clean_of_keepsTable (hopened.keep hd) (hclean d hd)
  · rwa [set_same]
  · rw [htable hd]
    exact hopened.rights d hd
  · calc walk (set E' 3 (key addr) v) p = walk E' p :=
          walk_congr (fun d hd => .inl (htable hd)) (set_other fun hn => hp hn.2)
      _ = walk E1 p := hopened.walk_eq hher hR hclean
      _ = walk E p := hwalk p hp

/-- The pages that stay when one is taken out. -/
theorem Found.walk_pruned {m : Memory} (h : Found c m cr3 R E (key addr)) :
    ∀ p ≠ key addr, walk (pruned 3 E (plus (fun _ => False) (key addr))) p = walk E p := by
  intro p hp
  have hone : plus (fun _ => False) (key addr) = (· ∈ [key addr]) := by
    funext k
    simp [plus]
  have hclean : ∀ q ∈ [key addr], CleanPath c E q := by
    intro q hq
    rw [mem_singleton.1 hq]
    exact h.clean
  rw [hone]
  exact Paging.walk_pruned hclean fun hmem => hp (mem_singleton.1 hmem)

/-- A page that is taken out can be mapped again: the tables given back suffice for those that are
then missing. -/
theorem Ready.refill (hc : c.physAddrBits ≤ 51) (hready : Ready c cr3 R s E used)
    (h : Found c s.mem cr3 R E (key addr)) (hlock : s.locked = false)
    (hnodes : s.nMemoryNodes ≠ 0) (hlt : ∀ t, Live child R 3 E t → t < 2 ^ c.physAddrBits)
    (hfuel : 0 < fuel) (hpresent : hasBit v 0 = true) :
    ∃ s1 s2 E' used', Paging.unmapAddress c s cr3 addr = some s1 ∧
      Paging.mapEntry c fuel s1 cr3 v addr = some s2 ∧
      Replaced c cr3 R E (key addr) s2.mem E' v ∧ Pool (2 ^ c.physAddrBits) s2 used' ∧
      Reshaped cr3 R s E used s2 E' used' := by
  obtain ⟨u, u', hunmap, hnone, hgone⟩ := hready.unmapAddress hc hlock hlt h.region h.clean h.mapped
  obtain ⟨hready1, hreshaped1⟩ := hready.gone hlock h.region hnone hgone
  obtain ⟨tables, hfreed, hdistinct, htables⟩ := hgone.freed
  rw [hnone] at hfreed
  have hlock1 := hgone.held.unlocked
  have hclean1 : ∀ d < 3, Clean c d (pruned 3 E (plus (fun _ => False) (key addr)) d
      (key addr / 512 ^ (3 - d))) := fun d hd => clean_pruned (h.clean d hd)
  -- the frames given back are on the free list
  obtain ⟨hpool1, -, -⟩ := hready1.pool.resolve_left (by rw [hlock1]; exact Bool.false_ne_true)
  obtain ⟨xs, hlist, -, -⟩ := hpool1.free
  obtain ⟨hstock, -⟩ := hready1.stock hlock1 (nMemoryNodes_of_unmapAddress hunmap hnodes) hlist
  have hback : tables ⊆ freeFrames u'.pmm xs := by
    intro t ht
    have hreturned := hlist.onFreeList_iff.1 (hgone.held.returned trivial t (hfreed ▸ ht))
    obtain ⟨d, hd, -, hchild⟩ := (htables t).1 ht
    have haligned := hready.tree.aligned t ⟨d, hd, _, region_path h.region hd.le, hchild⟩
    have hmem := mem_map_of_mem (f := (4096 * ·)) hreturned
    rwa [Nat.mul_div_cancel' (Nat.dvd_of_mod_eq_zero haligned)] at hmem
  have henough := (missingTables_pruned hready h htables).trans (hdistinct.subperm hback).length_le
  obtain ⟨t, s2, E2, used2, free2, hwalk, -, hstock2, -⟩ := allocatePagingStructures_stock hc
    hready1 (fun _ => hstock) (fun _ => trivial) henough hfuel h.region hclean1
    (tableFlags_entry hpresent)
  have hmap : Paging.mapEntry c fuel u'.pmm cr3 v addr = some { s2 with
      mem := s2.mem.store64 (t + 8 * addressToIndex addr 0) v } := by
    simp only [Paging.mapEntry, bind, hwalk, bind_some]
  obtain ⟨E', used', hready', hgrown, hopened⟩ :=
    hready1.mapEntry hc h.region hclean1 hpresent hmap
  obtain ⟨hpool', -, hdead'⟩ :=
    hready'.pool.resolve_left (by rw [(hstock2 trivial).unlocked]; exact Bool.false_ne_true)
  exact ⟨u'.pmm, _, _, used', hunmap, hmap, h.replaced h.walk_pruned
    (hready1.tree.hereditary child_zero) hclean1 hopened hready'.tree hdead' hpresent, hpool',
    hreshaped1.trans (.of_grown hgrown)⟩

/-- A walk along tables that are all there returns, also if the allocator is locked. -/
theorem Ready.walk_present (hc : c.physAddrBits ≤ 51) (h : Ready c cr3 R s E used)
    (hdead : ¬ Live child R 3 E 0) (hR : R (key addr / 512 ^ 3))
    (htables : ∀ d < 3, ∃ t, PointsTo c (E d (key addr / 512 ^ (3 - d))) t) {flags : BitVec 64}
    (hflags : TableFlags flags) (hfuel : 0 < fuel) :
    ∃ t s', allocatePagingStructures c fuel s cr3 addr flags = some (t, s') := by
  choose! T hT using htables
  have hnone : missingTables E (key addr) = 0 := by
    have hT2 := (hT 2 (by decide)).ne_zero
    rw [show (3 - 2 : Nat) = 1 from rfl, Nat.pow_one] at hT2
    rw [missingTables, if_neg (hT 0 (by decide)).ne_zero, if_neg (hT 1 (by decide)).ne_zero,
      if_neg hT2]
  have hclean : CleanPath c E (key addr) := fun d hd => .inr ⟨T d, hT d hd, fun _ he =>
    hdead ⟨d, hd, _, region_path hR hd.le, he ▸ (hT d hd).child_eq⟩⟩
  obtain ⟨t, s', -, -, -, hret, -⟩ := allocatePagingStructures_stock hc h False.elim (absurd rfl)
    hnone.le hfuel hR hclean hflags
  exact ⟨t, s', hret⟩

end Refill

/-! ## The first fault -/

/-- The page maps and the allocators the statement is about. All tables are in physical memory. The
page has the entry of a demand-paged one, and no huge page is above it. -/
structure DemandPage (c : Cpu) (s : Pmm) (cr3 a : Nat) (flags : BitVec 64) (xs : List Nat) :
    Prop extends Stocked c s cr3 xs where
  table_lt : ∀ t, Live child (· < 512) 3 (pageMap s cr3) t → t < 2 ^ c.physAddrBits
  clean : ∀ d < 3, Clean c d (pageMap s cr3 d (key a / 512 ^ (3 - d)))
  leaf : pageMap s cr3 3 (key a) = demandPagingEntry (flags &&& protAllBitsSet)

/-- The page has the entry it would have been mapped with, had it been given a frame at once. The
frame was free and is not any more, the page shows what it showed before, and all other pages are
found as before. -/
structure CommittedAsAtOnce (c : Cpu) (fuel : Nat) (s : Pmm) (cr3 a : Nat) (flags : BitVec 64)
    (xs : List Nat) (s' : Pmm) (v : BitVec 64) : Prop where
  translation : walk (pageMap s' cr3) (key a) = some (3, v)
  entry : ∃ s1, allocEntry c fuel ((flags ||| protNoCowOnAllocate) &&& protAllBitsSet) s =
    some (v, s1)
  fresh : frame v ∈ freeFrames s xs
  taken : ∃ xs', FreeList s' xs' ∧ frame v ∉ freeFrames s' xs'
  contents : ∀ i < 4096, ∃ b, byteAt c s.mem cr3 (pageOf a + i) = .ok b ∧
    byteAt c s'.mem cr3 (pageOf a + i) = .ok b
  other : ∀ page < 512 ^ 4, page ≠ key a → walk (pageMap s' cr3) page = walk (pageMap s cr3) page

/-- The entry of the page with a frame. -/
def committedEntry (c : Cpu) (flags : BitVec 64) (f : Nat) : BitVec 64 :=
  BitVec.ofNat 64 f |||
    (decodeProtectionFlags c ((flags ||| protNoCowOnAllocate) &&& protAllBitsSet) ||| bit 0)

section FirstFault

variable {c : Cpu} {s : Pmm} {cr3 a fuel : Nat} {flags : BitVec 64} {xs : List Nat}

theorem key_pageOf (a : Nat) : key (pageOf a) = key a := by
  unfold key pageOf
  omega

section

variable (h : DemandPage c s cr3 a flags xs)
include h

theorem DemandPage.pageOf : DemandPage c s cr3 (pageOf a) flags xs :=
  { h with
    clean := by rw [key_pageOf]; exact h.clean
    leaf := by rw [key_pageOf]; exact h.leaf }

omit h in
theorem hasBit_demandPagingEntry_zero (g : BitVec 64) : hasBit (demandPagingEntry g) 0 = true := by
  simp [demandPagingEntry]

omit h in
theorem hasBit_demandPagingEntry_nine (g : BitVec 64) : hasBit (demandPagingEntry g) 9 = true := by
  simp [demandPagingEntry]

theorem DemandPage.found : Found c s.mem cr3 (· < 512) (pageMap s cr3) (key a) :=
  ⟨h.tree, h.cr3_le, h.null_dead, key_region a, h.clean, h.leaf ▸ hasBit_demandPagingEntry_zero _⟩

omit h in
/-- The flags are kept in the entry until the page is committed. -/
theorem decodeProtectionFlags_demandPagingEntry (c : Cpu) (flags : BitVec 64) :
    decodeProtectionFlags c (demandPagingEntry (flags &&& protAllBitsSet) >>> 52) =
      decodeProtectionFlags c ((flags ||| protNoCowOnAllocate) &&& protAllBitsSet) := by
  have hbit {i : Nat} (hi : i < 6) (h3 : i ≠ 3) :
      hasBit (demandPagingEntry (flags &&& protAllBitsSet) >>> 52) i =
        hasBit ((flags ||| protNoCowOnAllocate) &&& protAllBitsSet) i := by
    simp [demandPagingEntry, protAllBitsSet, protNoCowOnAllocate, show i < 64 by omega,
      show 52 + i < 64 by omega, show ¬ 0 = 52 + i by omega, show ¬ 9 = 52 + i by omega,
      show ¬ 63 = 52 + i by omega,
      show ¬ 3 = i from fun h => h3 h.symm, hi]
  simp only [decodeProtectionFlags, hasBit_and, hbit (show 0 < 6 by decide) (by decide),
    hbit (show 1 < 6 by decide) (by decide), hbit (show 2 < 6 by decide) (by decide),
    hbit (show 4 < 6 by decide) (by decide), hbit (show 5 < 6 by decide) (by decide)]

/-- The page is given a free frame, with what the page showed before in it. -/
theorem DemandPage.commits (haligned : a % 4096 = 0) (hlt : a < 2 ^ 64)
    (hexec : c.executeDisable = true) (hfree : xs ≠ []) (hfuel : 0 < fuel) :
    ∃ f s1 s' E', s.allocatePhysicalPage fuel 1 = some (f, s1) ∧ f ∈ freeFrames s xs ∧
      commitDemandPage c fuel s cr3 a (demandPagingEntry (flags &&& protAllBitsSet)) = some s' ∧
      Replaced c cr3 (· < 512) (pageMap s cr3) (key a) s'.mem E' (committedEntry c flags f) ∧
      (∃ xs', FreeList s' xs' ∧ f ∉ freeFrames s' xs') ∧
      ∀ i < 4096, s'.mem (f + i) = s.mem i := by
  obtain ⟨hstock, -⟩ := h.ready.stock h.unlocked h.nodes h.list
  have hframes : freeFrames s xs ≠ [] := by
    obtain ⟨x, hx⟩ := exists_mem_of_ne_nil xs hfree
    exact ne_nil_of_mem (mem_map_of_mem (f := (4096 * ·)) (h.list.mem_freePages hx))
  obtain ⟨f, s1, free', halloc, hperm, hstock1⟩ := hstock.allocate hframes hfuel
  have hf : f ∈ freeFrames s xs := hperm.mem_iff.1 mem_cons_self
  have hne : f ≠ 0 := fun he => null_notMem_freeFrames h.list (he ▸ hf)
  have hsup := h.ready.allocate halloc
  have hdata : DataFrame cr3 (· < 512) (pageMap s cr3) (insert f {g | g ∉ freeFrames s xs}) f :=
    ⟨hsup.aligned, Set.mem_insert _ _, hne, hsup.ne_cr3, hsup.not_live⟩
  have hzero : frame (pageMap s cr3 3 (key a)) = 0 := by rw [h.leaf, frame_demandPagingEntry]
  have hfound1 := { h.found with tree := hsup.ready.tree }
  obtain ⟨m, hcopy, hsame, hcopied⟩ := hsup.ready.copyToFrame hfound1 haligned hlt hdata
    (by rw [hzero]; exact hne.symm) (allows_kernelRead hexec _ _)
  have hready2 := hsup.ready.write hdata hsame
  obtain ⟨s2, s', E', used', hunmap, hmap, hreplaced, hpool, hreshaped⟩ :=
    hready2.refill (v := committedEntry c flags f) h.cpu { h.found with tree := hready2.tree }
      (hsup.unlocked hne) hstock1.nodes h.table_lt hfuel (by simp [committedEntry])
  obtain ⟨hdata', hmem'⟩ := hdata.reshaped hreshaped hready2.tree
  refine ⟨f, s1, s', E', halloc, hf, ?_, hreplaced, ?_, fun i hi => ?_⟩
  · simp only [commitDemandPage, bind, halloc, bind_some, hcopy, hunmap,
      decodeProtectionFlags_demandPagingEntry]
    exact hmap
  · obtain ⟨xs', hlist', -, hfree'⟩ := hpool.free
    refine ⟨xs', hlist', fun hmem => ?_⟩
    obtain ⟨p, hp, rfl⟩ := mem_map.1 hmem
    exact (hfree' p hp).2 hdata'.used
  · have hnull : frameAt i ∈ {g | g ∉ freeFrames s xs} := by
      rw [show frameAt i = 0 by unfold frameAt; omega]
      exact null_notMem_freeFrames h.list
    rw [hmem' i hi]
    change m (f + i) = s.mem i
    rw [hcopied i hi, hzero, Nat.zero_add]
    exact hsup.mem i hnull

omit h in
/-- Without a free frame the page is given physical page 0, and the allocator stays locked. -/
theorem DemandPage.allocate_null (h : DemandPage c s cr3 a flags []) (hfuel : 0 < fuel) :
    s.allocatePhysicalPage fuel 1 =
      some (0, { s with locked := true, interruptFlag := false }) := by
  have hhead : s.memoryHead = 0 := h.list.list.head_eq
  have hword {b : Nat} (hb : b + 8 ≤ 4096) : s.mem.loadNat b = 0 :=
    congrArg BitVec.toNat (Memory.load64_eq_zero fun x _ hx => h.null x (by omega))
  have hpages : nPagesOf s.mem 0 = 0 := hword (by decide)
  have hnext : nextOf s.mem 0 = 0 := hword (by decide)
  obtain ⟨n, rfl⟩ := Nat.exists_eq_succ_of_ne_zero hfuel.ne'
  have hfind : Pmm.findNode s.mem 1 (n + 1) s.memoryHead = some none := by
    rw [hhead, Pmm.findNode, hpages, if_pos (by decide), hnext, if_pos rfl]
  rw [Pmm.allocatePhysicalPage, if_neg (by simp [h.nodes, h.unlocked]), hfind]
  rfl

/-- Another page is mapped by the same table of the last level. -/
def SharesTable (E : Entries) (page : Nat) : Prop := ∃ p ≠ page, p / 512 = page / 512 ∧ E 3 p ≠ 0

/-- What is left in the table of the page when its entry is cleared. -/
theorem DemandPage.isZeroPage_iff {t : Nat} (ht : PointsTo c (pageMap s cr3 2 (key a / 512)) t) :
    isZeroPage (s.mem.store64 (t + 8 * addressToIndex a 0) 0) t = true ↔
      ¬ SharesTable (pageMap s cr3) (key a) := by
  obtain ⟨hready, -⟩ := h.ready.storeLeaf (key_region a) ht.child_eq 0
  rw [← addressToIndex_zero] at hready
  have hchild : child (set (pageMap s cr3) 3 (key a) 0 2 (key a / 512)) = some t := by
    rw [set_other (by omega), ht.child_eq]
  rw [isZeroPage_table_iff hready.tree (by decide) (by have := key_lt a; omega) hchild]
  constructor
  · rintro hzero ⟨p, hp, hsame, hne⟩
    have hleaf := hzero p hsame
    rw [set_other fun hn => hp hn.2] at hleaf
    exact hne hleaf
  · intro halone p hsame
    by_cases hp : p = key a
    · rw [hp, set_same]
    · rw [set_other fun hn => hp hn.2]
      by_contra hne
      exact halone ⟨p, hp, hsame, hne⟩

/-- Clearing the entry of the page while the allocator is locked. -/
theorem DemandPage.unmap_locked (s1 : Pmm) (hmem : s1.mem = s.mem) (hlock : s1.locked = true) :
    ∃ t, PointsTo c (pageMap s cr3 2 (key a / 512)) t ∧ unmapAddress c s1 cr3 a =
      if isZeroPage (s.mem.store64 (t + 8 * addressToIndex a 0) 0) t then none
      else some { s1 with mem := s.mem.store64 (t + 8 * addressToIndex a 0) 0 } := by
  obtain ⟨t, ht, htable⟩ := h.ready.lastTable (key_region a) h.clean h.found.mapped
  refine ⟨t, ht, ?_⟩
  simp only [unmapAddress, hmem, htable, freePagingStructures, Unmapping.write]
  split
  · rw [Unmapping.release, Pmm.freePhysicalPage, if_pos hlock]
    rfl
  · rfl

omit h in
/-- Without a free frame, the page is mapped to physical page 0 if its table stays. -/
theorem DemandPage.commits_null (h : DemandPage c s cr3 a flags []) (haligned : a % 4096 = 0)
    (hlt : a < 2 ^ 64) (hexec : c.executeDisable = true) (hfuel : 0 < fuel)
    (hshared : SharesTable (pageMap s cr3) (key a)) :
    ∃ s' E', commitDemandPage c fuel s cr3 a (demandPagingEntry (flags &&& protAllBitsSet)) =
        some s' ∧
      Replaced c cr3 (· < 512) (pageMap s cr3) (key a) s'.mem E' (committedEntry c flags 0) := by
  set v := committedEntry c flags 0 with hv
  have hpresent : hasBit v 0 = true := by simp [hv, committedEntry]
  set s1 : Pmm := { s with locked := true, interruptFlag := false } with hs1
  obtain ⟨t, ht, hunmap⟩ := h.unmap_locked s1 rfl rfl
  rw [if_neg fun hzero => (h.isZeroPage_iff ht).1 hzero hshared] at hunmap
  have hready1 : Ready c cr3 (· < 512) s1 (pageMap s cr3) {f | f ∉ freeFrames s []} :=
    ⟨h.tree, h.cr3_le, h.ready.cr3_used, h.ready.live_used, .inl rfl⟩
  obtain ⟨hready2, -⟩ := hready1.storeLeaf (key_region a) ht.child_eq 0
  rw [← addressToIndex_zero] at hready2
  have htable {d k : Nat} (hd : d < 3) : set (pageMap s cr3) 3 (key a) 0 d k = pageMap s cr3 d k :=
    set_other (by omega)
  have htables : ∀ d < 3, ∃ t, PointsTo c (set (pageMap s cr3) 3 (key a) 0 d
      (key a / 512 ^ (3 - d))) t := fun d hd => by
    rw [htable hd]
    exact h.found.table hd
  have hclean : ∀ d < 3, Clean c d (set (pageMap s cr3) 3 (key a) 0 d (key a / 512 ^ (3 - d))) :=
    fun d hd => by
      rw [htable hd]
      exact h.clean d hd
  have hdead : ¬ Live child (· < 512) 3 (set (pageMap s cr3) 3 (key a) 0) 0 := by
    rintro ⟨d, hd, k, hk, hchild⟩
    rw [htable hd] at hchild
    exact h.null_dead ⟨d, hd, k, hk, hchild⟩
  obtain ⟨t', s3, hwalk⟩ := hready2.walk_present h.cpu hdead (key_region a) htables
    (tableFlags_entry hpresent) hfuel
  have hmap : mapEntry c fuel { s1 with mem := s.mem.store64 (t + 8 * addressToIndex a 0) 0 } cr3 v
      a = some { s3 with mem := s3.mem.store64 (t' + 8 * addressToIndex a 0) v } := by
    simp only [mapEntry, bind]
    rw [hwalk]
    rfl
  obtain ⟨E', used', hready', -, hopened⟩ :=
    hready2.mapEntry h.cpu (key_region a) hclean hpresent hmap
  have hdead' : ¬ Live child (· < 512) 3 (set E' 3 (key a) v) 0 := by
    rintro ⟨d, hd, k, hk, hchild⟩
    rw [set_other (by omega)] at hchild
    exact hdead (hopened.toWalked.live_of_present (fun d hd => (htables d hd).elim fun _ ht =>
      ht.ne_zero) ⟨d, hd, k, hk, hchild⟩)
  refine ⟨_, _, ?_, h.found.replaced (fun p hp => ?_) (hready2.tree.hereditary child_zero) hclean
    hopened hready'.tree hdead' hpresent⟩
  · have hcopy := h.found.copyToFrame_self haligned hlt
      (by rw [h.leaf, frame_demandPagingEntry]) (allows_kernelRead hexec _ _)
    simp only [commitDemandPage, bind, h.allocate_null hfuel, bind_some, hcopy,
      decodeProtectionFlags_demandPagingEntry]
    rw [hunmap, bind_some]
    exact hmap
  · exact walk_congr (fun d hd => .inl (htable hd)) (set_other fun hn => hp hn.2)

omit h in
/-- Without a free frame, the handler waits for the allocator if the table of the page goes. -/
theorem DemandPage.commits_none (h : DemandPage c s cr3 a flags []) (haligned : a % 4096 = 0)
    (hlt : a < 2 ^ 64) (hexec : c.executeDisable = true) (hfuel : 0 < fuel)
    (halone : ¬ SharesTable (pageMap s cr3) (key a)) :
    commitDemandPage c fuel s cr3 a (demandPagingEntry (flags &&& protAllBitsSet)) = none := by
  set s1 : Pmm := { s with locked := true, interruptFlag := false } with hs1
  obtain ⟨t, ht, hunmap⟩ := h.unmap_locked s1 rfl rfl
  rw [if_pos ((h.isZeroPage_iff ht).2 halone)] at hunmap
  have hcopy := h.found.copyToFrame_self haligned hlt (by rw [h.leaf, frame_demandPagingEntry])
    (allows_kernelRead hexec _ _)
  simp only [commitDemandPage, bind, h.allocate_null hfuel, bind_some, hcopy]
  rw [hunmap, bind_none]

/-- On a CPU that takes the bit of the entry as reserved, the handler faults itself. -/
theorem DemandPage.commits_reserved (fuel : Nat) (hlt : a < 2 ^ 64)
    (hexec : c.executeDisable = false) :
    commitDemandPage c fuel s cr3 a (demandPagingEntry (flags &&& protAllBitsSet)) = none := by
  have hread : c.allows kernelRead (pageMap s cr3) (key a) = false := by
    have hreserved : c.reserves (pageMap s cr3 3 (key a)) = true := by
      rw [h.leaf]
      simp [Cpu.reserves, hexec, demandPagingEntry]
    simp [Cpu.allows, path, hreserved]
  cases halloc : s.allocatePhysicalPage fuel 1 with
  | none => simp only [commitDemandPage, bind, halloc, bind_none]
  | some p =>
    obtain ⟨f, s1⟩ := p
    have hfound := { h.found with tree := (h.ready.allocate halloc).ready.tree }
    simp only [commitDemandPage, bind, halloc, bind_some,
      hfound.copyToFrame_eq_none hlt hread, bind_none]

end

/-- What the handler does for the page. -/
theorem DemandPage.exception14_eq (x : Space) (proc : Process)
    (h : DemandPage c x.pmm proc.cr3 a flags xs) (kind : AccessKind) :
    exception14 c fuel x proc a kind .protection =
      (commitDemandPage c fuel x.pmm proc.cr3 (Paging.pageOf a)
        (demandPagingEntry (flags &&& protAllBitsSet))).map fun s => some { x with pmm := s } := by
  have hentry : getL1PageMapEntryAt c x.pmm.mem proc.cr3 (Paging.pageOf a) =
      demandPagingEntry (flags &&& protAllBitsSet) := by
    rw [h.pageOf.found.getL1, h.pageOf.leaf]
  simp only [exception14, hentry, hasBit_demandPagingEntry_nine, if_true]

theorem walk_pageMap {E : Entries} (h : Represents child s.mem cr3 (· < 512) 3 E) {page : Nat}
    (hpage : page < 512 ^ 4) : walk (pageMap s cr3) page = walk E page := by
  have hR : page / 512 ^ 3 < 512 := by omega
  refine walk_congr (fun d hd => .inl ?_) ?_
  · exact (h.eq_entries d hd.le _ (region_path (R := (· < 512)) hR hd.le)).symm
  · exact (h.eq_entries 3 le_rfl page hR).symm

/-- The entry a page is given at once. -/
theorem allocEntry_noCow {f : Nat} {s1 : Pmm}
    (halloc : s.allocatePhysicalPage fuel 1 = some (f, s1)) :
    allocEntry c fuel ((flags ||| protNoCowOnAllocate) &&& protAllBitsSet) s =
      some (committedEntry c flags f, s1) := by
  have hcow : hasBit ((flags ||| protNoCowOnAllocate) &&& protAllBitsSet) 3 = true := by
    simp [protNoCowOnAllocate, protAllBitsSet]
  simp only [allocEntry, cpuFlags, hcow, halloc, Bool.not_true, Bool.false_eq_true, if_false,
    map_some]
  rw [BitVec.or_assoc, BitVec.or_assoc, BitVec.or_self, committedEntry]

theorem frame_committedEntry (hc : c.physAddrBits ≤ 51) {f : Nat} (haligned : f % 4096 = 0)
    (hf : f < 2 ^ c.physAddrBits) : frame (committedEntry c flags f) = f :=
  (frame_of_child (pointsTo_frame hc haligned hf (tableFlags_decode c _)).child_eq).2

/-- The first protection fault on a demand-paged page leaves it as if it had been given a frame when
it was mapped, exactly if there is a free frame and the CPU knows the bit that disables
execution. -/
theorem exception14_commits_iff (x : Space) (proc : Process) (hfuel : 0 < fuel) (ha : a < 2 ^ 64)
    (h : DemandPage c x.pmm proc.cr3 a flags xs) (kind : AccessKind) :
    (∃ s' v, exception14 c fuel x proc a kind .protection = some (some { x with pmm := s' }) ∧
      CommittedAsAtOnce c fuel x.pmm proc.cr3 a flags xs s' v) ↔
      xs ≠ [] ∧ c.executeDisable = true := by
  have haligned : Paging.pageOf a % 4096 = 0 ∧ Paging.pageOf a < 2 ^ 64 := by
    unfold Paging.pageOf
    omega
  obtain ⟨haligned, hlt⟩ := haligned
  constructor
  · rintro ⟨s', v, hret, hcommitted⟩
    refine ⟨fun hnone => ?_, ?_⟩
    · have hfresh := hcommitted.fresh
      rw [hnone] at hfresh
      cases hfresh
    · by_contra hexec
      have hfault := h.pageOf.commits_reserved fuel hlt (Bool.eq_false_of_not_eq_true hexec)
      rw [h.exception14_eq, hfault] at hret
      cases hret
  · rintro ⟨hfree, hexec⟩
    obtain ⟨f, s1, s', E', halloc, hf, hret, hreplaced, htaken, hcopied⟩ :=
      h.pageOf.commits haligned hlt hexec hfree hfuel
    rw [key_pageOf] at hreplaced
    have hfound := hreplaced.found
    have hframe : frame (committedEntry c flags f) = f :=
      frame_committedEntry h.cpu (h.ready.allocate halloc).aligned (h.free f hf).1
    refine ⟨s', _, by rw [h.exception14_eq, hret]; rfl, ⟨?_, ⟨s1, allocEntry_noCow halloc⟩, ?_, ?_,
      fun i hi => ⟨x.pmm.mem i, ?_, ?_⟩, fun p hp hne => ?_⟩⟩
    · rw [walk_pageMap hfound.tree (key_lt a), walk_of_tables, hreplaced.leaf,
        if_pos (by simp [committedEntry])]
      intro d hd
      obtain ⟨t, ht⟩ := hfound.table hd
      rw [ht.child_eq]
      exact some_ne_none t
    · rwa [hframe]
    · rwa [hframe]
    · rw [h.pageOf.found.byteAt hexec haligned hi, h.pageOf.leaf, frame_demandPagingEntry,
        Nat.zero_add]
    · rw [← key_pageOf a] at hreplaced
      rw [hreplaced.found.byteAt hexec haligned hi, hreplaced.leaf, hframe, hcopied i hi]
    · rw [walk_pageMap hfound.tree hp, hreplaced.other p hne (by omega)]

/-- A page map whose only page is demand-paged, and an allocator with the frame at `free`, or with
none if that is 0. -/
def demandPaged (free : Nat) : Pmm :=
  ⟨(threeTables.store64 (0x4000 + 8 * 5) (demandPagingEntry 0)).storeNat 0x10010 1, free, free, 1,
    false, true⟩

theorem surveyed_demandPaged : Surveyed child
    (onePageWords 5 (demandPagingEntry 0) ++ [(0x10010, 1)]) 0x1000 (· < 512) 3
      (onePageSurvey 5 (demandPagingEntry 0)) := by
  decide

theorem demandPage_demandPaged {free : Nat} {xs : List Nat} (hlist : FreeList (demandPaged free) xs)
    (hnodup : (freeFrames (demandPaged free) xs).Nodup)
    (hframes : ∀ f ∈ freeFrames (demandPaged free) xs, 0x10000 ≤ f ∧ f < 2 ^ 36) :
    DemandPage smallCpu (demandPaged free) 0x1000 0x5000 0 xs := by
  obtain ⟨-, -, hlive, hclean, -⟩ := onePage_spec surveyed_demandPaged fun _ h => h
  refine ⟨stocked_onePage surveyed_demandPaged rfl rfl Nat.one_ne_zero hlist hnodup hframes,
    fun t ht => ?_, fun d hd => (hclean d hd _ (key_path 0x5000 hd.le)).1, ?_⟩
  · have := hlive t ht
    change t < 2 ^ 36
    omega
  · change pageMap (demandPaged 0) 0x1000 3 (key 0x5000) = _
    decide

theorem demandPage_oneFrame :
    DemandPage smallCpu (demandPaged 0x10000) 0x1000 0x5000 0 [0x10000] := by
  refine demandPage_demandPaged ⟨⟨.cons_cons ⟨rfl, by decide⟩ (.cons_cons ⟨by decide, rfl⟩
    (.singleton _)), nodup_singleton _, by decide⟩, by decide, by decide, by decide⟩ ?_ ?_
  · exact nodup_singleton _
  · decide

theorem demandPage_noFrame : DemandPage smallCpu (demandPaged 0) 0x1000 0x5000 0 [] :=
  demandPage_demandPaged ⟨⟨.cons_cons ⟨rfl, rfl⟩ (.singleton _), nodup_nil, not_mem_nil⟩,
    nofun, nofun, nofun⟩ nodup_nil nofun

/-- The only page of a page map is given the only free frame. -/
theorem exception14_commits_iff_oneFrame :
    (0 < 1 ∧ 0x5000 < 2 ^ 64 ∧
      DemandPage smallCpu (demandPaged 0x10000) 0x1000 0x5000 0 [0x10000]) ∧
      ∃ s' v, exception14 smallCpu 1 ⟨demandPaged 0x10000, []⟩ ⟨0x1000, true⟩ 0x5000 kernelWrite
          .protection = some (some ⟨s', []⟩) ∧
        CommittedAsAtOnce smallCpu 1 (demandPaged 0x10000) 0x1000 0x5000 0 [0x10000] s' v :=
  ⟨⟨by decide, by decide, demandPage_oneFrame⟩,
    (exception14_commits_iff ⟨demandPaged 0x10000, []⟩ ⟨0x1000, true⟩ (by decide) (by decide)
      demandPage_oneFrame kernelWrite).2 ⟨cons_ne_nil _ _, rfl⟩⟩

/-- Without a free frame the fault of the only page of a page map is never answered. -/
theorem exception14_hangs_noFrame :
    DemandPage smallCpu (demandPaged 0) 0x1000 0x5000 0 [] ∧
      exception14 smallCpu 1 ⟨demandPaged 0, []⟩ ⟨0x1000, true⟩ 0x5000 kernelWrite .protection =
        none := by
  have halone : ¬ SharesTable (pageMap (demandPaged 0) 0x1000) (key 0x5000) := by
    rintro ⟨p, hp, htable, hne⟩
    have hkey : key 0x5000 = 5 := by decide
    obtain ⟨-, -, -, -, hleaf⟩ := onePage_spec surveyed_demandPaged fun _ h => h
    exact hp ((hleaf p (by omega)).resolve_left hne).1
  refine ⟨demandPage_noFrame, ?_⟩
  rw [DemandPage.exception14_eq ⟨demandPaged 0, []⟩ ⟨0x1000, true⟩ demandPage_noFrame,
    demandPage_noFrame.pageOf.commits_none (by decide) (by decide) rfl (by decide) (by
      exact halone)]
  rfl

end FirstFault

end Obos.Paging
