import Obos.Paging.Free

/-!
# Which frames an unmapping gives back

A range passed to `VirtualFree` may have holes: it is accepted as soon as one of
its pages is mapped. The callers rely on `FreesExactly`: the frames given back are
those of the committed pages of the range and of the tables that became empty, each
once, and the pages outside the range stay mapped as they were. The main theorem,
`virtualFree_exact_iff`, says that a call does so exactly when every page of the
range is canonical and mapped, and no two of them share a frame.
-/

namespace Obos.Paging

open Lib Lib.TableTree Physical List
open Nat (lt_one_iff mod_eq_of_lt)

/-- A page of the range. -/
def PageIn (base nPages page : Nat) : Prop := page < 512 ^ 4 ∧ InRange base nPages page

/-- Exactly the frames of the committed pages of the range and of the tables that became empty were
given back, each once, and the pages outside the range are mapped as before. -/
structure FreesExactly (E E' : Entries) (freed : List Nat) (base nPages : Nat) : Prop where
  once : freed.Nodup
  frames : ∀ f, f ∈ freed ↔
    (∃ page e, PageIn base nPages page ∧ walk E page = some (3, e) ∧ committed e = true ∧
      frame e = f) ∨
    ∃ d < 3, ∃ k, Emptied 3 E (PageIn base nPages) d k ∧ child (E d k) = some f
  outside : ∀ page < 512 ^ 4, ¬ InRange base nPages page →
    E' 3 page = E 3 page ∧ walk E' page = walk E page

/-- The page maps the statement is about: the tables are not shared and none is physical page 0, the
free list of the allocator ends outside of them, and of the pages visited the entries above are
clean, the leaves are zero, present or of an uncommitted file page, and the frames are none of the
tables. -/
structure Unmappable (c : Cpu) (s : Pmm) (cr3 : Nat) (addrs : List Nat) : Prop where
  cpu : c.physAddrBits ≤ 51
  tree : Represents child s.mem cr3 (· < 512) 3 (pageMap s cr3)
  cr3_le : cr3 ≤ 2 ^ c.physAddrBits
  cr3_ne : cr3 ≠ 0
  null : ∀ b < 4096, s.mem b = 0
  null_dead : ¬ Live child (· < 512) 3 (pageMap s cr3) 0
  unlocked : s.locked = false
  tail_aligned : s.memoryTail % 4096 = 0
  tail_ne : s.memoryTail ≠ cr3
  tail_dead : ¬ Live child (· < 512) 3 (pageMap s cr3) s.memoryTail
  clean : ∀ a ∈ addrs, ∀ d < 3, Clean c d (pageMap s cr3 d (key a / 512 ^ (3 - d)))
  leaf : ∀ a ∈ addrs, pageMap s cr3 3 (key a) = 0 ∨ hasBit (pageMap s cr3 3 (key a)) 0 = true ∨
    hasBit (pageMap s cr3 3 (key a)) 10 = true
  frames : ∀ a ∈ addrs, pageMap s cr3 3 (key a) ≠ 0 → committed (pageMap s cr3 3 (key a)) = true →
    c.rawPtr (pageMap s cr3 3 (key a)) = frame (pageMap s cr3 3 (key a)) ∧
    frame (pageMap s cr3 3 (key a)) ≠ 0 ∧ frame (pageMap s cr3 3 (key a)) ≠ cr3 ∧
    ¬ Live child (· < 512) 3 (pageMap s cr3) (frame (pageMap s cr3 3 (key a)))

/-- Every page of the range is canonical and mapped, and no two have the same frame. -/
structure Freeable (c : Cpu) (m : Memory) (cr3 base nPages : Nat) : Prop where
  mapped : ∀ i < nPages, base + 4096 * i < 2 ^ 64 ∧ isValidAddress (base + 4096 * i) = true ∧
    pageAllocated c m cr3 (base + 4096 * i) = true
  distinct : ∀ i < nPages, ∀ j < nPages,
    committed (getL1PageMapEntryAt c m cr3 (base + 4096 * i)) = true →
    committed (getL1PageMapEntryAt c m cr3 (base + 4096 * j)) = true →
    c.rawPtr (getL1PageMapEntryAt c m cr3 (base + 4096 * i)) =
      c.rawPtr (getL1PageMapEntryAt c m cr3 (base + 4096 * j)) → i = j

/-! ## Addresses and pages -/

section Addresses

variable {base nPages page a : Nat}

theorem canonical_lt (h : page < 512 ^ 4) : canonical page < 2 ^ 64 := by
  unfold canonical
  split <;> omega

theorem key_canonical (h : page < 512 ^ 4) : key (canonical page) = page := by
  unfold key canonical
  split <;> omega

theorem isValidAddress_canonical (h : page < 512 ^ 4) : isValidAddress (canonical page) = true := by
  unfold isValidAddress canonical
  simp only [Bool.or_eq_true, beq_iff_eq]
  split <;> omega

theorem canonical_key (ha : a % 4096 = 0) (hvalid : isValidAddress a = true) :
    canonical (key a) = a := by
  unfold isValidAddress at hvalid
  simp only [Bool.or_eq_true, beq_iff_eq] at hvalid
  unfold canonical key
  split <;> omega

/-- A page of the range is visited. -/
theorem PageIn.visited (hn : nPages < 2 ^ 52) (h : PageIn base nPages page) :
    ∃ a ∈ pagesFrom base nPages, key a = page := by
  obtain ⟨hlt, i, hi, heq⟩ := h
  refine ⟨canonical page, mem_map.2 ⟨i, ?_, ?_⟩, key_canonical hlt⟩
  · rw [mod_eq_of_lt hn]
    exact mem_range.2 hi
  · rw [← heq]
    exact mod_eq_of_lt (canonical_lt hlt)

end Addresses

/-- `PagesAllocated` says whether the leaf entry of a page with a clean path is there. -/
theorem pageAllocated_iff_of_clean {c : Cpu} {m : Memory} {cr3 a : Nat} {R : Nat → Prop}
    {E : Entries} (h : Represents child m cr3 R 3 E) (hcr3 : cr3 ≤ 2 ^ c.physAddrBits)
    (hnull : ¬ Live child R 3 E 0) (hR : R (key a / 512 ^ 3)) (hclean : CleanPath c E (key a))
    (hleaf : E 3 (key a) = 0 ∨ hasBit (E 3 (key a)) 0 = true ∨ hasBit (E 3 (key a)) 10 = true) :
    pageAllocated c m cr3 a = true ↔ E 3 (key a) ≠ 0 := by
  rw [pageAllocated, getL4PageMapEntryAt_eq h hcr3 hR,
    getL3PageMapEntryAt_eq h hcr3 hR (hclean 0 (by decide)),
    getL2PageMapEntryAt_eq h hcr3 hR (hclean 0 (by decide)) (hclean 1 (by decide)),
    getL1PageMapEntryAt_of_clean h hcr3 hR hnull hclean]
  simp only [Bool.and_eq_true, Bool.or_eq_true]
  constructor
  · rintro ⟨-, hpresent⟩ hzero
    rw [hzero] at hpresent
    simp at hpresent
  · intro hne
    have htable (d : Nat) (hd : d < 3) : hasBit (E d (key a / 512 ^ (3 - d))) 0 = true := by
      have hpath := (h.hereditary child_zero).path_ne_zero hd.le hR hne
      obtain ⟨t, ht, -⟩ := (hclean d hd).resolve_left hpath
      exact (frame_of_child ht.child_eq).1
    have h2 := htable 2 (by decide)
    exact ⟨⟨⟨htable 0 (by decide), htable 1 (by decide)⟩, h2⟩, hleaf.resolve_left hne⟩

/-! ## Page maps that can be unmapped -/

section Domain

variable {c : Cpu} {s : Pmm} {cr3 base nPages page a f : Nat} {addrs : List Nat}

/-- An unmapping that starts from a page map; nothing is said about the free list. -/
abbrev start (c : Cpu) (s : Pmm) (cr3 : Nat) : Start :=
  ⟨c, cr3, (· < 512), s, pageMap s cr3, ∅, False⟩

section

variable (h : Unmappable c s cr3 addrs)
include h

theorem Unmappable.valid : (start c s cr3).Valid :=
  ⟨h.cpu, h.tree, h.cr3_le, h.cr3_ne, h.null_dead, False.elim, False.elim⟩

theorem Unmappable.held : Held (start c s cr3) ⟨s, []⟩ (pageMap s cr3) :=
  ⟨h.tree, h.unlocked, h.tail_aligned, h.tail_ne, h.tail_dead, h.null,
    fun _ ht => ⟨ht, not_mem_nil⟩, not_mem_nil, False.elim, False.elim, False.elim⟩

theorem Unmappable.returnable (ha : a ∈ addrs) (hne : pageMap s cr3 3 (key a) ≠ 0)
    (hcommitted : committed (pageMap s cr3 3 (key a)) = true) :
    Returnable (start c s cr3) (c.rawPtr (pageMap s cr3 3 (key a))) := by
  obtain ⟨heq, hnull, hroot, hlive⟩ := h.frames a ha hne hcommitted
  rw [heq]
  exact ⟨hnull, hroot, hlive, False.elim⟩

omit h in
theorem key_region (a : Nat) : key a / 512 ^ 3 < 512 := by
  have := key_lt a
  omega

/-- A page that is mapped has tables on all levels. -/
theorem Unmappable.tables (ha : a ∈ addrs) (hne : pageMap s cr3 3 (key a) ≠ 0) (d : Nat)
    (hd : d < 3) : ∃ t, PointsTo c (pageMap s cr3 d (key a / 512 ^ (3 - d))) t :=
  have hpath := (h.tree.hereditary child_zero).path_ne_zero hd.le (key_region a) hne
  have ⟨t, ht, _⟩ := (h.clean a ha d hd).resolve_left hpath
  ⟨t, ht⟩

theorem Unmappable.getL1_eq (ha : a ∈ addrs) :
    getL1PageMapEntryAt c s.mem cr3 a = pageMap s cr3 3 (key a) :=
  getL1PageMapEntryAt_of_clean h.tree h.cr3_le (key_region a) h.null_dead (h.clean a ha)

theorem Unmappable.pageAllocated_iff (ha : a ∈ addrs) :
    pageAllocated c s.mem cr3 a = true ↔ pageMap s cr3 3 (key a) ≠ 0 :=
  pageAllocated_iff_of_clean h.tree h.cr3_le h.null_dead (key_region a) (h.clean a ha) (h.leaf a ha)

/-- A committed page is found by the walk. -/
theorem Unmappable.walk_eq (ha : a ∈ addrs) (hne : pageMap s cr3 3 (key a) ≠ 0)
    (hcommitted : committed (pageMap s cr3 3 (key a)) = true) :
    walk (pageMap s cr3) (key a) = some (3, pageMap s cr3 3 (key a)) := by
  have hpresent : hasBit (pageMap s cr3 3 (key a)) 0 = true := by
    refine ((h.leaf a ha).resolve_left hne).resolve_right fun h10 => ?_
    simp [committed, h10] at hcommitted
  rw [walk_of_tables fun d hd => ?_, if_pos hpresent]
  obtain ⟨t, ht⟩ := h.tables ha hne d hd
  simp [ht.child_eq]

/-- The page a walk finds is the one of the leaf entry. -/
theorem Unmappable.of_walk (ha : a ∈ addrs) {e : BitVec 64}
    (hwalk : walk (pageMap s cr3) (key a) = some (3, e)) :
    e = pageMap s cr3 3 (key a) ∧ pageMap s cr3 3 (key a) ≠ 0 := by
  obtain ⟨htables, hpresent⟩ := tables_of_walk (h.clean a ha) (by simp [hwalk])
  rw [walk_of_tables htables, if_pos hpresent] at hwalk
  cases hwalk
  refine ⟨rfl, fun hzero => ?_⟩
  rw [hzero] at hpresent
  simp at hpresent

end

/-- If exactly the right frames are given back, physical page 0 is not. -/
theorem FreesExactly.null_not_mem {E' : Entries} {freed : List Nat} (hn : nPages < 2 ^ 52)
    (h : Unmappable c s cr3 (pagesFrom base nPages))
    (hexact : FreesExactly (pageMap s cr3) E' freed base nPages) : 0 ∉ freed := by
  rw [hexact.frames, not_or]
  constructor
  · rintro ⟨page, e, hin, hwalk, hcommitted, hframe⟩
    obtain ⟨a, ha, rfl⟩ := hin.visited hn
    obtain ⟨rfl, hne⟩ := h.of_walk ha hwalk
    exact (h.frames a ha hne hcommitted).2.1 hframe
  · rintro ⟨d, hd, k, hempty, hchild⟩
    obtain ⟨p, hp, -, rfl⟩ := hempty.1
    exact h.null_dead ⟨d, hd, _, page_path hp.1 hd.le, hchild⟩

end Domain

/-! ## Runs without holes -/

section Exact

variable {c : Cpu} {s : Pmm} {u : Unmapping} {cr3 base nPages page : Nat} {E : Entries}
    {V : List Nat}

/-- If an entry on the path of a page that stays is emptied, the whole path is clean. -/
theorem clean_path_of_emptied (hclean : ∀ p ∈ V, CleanPath c E p)
    {d : Nat} (hd : d < 3) (hempty : Emptied 3 E (· ∈ V) d (page / 512 ^ (3 - d))) :
    ∀ d' < 3, Clean c d' (E d' (page / 512 ^ (3 - d'))) := by
  intro d' hd'
  by_cases hle : d' ≤ d
  · obtain ⟨p, hp, -, hpath⟩ := hempty.1
    rw [← div_below hle hd.le, ← hpath, div_below hle hd.le]
    exact hclean p hp d' hd'
  · by_cases hzero : E d' (page / 512 ^ (3 - d')) = 0
    · exact .inl hzero
    · obtain ⟨p, hp, -, hpath⟩ := hempty.2 d' (by omega) hd'.le _ (div_below (by omega) hd'.le)
        hzero
      rw [← hpath]
      exact hclean p hp d' hd'

/-- A page without a leaf is not found along clean entries. -/
theorem walk_eq_none (hclean : CleanPath c E page) (hleaf : E 3 page = 0) : walk E page = none := by
  by_contra hsome
  have hpresent := (tables_of_walk hclean hsome).2
  rw [hleaf] at hpresent
  simp at hpresent

/-- The making of tables for a page keeps where the pages are found. -/
theorem Walked.walk_eq {E' : Entries} {R : Nat → Prop} {p : Nat} (h : Walked c E E' page)
    (hher : Hereditary R 3 E) (hR : R (p / 512 ^ 3))
    (hclean : CleanPath c E page) : walk E' p = walk E p := by
  by_cases hmissing : ∃ d < 3, p / 512 ^ (3 - d) = page / 512 ^ (3 - d) ∧
      E d (page / 512 ^ (3 - d)) = 0
  · -- the page is not mapped, neither before nor after
    obtain ⟨d, hd, hpath, hzero⟩ := hmissing
    have hbelow {d' : Nat} (hle : d ≤ d') (hd' : d' ≤ 3) : E d' (p / 512 ^ (3 - d')) = 0 := by
      refine hher.below hle hd' (region_path hR hd') ?_
      rw [div_below hle hd', hpath]
      exact hzero
    have hbefore : ∀ d' < 3, Clean c d' (E d' (p / 512 ^ (3 - d'))) := by
      intro d' hd'
      by_cases hle : d ≤ d'
      · exact .inl (hbelow hle hd'.le)
      · have habove : p / 512 ^ (3 - d') = page / 512 ^ (3 - d') := by
          have hlt : d' ≤ d := by omega
          rw [← div_below hlt hd.le, ← div_below hlt hd.le, hpath]
        rw [habove]
        exact hclean d' hd'
    have hafter : ∀ d' < 3, Clean c d' (E' d' (p / 512 ^ (3 - d'))) := fun d' hd' =>
      clean_of_keepsTable (h.keep hd') (hbefore d' hd')
    have hleaf : E 3 p = 0 := by simpa using hbelow hd.le le_rfl
    rw [walk_eq_none hafter ((h.leaf p).trans hleaf), walk_eq_none hbefore hleaf]
  · push Not at hmissing
    refine walk_congr (fun d hd => ?_) (h.leaf p)
    by_cases hshared : p / 512 ^ (3 - d) = page / 512 ^ (3 - d)
    · obtain ⟨t, hpoints, -, hkeep⟩ := h.path d hd
      rw [hshared, hpoints.child_eq, hkeep (hmissing d hd hshared)]
      exact .inr ⟨Option.some_ne_none t, Option.some_ne_none t⟩
    · exact .inl (h.other d hd _ hshared)

/-- Pages that are not taken out are found as before. -/
theorem walk_pruned (hclean : ∀ p ∈ V, CleanPath c E p)
    (hpage : page ∉ V) : walk (pruned 3 E (· ∈ V)) page = walk E page := by
  have hleaf : pruned 3 E (· ∈ V) 3 page = E 3 page :=
    pruned_of_not_emptied fun hempty => hpage (emptied_leaf_iff.1 hempty).1
  by_cases hpath : ∃ d < 3, Emptied 3 E (· ∈ V) d (page / 512 ^ (3 - d))
  · -- the page is not mapped, neither before nor after
    obtain ⟨d, hd, hempty⟩ := hpath
    have hzero : E 3 page = 0 := by
      by_contra hne
      exact not_emptied_path hpage hne hd.le hempty
    have hclean' := clean_path_of_emptied hclean hd hempty
    rw [walk_eq_none (fun d hd => clean_pruned (hclean' d hd)) (hleaf.trans hzero),
      walk_eq_none hclean' hzero]
  · push Not at hpath
    exact walk_congr (fun d hd => .inl (pruned_of_not_emptied (hpath d hd))) hleaf

theorem Closed.pageMap_eq (hclosed : Closed (start c s cr3) V u) {d k : Nat} (hd : d ≤ 3)
    (hk : k / 512 ^ d < 512) : pageMap u.pmm cr3 d k = pruned 3 (pageMap s cr3) (· ∈ V) d k :=
  (hclosed.held.tree.eq_entries d hd k hk).symm

/-- Pages that are not taken out stay mapped as before. -/
theorem Closed.outside (h : Unmappable c s cr3 (pagesFrom base nPages))
    (hclosed : Closed (start c s cr3) ((pagesFrom base nPages).map key) u) (hlt : page < 512 ^ 4)
    (hpage : page ∉ (pagesFrom base nPages).map key) :
    pageMap u.pmm cr3 3 page = pageMap s cr3 3 page ∧
      walk (pageMap u.pmm cr3) page = walk (pageMap s cr3) page := by
  have hclean : ∀ p ∈ (pagesFrom base nPages).map key, CleanPath c (pageMap s cr3) p := by
    intro p hp
    obtain ⟨a, ha, rfl⟩ := mem_map.1 hp
    exact h.clean a ha
  have hpath {d : Nat} (hd : d ≤ 3) : pageMap u.pmm cr3 d (page / 512 ^ (3 - d)) =
      pruned 3 (pageMap s cr3) (· ∈ (pagesFrom base nPages).map key) d (page / 512 ^ (3 - d)) :=
    hclosed.pageMap_eq hd (page_path hlt hd)
  have hleaf : pageMap u.pmm cr3 3 page =
      pruned 3 (pageMap s cr3) (· ∈ (pagesFrom base nPages).map key) 3 page := by
    simpa using hpath le_rfl
  constructor
  · rw [hleaf]
    exact pruned_of_not_emptied fun hempty => hpage (emptied_leaf_iff.1 hempty).1
  · rw [walk_congr (fun d hd => .inl (hpath hd.le)) hleaf, walk_pruned hclean hpage]

/-- Under the condition the pages visited are those of the range, each once. -/
theorem Freeable.keys (hbase : base % 4096 = 0) (hn : nPages < 2 ^ 52) {m : Memory}
    (h : Freeable c m cr3 base nPages) :
    ((pagesFrom base nPages).map key).Nodup ∧
      ∀ page, page ∈ (pagesFrom base nPages).map key ↔ PageIn base nPages page := by
  have haddr : ∀ i < nPages, (base + 4096 * i) % 2 ^ 64 = base + 4096 * i := fun i hi =>
    mod_eq_of_lt (h.mapped i hi).1
  have hcanonical : ∀ i < nPages, canonical (key (base + 4096 * i)) = base + 4096 * i := fun i hi =>
    canonical_key (by omega) (h.mapped i hi).2.1
  rw [pagesFrom, mod_eq_of_lt hn, map_map]
  constructor
  · refine List.Nodup.map_on ?_ nodup_range
    intro i hi j hj heq
    rw [mem_range] at hi hj
    simp only [Function.comp, haddr i hi, haddr j hj] at heq
    have hsame := congrArg canonical heq
    rw [hcanonical i hi, hcanonical j hj] at hsame
    omega
  · intro page
    constructor
    · intro hpage
      obtain ⟨i, hi, rfl⟩ := mem_map.1 hpage
      rw [mem_range] at hi
      simp only [Function.comp, haddr i hi]
      exact ⟨key_lt _, i, hi, hcanonical i hi⟩
    · rintro ⟨hlt, i, hi, heq⟩
      refine mem_map.2 ⟨i, mem_range.2 hi, ?_⟩
      rw [Function.comp, haddr i hi, ← heq, key_canonical hlt]

theorem mem_pagesFrom {i : Nat} (hn : nPages < 2 ^ 52) (hi : i < nPages) :
    (base + 4096 * i) % 2 ^ 64 ∈ pagesFrom base nPages :=
  mem_map.2 ⟨i, by rw [mod_eq_of_lt hn]; exact mem_range.2 hi, rfl⟩

/-- Under the condition different pages visited have different frames. -/
theorem Freeable.frames_disjoint (hn : nPages < 2 ^ 52)
    (h : Unmappable c s cr3 (pagesFrom base nPages)) (hfree : Freeable c s.mem cr3 base nPages)
    {p q : Nat} (hp : p ∈ (pagesFrom base nPages).map key)
    (hq : q ∈ (pagesFrom base nPages).map key) (hne : p ≠ q) :
    List.Disjoint (c.frames (pageMap s cr3 3 p)) (c.frames (pageMap s cr3 3 q)) := by
  have hindex : ∀ p ∈ (pagesFrom base nPages).map key, ∃ i < nPages,
      p = key (base + 4096 * i) ∧
        getL1PageMapEntryAt c s.mem cr3 (base + 4096 * i) = pageMap s cr3 3 p := by
    intro p hp
    obtain ⟨a, ha, rfl⟩ := mem_map.1 hp
    have hget := h.getL1_eq ha
    obtain ⟨i, hi, rfl⟩ := mem_map.1 ha
    rw [mod_eq_of_lt hn, mem_range] at hi
    rw [mod_eq_of_lt (hfree.mapped i hi).1] at hget ⊢
    exact ⟨i, hi, rfl, hget⟩
  obtain ⟨i, hi, hpi, hgeti⟩ := hindex p hp
  obtain ⟨j, hj, hqj, hgetj⟩ := hindex q hq
  intro f hfp hfq
  rw [← hgeti, mem_frames] at hfp
  rw [← hgetj, mem_frames] at hfq
  have hij := hfree.distinct i hi j hj hfp.1 hfq.1 (hfp.2.trans hfq.2.symm)
  exact hne (by rw [hpi, hqj, hij])

/-- Under the condition a run gives back exactly the right frames. -/
theorem Closed.exact (hbase : base % 4096 = 0) (hn : nPages < 2 ^ 52)
    (h : Unmappable c s cr3 (pagesFrom base nPages)) (hfree : Freeable c s.mem cr3 base nPages)
    (hclosed : Closed (start c s cr3) ((pagesFrom base nPages).map key) u) :
    FreesExactly (pageMap s cr3) (pageMap u.pmm cr3) u.freed base nPages := by
  obtain ⟨hnodup, hkeys⟩ := hfree.keys hbase hn
  obtain ⟨tables, hperm, htables, hmem⟩ := hclosed.freed
  have hin : (· ∈ (pagesFrom base nPages).map key) = PageIn base nPages :=
    funext fun page => propext (hkeys page)
  -- the frame of a page visited
  have hframe : ∀ f, f ∈ ((pagesFrom base nPages).map key).flatMap
      (fun p => c.frames (pageMap s cr3 3 p)) ↔ ∃ page e, PageIn base nPages page ∧
        walk (pageMap s cr3) page = some (3, e) ∧ committed e = true ∧ frame e = f := by
    intro f
    simp only [mem_flatMap, mem_frames]
    constructor
    · rintro ⟨p, hp, hcommitted, rfl⟩
      have hne := hclosed.mapped p hp
      have hpage := (hkeys p).1 hp
      obtain ⟨a, ha, rfl⟩ := mem_map.1 hp
      exact ⟨key a, _, hpage, h.walk_eq ha hne hcommitted, hcommitted,
        (h.frames a ha hne hcommitted).1.symm⟩
    · rintro ⟨page, e, hpage, hwalk, hcommitted, rfl⟩
      obtain ⟨a, ha, rfl⟩ := hpage.visited hn
      obtain ⟨rfl, hne⟩ := h.of_walk ha hwalk
      exact ⟨key a, mem_map_of_mem ha, hcommitted, (h.frames a ha hne hcommitted).1⟩
  refine ⟨hperm.nodup_iff.2 (nodup_append.2 ⟨?_, htables, ?_⟩), fun f => ?_,
    fun page hlt hout => hclosed.outside h hlt fun hp => hout ((hkeys page).1 hp).2⟩
  · refine nodup_flatMap.2 ⟨fun p _ => ?_, hnodup.pairwise_of_forall_ne fun p hp q hq hne =>
      hfree.frames_disjoint hn h hp hq hne⟩
    unfold Cpu.frames
    split
    · exact nodup_singleton _
    · exact nodup_nil
  · -- no frame of a page is a table
    rintro f hf t ht rfl
    obtain ⟨page, e, hpage, hwalk, hcommitted, rfl⟩ := (hframe f).1 hf
    obtain ⟨a, ha, rfl⟩ := hpage.visited hn
    obtain ⟨rfl, hne⟩ := h.of_walk ha hwalk
    obtain ⟨d, hd, k, hempty, hchild⟩ := (hmem _).1 ht
    obtain ⟨p, hp, -, rfl⟩ := hempty.1
    exact (h.frames a ha hne hcommitted).2.2.2
      ⟨d, hd, _, page_path ((hkeys p).1 hp).1 hd.le, hchild⟩
  · rw [hperm.mem_iff, mem_append, hframe, hmem, Start.TableGone, hin]

/-- A run without holes that gives back exactly the right frames meets the condition. -/
theorem Closed.freeable (hn : nPages < 2 ^ 52) (h : Unmappable c s cr3 (pagesFrom base nPages))
    (hclosed : Closed (start c s cr3) ((pagesFrom base nPages).map key) u)
    (hexact : FreesExactly (pageMap s cr3) (pageMap u.pmm cr3) u.freed base nPages) :
    Freeable c s.mem cr3 base nPages := by
  have hindex {i j : Nat} (hi : i < nPages) (hj : j < nPages)
      (heq : key ((base + 4096 * i) % 2 ^ 64) = key ((base + 4096 * j) % 2 ^ 64)) : i = j := by
    have hnodup := hclosed.nodup
    rw [pagesFrom, mod_eq_of_lt hn, map_map] at hnodup
    exact inj_on_of_nodup_map hnodup (mem_range.2 hi) (mem_range.2 hj) heq
  have haddr : ∀ i < nPages, base + 4096 * i < 2 ^ 64 ∧ isValidAddress (base + 4096 * i) =
      true := by
    intro i hi
    have hpage : (base + 4096 * i) % 2 ^ 64 ∈ pagesFrom base nPages := mem_pagesFrom hn hi
    have hmem := mem_map_of_mem (f := key) hpage
    have hin : InRange base nPages (key ((base + 4096 * i) % 2 ^ 64)) := by
      by_contra hout
      have hsame := (hexact.outside _ (key_lt _) hout).1
      rw [hclosed.pageMap_eq le_rfl (key_region _),
        pruned_of_emptied (emptied_leaf_iff.2 ⟨hmem, hclosed.mapped _ hmem⟩)] at hsame
      exact hclosed.mapped _ hmem hsame.symm
    obtain ⟨j, hj, heq⟩ := hin
    have hlt := canonical_lt (key_lt ((base + 4096 * i) % 2 ^ 64))
    have hij : i = j := by
      refine hindex hi hj ?_
      rw [← heq, mod_eq_of_lt hlt, key_canonical (key_lt _)]
    rw [hij, ← heq]
    exact ⟨hlt, isValidAddress_canonical (key_lt _)⟩
  have hget : ∀ i < nPages, base + 4096 * i ∈ pagesFrom base nPages := fun i hi => by
    rw [← mod_eq_of_lt (haddr i hi).1]
    exact mem_pagesFrom hn hi
  refine ⟨fun i hi => ⟨(haddr i hi).1, (haddr i hi).2, ?_⟩, fun i hi j hj hci hcj heq => ?_⟩
  · rw [h.pageAllocated_iff (hget i hi)]
    exact hclosed.mapped _ (mem_map_of_mem (hget i hi))
  · by_contra hne
    obtain ⟨tables, hperm, -, -⟩ := hclosed.freed
    have hnodup := (nodup_append.1 (hperm.nodup_iff.1 hexact.once)).1
    have hpages : key (base + 4096 * i) ≠ key (base + 4096 * j) := by
      intro hkey
      refine hne (hindex hi hj ?_)
      rwa [mod_eq_of_lt (haddr i hi).1, mod_eq_of_lt (haddr j hj).1]
    have : Std.Symm (Function.onFun List.Disjoint fun p => c.frames (pageMap s cr3 3 p)) :=
      ⟨fun _ _ hpq => List.Disjoint.symm hpq⟩
    have hdisjoint := (nodup_flatMap.1 hnodup).2.forall (mem_map_of_mem (hget i hi))
      (mem_map_of_mem (hget j hj)) hpages
    rw [h.getL1_eq (hget i hi)] at hci heq
    rw [h.getL1_eq (hget j hj)] at hcj heq
    exact hdisjoint (mem_frames.2 ⟨hci, heq⟩) (mem_frames.2 ⟨hcj, rfl⟩)

end Exact

/-! ## The contract -/

section Contract

variable {c : Cpu} {s : Pmm} {proc : Process} {base size : Nat}

/-- A call that is not rejected runs the loop, over less than the whole address space. -/
theorem virtualFree_accepted (hsize : size < 2 ^ 64)
    (haccept : ∀ e, virtualFree c s proc base size ≠ some (.error e)) :
    sizeToPages size < 2 ^ 52 ∧ virtualFree c s proc base size =
      ((pagesFrom (pageOf base) (sizeToPages size)).foldlM (freePage c proc.cr3) ⟨s, []⟩).map
        .ok := by
  have hpage : pageOf (pageOf base) = pageOf base := pageOf_of_aligned (Nat.mul_mod_left _ _)
  unfold virtualFree procVirtualFree at haccept ⊢
  rw [hpage] at haccept ⊢
  split at haccept
  · exact absurd rfl (haccept _)
  split at haccept
  · exact absurd rfl (haccept _)
  split at haccept
  · exact absurd rfl (haccept _)
  split at haccept
  · exact absurd rfl (haccept _)
  rename_i hbase hvalid huser hmapped
  refine ⟨?_, by rw [if_neg hbase, if_neg hvalid, if_neg huser, if_neg hmapped]⟩
  -- a range as large as the address space would be taken for an empty one
  have hne : sizeToPages size ≠ 2 ^ 52 := by
    intro heq
    rw [heq] at hmapped
    simp [canAllocatePages, pagesFrom] at hmapped
  have hle : sizeToPages size ≤ 2 ^ 52 := by
    unfold sizeToPages
    split <;> omega
  omega

/-- What the loop of an accepted call does. -/
theorem Unmappable.loop {cr3 : Nat} (h : Unmappable c s cr3 (pagesFrom base size)) {u : Unmapping}
    (hret : (pagesFrom base size).foldlM (freePage c cr3) ⟨s, []⟩ = some u) :
    (0 ∈ u.freed ∧ ¬ (((pagesFrom base size).map key).Nodup ∧
        ∀ a ∈ pagesFrom base size, pageMap s cr3 3 (key a) ≠ 0)) ∨
      Closed (start c s cr3) ((pagesFrom base size).map key) u :=
  freeLoop_spec h.valid (fun a _ => key_region a) h.clean (fun _ ha => h.returnable ha) False.elim
    h.held rfl hret

theorem freeLoop_returns (c : Cpu) (cr3 : Nat) (h : s.locked = false) (addrs : List Nat) :
    ∃ u, addrs.foldlM (freePage c cr3) ⟨s, []⟩ = some u :=
  foldlM_total (fun u : Unmapping => u.pmm.locked = false) (fun _ _ hu => freePage_returns hu) addrs
    h

/-- The loop over pages that are all mapped and have different frames. -/
theorem Freeable.loop {cr3 nPages : Nat} (hbase : base % 4096 = 0) (hn : nPages < 2 ^ 52)
    (hwf : Unmappable c s cr3 (pagesFrom base nPages)) (hfree : Freeable c s.mem cr3 base nPages) :
    ∃ u, (pagesFrom base nPages).foldlM (freePage c cr3) ⟨s, []⟩ = some u ∧
      Closed (start c s cr3) ((pagesFrom base nPages).map key) u := by
  obtain ⟨u, hloop⟩ := freeLoop_returns c cr3 hwf.unlocked (pagesFrom base nPages)
  refine ⟨u, hloop, (hwf.loop hloop).resolve_left
    fun ⟨_, hhole⟩ => hhole ⟨(hfree.keys hbase hn).1, fun a ha => ?_⟩⟩
  refine (hwf.pageAllocated_iff ha).1 ?_
  obtain ⟨i, hi, rfl⟩ := mem_map.1 ha
  rw [mod_eq_of_lt hn, mem_range] at hi
  rw [mod_eq_of_lt (hfree.mapped i hi).1]
  exact (hfree.mapped i hi).2.2

/-- A call of `VirtualFree` that is accepted gives back exactly the frames of the committed pages of
the range and of the tables that became empty, each once, and keeps the mapping of all other pages,
exactly when all pages of the range are canonical and mapped and have different frames. -/
theorem virtualFree_exact_iff (hsize : size < 2 ^ 64)
    (hwf : Unmappable c s proc.cr3 (pagesFrom (pageOf base) (sizeToPages size)))
    (haccept : ∀ e, virtualFree c s proc base size ≠ some (.error e)) :
    (∃ u, virtualFree c s proc base size = some (.ok u) ∧
      FreesExactly (pageMap s proc.cr3) (pageMap u.pmm proc.cr3) u.freed (pageOf base)
        (sizeToPages size)) ↔
      Freeable c s.mem proc.cr3 (pageOf base) (sizeToPages size) := by
  have hbase : pageOf base % 4096 = 0 := Nat.mul_mod_left _ _
  obtain ⟨hn, hcall⟩ := virtualFree_accepted hsize haccept
  constructor
  · rintro ⟨u, hret, hexact⟩
    rw [hcall] at hret
    obtain ⟨u', hloop, heq⟩ := Option.map_eq_some_iff.1 hret
    cases heq
    rcases hwf.loop hloop with ⟨hnull, -⟩ | hclosed
    · exact absurd hnull (hexact.null_not_mem hn hwf)
    · exact hclosed.freeable hn hwf hexact
  · intro hfree
    obtain ⟨u, hloop, hclosed⟩ := hfree.loop hbase hn hwf
    exact ⟨u, by rw [hcall, hloop]; rfl, hclosed.exact hbase hn hwf hfree⟩

/-- The page map with one page can be unmapped around that page. -/
theorem unmappable_onePage {addrs : List Nat} (haddrs : ∀ a ∈ addrs, a = 0x5000 ∨ a = 0x6000) :
    Unmappable smallCpu onePage 0x1000 addrs := by
  obtain ⟨htree, hle, -, -, hpool⟩ := ready_onePage
  obtain ⟨hpool, hne, hdead⟩ := hpool.resolve_left (by decide)
  obtain ⟨-, -, htables, -⟩ := onePage_spec surveyed_onePageMapped fun _ h => h
  refine ⟨by decide, htree, hle, hne, hpool.null, hdead, rfl, rfl, by decide, hdead,
    fun a _ d hd => clean_onePage a hd, ?_, ?_⟩
  · intro a ha
    rcases haddrs a ha with rfl | rfl
    · exact .inr (.inl (by decide))
    · exact .inl (by decide)
  · intro a ha hne
    rcases haddrs a ha with rfl | rfl
    · refine fun _ => ⟨by decide, by decide, by decide, fun hlive => ?_⟩
      have := htables _ hlive
      revert this
      decide
    · exact absurd (by decide) hne

theorem freeable_onePage : Freeable smallCpu onePage.mem 0x1000 0x5000 1 := by
  refine ⟨fun i hi => ?_, fun i hi j hj _ _ _ => ?_⟩
  · obtain rfl : i = 0 := lt_one_iff.1 hi
    exact ⟨by decide, by decide, by decide +kernel⟩
  · exact (lt_one_iff.1 hi).trans (lt_one_iff.1 hj).symm

/-- Taking out the one page. -/
theorem virtualFree_exact_iff_onePage :
    Freeable smallCpu onePage.mem 0x1000 (pageOf 0x5000) (sizeToPages 0x1000) ∧
      ∃ u, virtualFree smallCpu onePage ⟨0x1000, true⟩ 0x5000 0x1000 = some (.ok u) ∧
        FreesExactly (pageMap onePage 0x1000) (pageMap u.pmm 0x1000) u.freed (pageOf 0x5000)
          (sizeToPages 0x1000) := by
  have hpages : pagesFrom (pageOf 0x5000) (sizeToPages 0x1000) = [0x5000] := by decide
  have hwf : Unmappable smallCpu onePage (Process.mk 0x1000 true).cr3
      (pagesFrom (pageOf 0x5000) (sizeToPages 0x1000)) :=
    unmappable_onePage fun a ha => .inl (by simpa [hpages] using ha)
  have haccept : ∀ e, virtualFree smallCpu onePage ⟨0x1000, true⟩ 0x5000 0x1000 ≠
      some (.error e) := by
    intro e
    rw [virtualFree, if_neg (by decide), procVirtualFree, if_neg (by decide), if_neg (by decide),
      if_neg (by decide +kernel)]
    intro h
    obtain ⟨_, -, herror⟩ := Option.map_eq_some_iff.1 h
    cases herror
  have hfree := freeable_onePage
  exact ⟨hfree, (virtualFree_exact_iff (by decide) hwf haccept).2 hfree⟩

/-- If the page after the mapped one is taken out with it, physical page 0 is given back. -/
theorem virtualFree_frees_null :
    ∃ u, virtualFree smallCpu onePage ⟨0x1000, true⟩ 0x5000 0x2000 = some (.ok u) ∧ 0 ∈ u.freed ∧
      ¬ FreesExactly (pageMap onePage 0x1000) (pageMap u.pmm 0x1000) u.freed (pageOf 0x5000)
        (sizeToPages 0x2000) := by
  have hpages : pagesFrom (pageOf 0x5000) (sizeToPages 0x2000) = [0x5000, 0x6000] := by decide
  have hwf : Unmappable smallCpu onePage (Process.mk 0x1000 true).cr3
      (pagesFrom (pageOf 0x5000) (sizeToPages 0x2000)) :=
    unmappable_onePage fun a ha => by simpa [hpages] using ha
  obtain ⟨u, hloop⟩ := freeLoop_returns smallCpu 0x1000 hwf.unlocked
    (pagesFrom (pageOf 0x5000) (sizeToPages 0x2000))
  have hcall : virtualFree smallCpu onePage ⟨0x1000, true⟩ 0x5000 0x2000 = some (.ok u) :=
    virtualFree_eq_ok.2 ⟨by decide, by decide, by decide, by decide +kernel, hloop⟩
  rcases hwf.loop hloop with ⟨hnull, -⟩ | hclosed
  · exact ⟨u, hcall, hnull, fun hexact => hexact.null_not_mem (by decide) hwf hnull⟩
  · -- the second page is a hole
    refine absurd ?_ (hclosed.mapped (key 0x6000) (by simp [hpages]))
    decide

end Contract

end Obos.Paging
