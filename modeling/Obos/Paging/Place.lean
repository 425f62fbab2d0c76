import Obos.Paging.DemandPaging

/-!
# Mapping a range of bytes

`VirtualAlloc` is called with a base and a size in bytes. The base is rounded down to a
page, the size is rounded up to a number of pages without regard to the base, and the end
of the range is computed modulo 2^64. `Placed` is the state of the loop; the main theorem,
`virtualAlloc_maps_iff`, says when a call that succeeds has mapped every byte of the range
and nothing else.
-/

namespace Obos.Paging

open Lib Lib.TableTree Physical List

/-! ## The loop -/

/-- The contents `E` of a page map in which the pages `V` have been mapped with entries that meet
`P`: the other pages are found as in `E0`, and clean entries stay clean. -/
structure Placed (c : Cpu) (cr3 : Nat) (P : BitVec 64 → Prop) (E0 : Entries) (V : List Nat)
    (s : Pmm) (E : Entries) : Prop where
  ready : ∃ used, Ready c cr3 (· < 512) s E used
  mapped : ∀ p ∈ V, p < 512 ^ 4 ∧ P (E 3 p) ∧ walk E p = some (3, E 3 p)
  leaf : ∀ p, p ∉ V → E 3 p = E0 3 p
  other : ∀ p < 512 ^ 4, p ∉ V → walk E p = walk E0 p
  clean : ∀ d < 3, ∀ k, Clean c d (E0 d k) → Clean c d (E d k)

section Loop

variable {c : Cpu} {cr3 fuel addr : Nat} {R : Nat → Prop} {s s' : Pmm} {E0 E : Entries}
  {used : Set Nat} {V : List Nat} {g v : BitVec 64} {P : BitVec 64 → Prop}

/-- Every entry made is present. -/
theorem hasBit_allocEntry_zero (hret : allocEntry c fuel g s = some (v, s')) :
    hasBit v 0 = true := by
  unfold allocEntry at hret
  split at hret
  · cases hret
    exact hasBit_demandPagingEntry_zero g
  · obtain ⟨⟨f, s1⟩, -, heq⟩ := Option.map_eq_some_iff.1 hret
    cases heq
    simp

theorem Placed.nil (h : Ready c cr3 (· < 512) s E used) : Placed c cr3 P E [] s E :=
  ⟨⟨used, h⟩, fun _ hp => absurd hp not_mem_nil, fun _ _ => rfl, fun _ _ _ => rfl,
    fun _ _ _ h => h⟩

/-- One more page. -/
theorem Placed.snoc (hc : c.physAddrBits ≤ 52) (h : Placed c cr3 P E0 V s E)
    (hclean : CleanPath c E0 (key addr)) (hP : ∀ s E used v s1, Ready c cr3 (· < 512) s E used →
      allocEntry c fuel g s = some (v, s1) → P v) (hret : allocPage c fuel cr3 g s addr = some s') :
    ∃ E', Placed c cr3 P E0 (V ++ [key addr]) s' E' := by
  obtain ⟨used, hready⟩ := h.ready
  have hcleanE : CleanPath c E (key addr) := fun d hd =>
    h.clean d hd _ (hclean d hd)
  obtain ⟨E', used', v, s1, hentry, hready', -, hopened, -⟩ :=
    allocPage_spec hc (key_region addr) hcleanE hready hret
  have htable {d k : Nat} (hd : d < 3) : set E' 3 (key addr) v d k = E' d k := set_other (by omega)
  have hwalk {p : Nat} (hp : p < 512 ^ 4) (hne : p ≠ key addr) :
      walk (set E' 3 (key addr) v) p = walk E p := by
    calc walk (set E' 3 (key addr) v) p = walk E' p :=
          walk_congr (fun d hd => .inl (htable hd)) (set_other fun hn => hne hn.2)
      _ = walk E p := hopened.walk_eq (hready.tree.hereditary child_zero)
          (show p / 512 ^ 3 < 512 by omega) hcleanE
  have hleaf {p : Nat} (hne : p ≠ key addr) : set E' 3 (key addr) v 3 p = E 3 p :=
    (set_other fun hn => hne hn.2).trans (hopened.leaf p)
  refine ⟨set E' 3 (key addr) v, ⟨used', hready'⟩, fun p hp => ?_, fun p hp => ?_,
    fun p hlt hp => ?_, fun d hd k hk => ?_⟩
  · by_cases heq : p = key addr
    · have htables : ∀ d < 3,
          child (set E' 3 (key addr) v d (key addr / 512 ^ (3 - d))) ≠ none := by
        intro d hd
        obtain ⟨t, hpoints, -⟩ := hopened.path d hd
        rw [htable hd, hpoints.child_eq]
        exact Option.some_ne_none t
      rw [heq, walk_of_tables htables, set_same, if_pos (hasBit_allocEntry_zero hentry)]
      exact ⟨key_lt addr, hP s E used v s1 hready hentry, rfl⟩
    · have hold :=
        (mem_append.1 hp).resolve_right fun hlast => heq (mem_singleton.1 hlast)
      obtain ⟨hlt, hPp, hfound⟩ := h.mapped p hold
      rw [hleaf heq, hwalk hlt heq]
      exact ⟨hlt, hPp, hfound⟩
  · rw [mem_append, not_or, mem_singleton] at hp
    rw [hleaf hp.2, h.leaf p hp.1]
  · rw [mem_append, not_or, mem_singleton] at hp
    rw [hwalk hlt hp.2, h.other p hlt hp.1]
  · rw [htable hd]
    exact clean_of_keepsTable (hopened.keep hd) (h.clean d hd k hk)

/-- A loop that returns has mapped its pages. -/
theorem allocLoop_placed (hc : c.physAddrBits ≤ 52) (h : Ready c cr3 (· < 512) s E used)
    {addrs : List Nat} (hclean : ∀ a ∈ addrs, CleanPath c E (key a))
    (hP : ∀ s E used v s1, Ready c cr3 (· < 512) s E used →
      allocEntry c fuel g s = some (v, s1) → P v)
    (hret : addrs.foldlM (allocPage c fuel cr3 g) s = some s') :
    ∃ E', Placed c cr3 P E (addrs.map key) s' E' := by
  refine foldlM_invariant hret (fun done s => ∃ E', Placed c cr3 P E (done.map key) s E')
    ⟨E, .nil h⟩ ?_
  rintro done a rest s1 s2 rfl ⟨E', hplaced⟩ hbody
  rw [map_append]
  exact hplaced.snoc hc (hclean a (by simp)) hP hbody

end Loop

/-! ## The range -/

/-- The page is not mapped, also not as an uncommitted page of a file. -/
def Unmapped (E : Entries) (page : Nat) : Prop :=
  walk E page = none ∧ hasBit (E 3 page) 10 = false

/-- Every byte of the range, counted over the integers, is on a page that was not mapped and now is,
and the pages without a byte of the range are as they were. -/
structure MapsBytes (E E' : Entries) (base size : Nat) : Prop where
  bytes : ∀ b, base ≤ b → b < base + size →
    ∃ page < 512 ^ 4, canonical page = pageOf b ∧ Unmapped E page ∧ walk E' page ≠ none
  other : ∀ page < 512 ^ 4, (∀ b, base ≤ b → b < base + size → pageOf b ≠ canonical page) →
    E' 3 page = E 3 page ∧ walk E' page = walk E page

/-- The entry maps a huge page. -/
def isHuge (e : BitVec 64) : Bool := hasBit e 0 && hasBit e 7

/-- The page maps and the allocators the statement is about. The tables are not shared and none is
physical page 0, the allocator is locked or has other frames, and the entries above the pages
visited are those of tables the kernel can reach or of huge pages. -/
structure Placeable (c : Cpu) (s : Pmm) (cr3 : Nat) (addrs : List Nat) : Prop where
  cpu : c.physAddrBits ≤ 52
  ready : ∃ used, Ready c cr3 (· < 512) s (pageMap s cr3) used
  null_dead : ¬ Live child (· < 512) 3 (pageMap s cr3) 0
  path : ∀ a ∈ addrs, ∀ d < 3, Clean c d (pageMap s cr3 d (key a / 512 ^ (3 - d))) ∨
    (0 < d ∧ isHuge (pageMap s cr3 d (key a / 512 ^ (3 - d))) = true)

/-- The pages counted reach the end of the range, the end is an address and in the half of the
base, and no huge page is over the range. -/
structure CoversRange (E : Entries) (base size : Nat) : Prop where
  covers : base % 4096 + size ≤ 4096 * sizeToPages size
  fits : pageOf base + 4096 * sizeToPages size < 2 ^ 64
  half : pageOf base < 2 ^ 47 → pageOf base + 4096 * sizeToPages size ≤ 2 ^ 47
  small : ∀ i < sizeToPages size, ∀ d < 3, 0 < d →
    isHuge (E d (key (pageOf base + 4096 * i) / 512 ^ (3 - d))) = false

section Range

variable {c : Cpu} {fuel cr3 base size page : Nat} {s s' : Pmm} {proc : Process} {E : Entries}
  {flags : BitVec 64}

/-- A call for a given base that succeeds. -/
theorem virtualAlloc_ok (hbase : 4096 ≤ base) {r : Nat}
    (h : virtualAlloc c fuel s proc base size flags = some (.ok (r, s'))) :
    isValidAddress (pageOf base) = true ∧ sizeToPages size ≠ 0 ∧
      ¬ (decide (0xffff800000000000 < pageOf base) && proc.isUsermode) = true ∧
      canAllocatePages c s.mem proc.cr3 (pageOf base) (sizeToPages size) = true ∧
      (pagesBelow (pageOf base) (sizeToPages size)).foldlM
        (allocPage c fuel proc.cr3 (flags &&& protAllBitsSet)) s = some s' := by
  have hpage : pageOf base ≠ 0 := by
    unfold pageOf
    omega
  obtain ⟨hvalid, hsize, -, -, huser, hcan, hloop, -⟩ := (virtualAlloc_eq_ok (if_neg hpage)).1 h
  exact ⟨hvalid, hsize, huser, hcan, hloop⟩

/-- The pages of a range that ends below 2^64, and of one that does not. -/
theorem pagesBelow_eq {nPages : Nat} (haligned : base % 4096 = 0) (hn : nPages ≤ 2 ^ 52) :
    pagesBelow base nPages =
      if base + 4096 * nPages < 2 ^ 64 then (range nPages).map fun i => base + 4096 * i
      else [] := by
  unfold pagesBelow
  split
  · rw [show ((base + nPages * 4096) % 2 ^ 64 - base) / 4096 = nPages by omega]
  · rw [show ((base + nPages * 4096) % 2 ^ 64 - base) / 4096 = 0 by omega]
    rfl

theorem sizeToPages_bounds (size : Nat) :
    size ≤ 4096 * sizeToPages size ∧ 4096 * sizeToPages size < size + 4096 := by
  unfold sizeToPages
  split <;> omega

/-- A page that is not found has no huge page on its path. -/
theorem clean_of_walk_none {m : Memory} {R : Nat → Prop} (htree : Represents child m cr3 R 3 E)
    (hR : R (page / 512 ^ 3)) (hpath : ∀ d < 3, Clean c d (E d (page / 512 ^ (3 - d))) ∨
      (0 < d ∧ isHuge (E d (page / 512 ^ (3 - d))) = true)) (hnone : walk E page = none) :
    CleanPath c E page := by
  have hher := htree.hereditary child_zero
  have hhuge {e : BitVec 64} (he : isHuge e = true) : child e = none ∧ hasBit e 0 = true := by
    simp only [isHuge, Bool.and_eq_true] at he
    refine ⟨?_, he.1⟩
    rw [child, he.1, he.2]
    rfl
  have hne {e : BitVec 64} (he : isHuge e = true) : e ≠ 0 := by
    rintro rfl
    exact absurd he (by decide)
  -- an entry above one that is not zero is that of a table
  have habove {d d' : Nat} (hlt : d < d') (hd' : d' < 3) (hne' : E d' (page / 512 ^ (3 - d')) ≠ 0)
      (hclean : Clean c d (E d (page / 512 ^ (3 - d)))) :
      ∃ t, child (E d (page / 512 ^ (3 - d))) = some t := by
    have hne : E d (page / 512 ^ (3 - d)) ≠ 0 := by
      intro hzero
      refine hne' (hher.below hlt.le hd'.le (region_path hR hd'.le) ?_)
      rw [div_below hlt.le hd'.le]
      exact hzero
    obtain ⟨t, ht, -⟩ := hclean.resolve_left hne
    exact ⟨t, ht.child_eq⟩
  have h0 := (hpath 0 (by decide)).resolve_right fun h => absurd h.1 (by decide)
  have h1 : Clean c 1 (E 1 (page / 512 ^ (3 - 1))) := by
    refine (hpath 1 (by decide)).resolve_right fun hlarge => ?_
    have he := hlarge.2
    obtain ⟨t0, ht0⟩ := habove (d := 0) (by decide) (by decide) (hne he) h0
    obtain ⟨hchild, hbit⟩ := hhuge he
    simp only [walk, ht0, descend, hchild, hbit, if_true] at hnone
    cases hnone
  have h2 : Clean c 2 (E 2 (page / 512 ^ (3 - 2))) := by
    refine (hpath 2 (by decide)).resolve_right fun hlarge => ?_
    have he := hlarge.2
    obtain ⟨t0, ht0⟩ := habove (d := 0) (by decide) (by decide) (hne he) h0
    obtain ⟨t1, ht1⟩ := habove (d := 1) (by decide) (by decide) (hne he) h1
    obtain ⟨hchild, hbit⟩ := hhuge he
    simp only [walk, ht0, descend, ht1, hchild, hbit, if_true] at hnone
    cases hnone
  intro d hd
  obtain rfl | rfl | rfl : d = 0 ∨ d = 1 ∨ d = 2 := by omega
  · exact h0
  · exact h1
  · exact h2

/-- The pages of a range that does not leave its half have their own keys. -/
theorem canonical_range (hvalid : isValidAddress (pageOf base) = true)
    (hfits : pageOf base + 4096 * sizeToPages size < 2 ^ 64)
    (hhalf : pageOf base < 2 ^ 47 → pageOf base + 4096 * sizeToPages size ≤ 2 ^ 47) {i : Nat}
    (hi : i < sizeToPages size) :
    canonical (key (pageOf base + 4096 * i)) = pageOf base + 4096 * i := by
  refine canonical_key (by unfold pageOf; omega) ?_
  unfold isValidAddress at hvalid ⊢
  simp only [Bool.or_eq_true, beq_iff_eq] at hvalid ⊢
  omega

/-- Every page counted has a byte of the range. -/
theorem exists_byte_on (base : Nat) {i : Nat} (hi : i < sizeToPages size) :
    ∃ b, base ≤ b ∧ b < base + size ∧ pageOf b = pageOf base + 4096 * i := by
  obtain ⟨hlo, hhi⟩ := sizeToPages_bounds size
  refine ⟨max base (pageOf base + 4096 * i), le_max_left _ _, ?_, ?_⟩
  · unfold pageOf
    omega
  · unfold pageOf
    omega

/-- `CanAllocatePages` accepts a range in which no page is mapped. -/
theorem pageAllocated_of_canAllocatePages {nPages i : Nat}
    (hcan : canAllocatePages c s.mem cr3 (pageOf base) nPages = true)
    (hfits : pageOf base + 4096 * nPages < 2 ^ 64) (hi : i < nPages) :
    pageAllocated c s.mem cr3 (pageOf base + 4096 * i) = false := by
  have haligned : (pageOf base + 4096 * i) % 4096 = 0 := by
    unfold pageOf
    omega
  have hpage : pageOf (pageOf base) = pageOf base := pageOf_of_aligned (by unfold pageOf; omega)
  rw [canAllocatePages, hpage, all_eq_true] at hcan
  have hvisited : pageOf base + 4096 * i ∈ pagesFrom (pageOf base) nPages := by
    refine mem_map.2 ⟨i, ?_, Nat.mod_eq_of_lt (by omega)⟩
    rw [Nat.mod_eq_of_lt (by omega)]
    exact mem_range.2 hi
  have hnot := hcan _ hvisited
  rwa [pagesAllocated_one haligned (by omega), Bool.not_eq_true'] at hnot

/-- A page with a clean path that is not counted as allocated is not mapped. -/
theorem unmapped_of_not_pageAllocated {m : Memory} {R : Nat → Prop} {a : Nat}
    (htree : Represents child m cr3 R 3 E) (hcr3 : cr3 ≤ 2 ^ c.physAddrBits)
    (hdead : ¬ Live child R 3 E 0) (hR : R (key a / 512 ^ 3)) (hclean : CleanPath c E (key a))
    (h : pageAllocated c m cr3 a = false) : Unmapped E (key a) := by
  have hbits : ¬ (hasBit (E 3 (key a)) 0 = true ∨ hasBit (E 3 (key a)) 10 = true) := by
    intro hbit
    have hne : E 3 (key a) ≠ 0 := by
      intro hzero
      simp [hzero] at hbit
    rw [(pageAllocated_iff_of_clean htree hcr3 hdead hR hclean (.inr hbit)).2 hne] at h
    cases h
  rw [not_or, Bool.not_eq_true, Bool.not_eq_true] at hbits
  refine ⟨?_, hbits.2⟩
  by_contra hsome
  have hpresent := (tables_of_walk hclean hsome).2
  rw [hbits.1] at hpresent
  cases hpresent

theorem mem_pagesBelow_of_fits (hfits : pageOf base + 4096 * sizeToPages size < 2 ^ 64) {a : Nat} :
    a ∈ pagesBelow (pageOf base) (sizeToPages size) ↔
      ∃ i < sizeToPages size, a = pageOf base + 4096 * i := by
  rw [pagesBelow_eq (by unfold pageOf; omega) (by omega), if_pos hfits]
  simp only [mem_map, mem_range, eq_comm]

theorem MapsBytes.unmapped {E' : Entries} (h : MapsBytes E E' base size) {i : Nat}
    (hi : i < sizeToPages size) : Unmapped E (key (pageOf base + 4096 * i)) := by
  obtain ⟨b, hge, hb, hon⟩ := exists_byte_on base hi
  obtain ⟨page, hpage, hcanonical, hun, -⟩ := h.bytes b hge hb
  rwa [← hon, ← hcanonical, key_canonical hpage]

/-- A range with every byte mapped does not reach the addresses between the halves. -/
theorem MapsBytes.half {E' : Entries} (h : MapsBytes E E' base size)
    (hlow : pageOf base < 2 ^ 47) : pageOf base + 4096 * sizeToPages size ≤ 2 ^ 47 := by
  obtain ⟨-, hhi⟩ := sizeToPages_bounds size
  by_contra hcross
  -- the first byte above the lower half is one of the range
  obtain ⟨page, hpage, hcanonical, -⟩ := h.bytes (2 ^ 47)
    (by unfold pageOf at hlow; omega) (by unfold pageOf at hcross hlow; omega)
  have hvalid := isValidAddress_canonical hpage
  rw [hcanonical] at hvalid
  exact absurd hvalid (by decide)

section

variable (h : Placeable c s proc.cr3 (pagesBelow (pageOf base) (sizeToPages size)))
  (hloop : (pagesBelow (pageOf base) (sizeToPages size)).foldlM
    (allocPage c fuel proc.cr3 (flags &&& protAllBitsSet)) s = some s')
include h hloop

/-- A call that succeeds on a range that fits, with no huge page over it, maps the pages counted and
no other. -/
theorem Placeable.placed (hfits : pageOf base + 4096 * sizeToPages size < 2 ^ 64)
    (hsmall : ∀ i < sizeToPages size, ∀ d < 3, 0 < d →
      isHuge (pageMap s proc.cr3 d (key (pageOf base + 4096 * i) / 512 ^ (3 - d))) = false) :
    (∀ i < sizeToPages size,
      walk (pageMap s' proc.cr3) (key (pageOf base + 4096 * i)) ≠ none) ∧
    ∀ p < 512 ^ 4, (∀ i < sizeToPages size, p ≠ key (pageOf base + 4096 * i)) →
      pageMap s' proc.cr3 3 p = pageMap s proc.cr3 3 p ∧
        walk (pageMap s' proc.cr3) p = walk (pageMap s proc.cr3) p := by
  obtain ⟨used, hready⟩ := h.ready
  have hclean : ∀ a ∈ pagesBelow (pageOf base) (sizeToPages size),
      CleanPath c (pageMap s proc.cr3) (key a) := by
    intro a ha d hd
    refine (h.path a ha d hd).resolve_right fun ⟨hpos, hhuge⟩ => ?_
    obtain ⟨i, hi, rfl⟩ := (mem_pagesBelow_of_fits hfits).1 ha
    rw [hsmall i hi d hd hpos] at hhuge
    cases hhuge
  obtain ⟨E', hplaced⟩ := allocLoop_placed (P := fun _ => True) h.cpu hready hclean
    (fun _ _ _ _ _ _ _ => trivial) hloop
  obtain ⟨used', hready'⟩ := hplaced.ready
  refine ⟨fun i hi => ?_, fun p hp hout => ?_⟩
  · obtain ⟨hlt, -, hwalk⟩ := hplaced.mapped _
      (mem_map_of_mem ((mem_pagesBelow_of_fits hfits).2 ⟨i, hi, rfl⟩))
    rw [walk_pageMap hready'.tree hlt, hwalk]
    exact Option.some_ne_none _
  · have hnot : p ∉ (pagesBelow (pageOf base) (sizeToPages size)).map key := by
      intro hmem
      obtain ⟨a, ha, rfl⟩ := mem_map.1 hmem
      obtain ⟨i, hi, rfl⟩ := (mem_pagesBelow_of_fits hfits).1 ha
      exact hout i hi rfl
    rw [walk_pageMap hready'.tree hp, hplaced.other p hp hnot, ← hplaced.leaf p hnot]
    exact ⟨(hready'.tree.eq_entries 3 le_rfl p (show p / 512 ^ 3 < 512 by omega)).symm, rfl⟩

/-- The pages counted cover a range that a call has mapped. -/
theorem Placeable.coversRange (hsize : size < 2 ^ 64) (hvalid : isValidAddress (pageOf base) = true)
    (hne : sizeToPages size ≠ 0)
    (hmaps : MapsBytes (pageMap s proc.cr3) (pageMap s' proc.cr3) base size) :
    CoversRange (pageMap s proc.cr3) base size := by
  obtain ⟨hlo, hhi⟩ := sizeToPages_bounds size
  have hfits : pageOf base + 4096 * sizeToPages size < 2 ^ 64 := by
    by_contra hwraps
    rw [pagesBelow_eq (by unfold pageOf; omega) (by omega), if_neg hwraps] at hloop
    cases hloop
    obtain ⟨page, -, -, hunmapped, hmapped⟩ := hmaps.bytes base le_rfl (by omega)
    exact hmapped hunmapped.1
  obtain ⟨used, hready⟩ := h.ready
  have hsmall : ∀ i < sizeToPages size, ∀ d < 3, 0 < d →
      isHuge (pageMap s proc.cr3 d (key (pageOf base + 4096 * i) / 512 ^ (3 - d))) = false := by
    intro i hi d hd _
    have hpath := h.path _ ((mem_pagesBelow_of_fits hfits).2 ⟨i, hi, rfl⟩)
    have hregion : key (pageOf base + 4096 * i) / 512 ^ 3 < 512 := key_region _
    have hclean := clean_of_walk_none hready.tree hregion hpath (hmaps.unmapped hi).1 d hd
    rw [isHuge, hclean.hasBit_seven, Bool.and_false]
  refine ⟨?_, hfits, hmaps.half, hsmall⟩
  by_contra hshort
  -- the last byte of the range is on the page after those counted
  obtain ⟨page, hpage, hcanonical, hun, hmapped⟩ := hmaps.bytes (base + size - 1)
    (by omega) (by omega)
  refine hmapped ?_
  rw [((h.placed hloop hfits hsmall).2 page hpage fun i hi heq => ?_).2]
  · exact hun.1
  · rw [heq, canonical_range hvalid hfits hmaps.half hi] at hcanonical
    unfold pageOf at hcanonical
    omega

/-- A call maps every byte of a range its pages cover. -/
theorem Placeable.mapsBytes (hvalid : isValidAddress (pageOf base) = true)
    (hcan : canAllocatePages c s.mem proc.cr3 (pageOf base) (sizeToPages size) = true)
    (hcovers : CoversRange (pageMap s proc.cr3) base size) :
    MapsBytes (pageMap s proc.cr3) (pageMap s' proc.cr3) base size := by
  obtain ⟨hreach, hfits, hhalf, hsmall⟩ := hcovers
  obtain ⟨hmapped, hother⟩ := h.placed hloop hfits hsmall
  obtain ⟨used, hready⟩ := h.ready
  refine ⟨fun b hge hb => ?_, fun page hpage hout => hother page hpage fun i hi heq => ?_⟩
  · obtain ⟨i, hi, hon⟩ : ∃ i < sizeToPages size, pageOf b = pageOf base + 4096 * i := by
      refine ⟨(pageOf b - pageOf base) / 4096, ?_, ?_⟩ <;> unfold pageOf <;> omega
    rw [hon]
    refine ⟨_, key_lt _, canonical_range hvalid hfits hhalf hi, ?_, hmapped i hi⟩
    have hvisited := (mem_pagesBelow_of_fits hfits).2 ⟨i, hi, rfl⟩
    have hregion : key (pageOf base + 4096 * i) / 512 ^ 3 < 512 := key_region _
    refine unmapped_of_not_pageAllocated hready.tree hready.cr3_le h.null_dead hregion
      (fun d hd => ?_) (pageAllocated_of_canAllocatePages hcan hfits hi)
    refine (h.path _ hvisited d hd).resolve_right fun ⟨hpos, hhuge⟩ => ?_
    rw [hsmall i hi d hd hpos] at hhuge
    cases hhuge
  · obtain ⟨b, hge, hb, hon⟩ := exists_byte_on base hi
    refine hout b hge hb ?_
    rw [heq, hon, canonical_range hvalid hfits hhalf hi]

end

/-- A call that succeeds has mapped every byte of the range, and nothing else, exactly if the pages
counted cover the range. -/
theorem virtualAlloc_maps_iff (hbase : 4096 ≤ base) (hsize : size < 2 ^ 64)
    (h : Placeable c s proc.cr3 (pagesBelow (pageOf base) (sizeToPages size))) {r : Nat}
    (hret : virtualAlloc c fuel s proc base size flags = some (.ok (r, s'))) :
    MapsBytes (pageMap s proc.cr3) (pageMap s' proc.cr3) base size ↔
      CoversRange (pageMap s proc.cr3) base size := by
  obtain ⟨hvalid, hne, -, hcan, hloop⟩ := virtualAlloc_ok hbase hret
  exact ⟨h.coversRange hloop hsize hvalid hne, h.mapsBytes hloop hvalid hcan⟩

theorem placeable_spareFrames : Placeable smallCpu spareFrames 0x1000 [0x200000] :=
  ⟨by decide, ⟨_, allocatable_spareFrames.ready⟩, allocatable_spareFrames.null_dead,
    fun a ha d hd => .inl (allocatable_spareFrames.clean a ha d hd)⟩

/-- The call succeeds there, also from the middle of the page. -/
theorem virtualAlloc_spareFrames (base : Nat) (hbase : pageOf base = 0x200000) :
    ∃ s', virtualAlloc smallCpu 1 spareFrames ⟨0x1000, true⟩ base 0x1000 0 =
        some (.ok (0x200000, s')) ∧
      (pagesBelow (pageOf base) (sizeToPages 0x1000)).foldlM
        (allocPage smallCpu 1 0x1000 (0 &&& protAllBitsSet)) spareFrames = some s' ∧
      s'.locked = false := by
  have h := allocatable_spareFrames
  obtain ⟨s', E, free, hloop, hfilled⟩ := allocLoop_filled h.cpu Nat.one_pos (by decide) h.clean
    h.enough (Filled.nil h.ready h.stock) (0 &&& protAllBitsSet)
  have hpages : pagesBelow 0x200000 (sizeToPages 0x1000) = [0x200000] := by decide
  rw [hbase]
  refine ⟨s', (virtualAlloc_eq_ok (b := 0x200000) ?_).2 ⟨by rw [hbase]; decide, by decide,
    by decide, by decide, by decide, by decide +kernel, hloop, rfl⟩, hloop, hfilled.stock.unlocked⟩
  rw [allocBase, hbase]
  rfl

theorem virtualAlloc_maps_iff_spareFrames :
    ∃ s', virtualAlloc smallCpu 1 spareFrames ⟨0x1000, true⟩ 0x200000 0x1000 0 =
        some (.ok (0x200000, s')) ∧
      (MapsBytes (pageMap spareFrames 0x1000) (pageMap s' 0x1000) 0x200000 0x1000 ↔
        CoversRange (pageMap spareFrames 0x1000) 0x200000 0x1000) := by
  obtain ⟨s', hret, -⟩ := virtualAlloc_spareFrames 0x200000 (by decide)
  refine ⟨s', hret, virtualAlloc_maps_iff (by decide) (by decide) ?_ hret⟩
  exact placeable_spareFrames

/-- A page that is asked for from its middle: the call succeeds and the second half is not
mapped. -/
theorem virtualAlloc_unaligned_short :
    ∃ s', virtualAlloc smallCpu 1 spareFrames ⟨0x1000, true⟩ 0x200800 0x1000 0 =
        some (.ok (0x200000, s')) ∧
      ¬ MapsBytes (pageMap spareFrames 0x1000) (pageMap s' 0x1000) 0x200800 0x1000 := by
  obtain ⟨s', hret, hloop, -⟩ := virtualAlloc_spareFrames 0x200800 (by decide)
  refine ⟨s', hret, fun hmaps => ?_⟩
  have hcovers := @Placeable.coversRange smallCpu 1 0x200800 0x1000 spareFrames s' ⟨0x1000, true⟩ 0
      placeable_spareFrames hloop (by decide) (by decide) (by decide) hmaps
  exact absurd hcovers.covers (by decide)

end Range

end Obos.Paging
