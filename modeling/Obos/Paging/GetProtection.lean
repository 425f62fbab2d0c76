import Obos.Paging.Place

/-!
# Reading back a protection

`VirtualGetProtection` reads the flags of a page from its entry, after the bits of the physical
address are masked out. A committed page has hardware flags, a demand-paged one carries the
protection flags in the bits from 52 on, and the mask is as wide as the physical addresses of the
processor, shifted by 12. The main theorem, `virtualGetProtection_reports_iff`, says for which
processors and flags the flags asked for are reported.
-/

namespace Obos.Paging

open Lib Lib.TableTree Physical List

/-! ## The two encodings -/

/-- The flags to report for a page: those asked for, with `PROT_IS_PRESENT`, and without
`PROT_NO_COW_ON_ALLOCATE` for a page that was given its frame at once. -/
def expectedProtection (atOnce : Bool) (flags : BitVec 64) : BitVec 64 :=
  (if atOnce then flags &&& ~~~protNoCowOnAllocate else flags) ||| protIsPresent

/-- The mask does not reach the place of a flag: bit 63 of a committed page, which is clear where
the page may be executed, and bit 52 + j for flag j of a demand-paged one. -/
def Readable (c : Cpu) (atOnce : Bool) (flags : BitVec 64) : Prop :=
  if atOnce then c.physAddrBits ≤ 51 ∨ hasBit flags 2 = true
  else ∀ j < 5, hasBit flags j = true → c.physAddrBits ≤ 40 + j

/-- An entry made for flags: it is of the kind of the page, and its flags are read back where they
are readable. -/
structure MadeFor (c : Cpu) (atOnce : Bool) (flags e : BitVec 64) : Prop where
  present : hasBit e 0 = true
  demand : hasBit e 9 = !atOnce
  encodes : encodeProtectionFlags c e = expectedProtection atOnce flags ↔ Readable c atOnce flags

section Encoding

variable {c : Cpu} {g e : BitVec 64}

theorem hasBit_and_protAllBitsSet {i : Nat} (hi : 6 ≤ i) (flags : BitVec 64) :
    hasBit (flags &&& protAllBitsSet) i = false := by
  simp [protAllBitsSet, show ¬ i < 6 by omega]

/-- What is read from a demand-paged entry. -/
theorem hasBit_encode_demand (h0 : hasBit e 0 = true) (h9 : hasBit e 9 = true) {i : Nat}
    (hi : i < 64) : hasBit (encodeProtectionFlags c e) i =
      (decide (i = 5) || (decide (i < 7) && (hasBit e (52 + i) &&
        !decide (52 + i < c.physAddrBits + 12)))) := by
  have hmask : hasBit (e &&& ~~~c.physAddrMask) 0 = true := by simp [h0, hasBit_physAddrMask]
  have hmask9 : hasBit (e &&& ~~~c.physAddrMask) 9 = true := by simp [h9, hasBit_physAddrMask]
  rw [encodeProtectionFlags]
  simp only [hmask, hmask9, Bool.not_true, Bool.false_eq_true, if_false, if_true]
  by_cases h7 : i < 7
  · have h52 : 52 + i < 64 := by omega
    have h12 : 12 ≤ 52 + i := by omega
    simp [protIsPresent, hasBit_physAddrMask, hi, h7, h52, h12, eq_comm]
  · simp [protIsPresent, h7, eq_comm]

variable (hg : ∀ i, 6 ≤ i → hasBit g i = false)
include hg

/-- The flags of a demand-paged entry are read back where they are readable. -/
theorem encode_demand_iff (h0 : hasBit e 0 = true) (h9 : hasBit e 9 = true)
    (hbits : ∀ i < 7, hasBit e (52 + i) = hasBit g i) :
    encodeProtectionFlags c e = expectedProtection false g ↔ Readable c false g := by
  have hexpected (i : Nat) : hasBit (expectedProtection false g) i =
      (hasBit g i || decide (i = 5)) := by
    simp [expectedProtection, protIsPresent, eq_comm]
  constructor
  · intro heq j hj hset
    have hbit : hasBit (encodeProtectionFlags c e) j = true := by
      rw [heq, hexpected, hset, Bool.true_or]
    rw [hasBit_encode_demand h0 h9 (by omega)] at hbit
    simp only [Bool.or_eq_true, Bool.and_eq_true, decide_eq_true_eq, Bool.not_eq_true',
      decide_eq_false_iff_not] at hbit
    omega
  · intro hread
    refine eq_of_hasBit_eq fun i hi => ?_
    rw [hasBit_encode_demand h0 h9 hi, hexpected]
    by_cases h5 : i = 5
    · simp [h5]
    · by_cases h7 : i < 7
      · rw [hbits i h7]
        cases hset : hasBit g i with
        | false => simp [h5]
        | true =>
        have hlow : i < 5 := by
          by_contra hge
          rw [hg i (by omega)] at hset
          cases hset
        have hwidth := hread i hlow hset
        simp [h7, show ¬ 52 + i < c.physAddrBits + 12 by omega]
      · simp [h7, hg i (by omega)]

/-- The flags of a committed entry are read back, except that every page is executable where the
mask has bit 63. -/
theorem encode_committed_iff (hc : c.physAddrBits ≤ 52) (h0 : hasBit e 0 = true)
    (h9 : hasBit e 9 = false) (h1 : hasBit e 1 = !hasBit g 0) (h2 : hasBit e 2 = hasBit g 1)
    (h4 : hasBit e 4 = hasBit g 4) (h63 : c.physAddrBits ≤ 51 → hasBit e 63 = !hasBit g 2) :
    encodeProtectionFlags c e = expectedProtection true g ↔ Readable c true g := by
  have hlow {i : Nat} (hi : i < 12) : hasBit (e &&& ~~~c.physAddrMask) i = hasBit e i := by
    simp [hasBit_physAddrMask, show ¬ 12 ≤ i by omega, show i < 64 by omega]
  have hhigh : (!hasBit (e &&& ~~~c.physAddrMask) 63) = hasBit g 2 ↔ Readable c true g := by
    by_cases hw : c.physAddrBits ≤ 51
    · simp [Readable, hw, hasBit_physAddrMask, h63 hw, show ¬ 63 < c.physAddrBits + 12 by omega]
    · have hmasked : hasBit (e &&& ~~~c.physAddrMask) 63 = false := by
        simp [hasBit_physAddrMask, show 63 < c.physAddrBits + 12 by omega]
      rw [hmasked, Readable, if_pos rfl]
      exact ⟨fun h => .inr h.symm, fun h => (h.resolve_left hw).symm⟩
  rw [← hhigh, encodeProtectionFlags]
  simp only [hlow (show 0 < 12 by omega), hlow (show 1 < 12 by omega), hlow (show 2 < 12 by omega),
    hlow (show 4 < 12 by omega), hlow (show 9 < 12 by omega), h0, h9, h1, h2, h4, Bool.not_true,
    Bool.not_not, Bool.false_eq_true, if_false]
  generalize hasBit (e &&& ~~~c.physAddrMask) 63 = x
  constructor
  · intro heq
    have hbit := congrArg (hasBit · 2) heq
    simpa [expectedProtection, protIsPresent, protReadOnly, protDisableCache, protUserModeAccess,
      protCanExecute, protNoCowOnAllocate] using hbit
  · intro heq
    refine eq_of_hasBit_eq fun i hi => ?_
    rw [heq]
    by_cases h6 : 6 ≤ i
    · have h (j : Nat) (hj : j < 6) : ¬ j = i := by omega
      simp [expectedProtection, protIsPresent, protReadOnly, protDisableCache, protUserModeAccess,
        protCanExecute, hg i h6, h 0, h 1, h 2, h 4, h 5]
    · obtain rfl | rfl | rfl | rfl | rfl | rfl :
          i = 0 ∨ i = 1 ∨ i = 2 ∨ i = 3 ∨ i = 4 ∨ i = 5 := by omega
      all_goals simp [expectedProtection, protIsPresent, protReadOnly, protDisableCache,
        protUserModeAccess, protCanExecute, protNoCowOnAllocate]

/-- The entries of `VirtualAlloc`. -/
theorem madeFor_allocEntry {cr3 fuel : Nat} {R : Nat → Prop} {s s' : Pmm} {E : Entries}
    {used : Set Nat} (hc : c.physAddrBits ≤ 52) (hnx : c.executeDisable = true)
    (h : Ready c cr3 R s E used)
    (hret : allocEntry c fuel g s = some (e, s')) : MadeFor c (hasBit g 3) g e := by
  have hpresent := hasBit_allocEntry_zero hret
  unfold allocEntry at hret
  split at hret
  · rename_i hcow
    rw [Bool.not_eq_true'] at hcow
    cases hret
    rw [hcow]
    have h9 := hasBit_demandPagingEntry_nine g
    refine ⟨hpresent, h9, encode_demand_iff hg hpresent h9 fun i hi => ?_⟩
    simp [demandPagingEntry, show 52 + i < 64 by omega, show ¬ 9 = 52 + i by omega,
      show ¬ 0 = 52 + i by omega, show ¬ 63 = 52 + i by omega]
  · rename_i hcow
    rw [Bool.not_eq_true', Bool.not_eq_false] at hcow
    obtain ⟨⟨f, s1⟩, halloc, heq⟩ := Option.map_eq_some_iff.1 hret
    cases heq
    have hsup := h.allocate halloc
    have hframe {i : Nat} (hi : i < 12 ∨ i = 63) : hasBit (BitVec.ofNat 64 f) i = false :=
      hasBit_ofNat_frame_of_not hsup.aligned hsup.lt (by omega)
    have hcpu : cpuFlags c g = decodeProtectionFlags c g ||| bit 0 := by
      rw [cpuFlags, hcow]
      rfl
    have hbits {i : Nat} (hi : 0 < i ∧ i < 12 ∨ i = 63) :
        hasBit (BitVec.ofNat 64 f ||| cpuFlags c g ||| bit 0) i =
          hasBit (decodeProtectionFlags c g) i := by
      simp [hcpu, hframe (show i < 12 ∨ i = 63 by omega), show ¬ 0 = i by omega]
    have h9 : hasBit (BitVec.ofNat 64 f ||| cpuFlags c g ||| bit 0) 9 = false := by
      rw [hbits (by omega)]
      simp [decodeProtectionFlags]
    rw [hcow]
    refine ⟨hpresent, h9, encode_committed_iff hg hc hpresent h9 ?_ ?_ ?_ fun _ => ?_⟩
    all_goals rw [hbits (by omega)]; simp [decodeProtectionFlags, protAllBitsSet, hnx]

/-- The entries of `VirtualProtect`. -/
theorem madeFor_protectEntry {atOnce : Bool} (hc : c.physAddrBits ≤ 52)
    (hnx : c.executeDisable = true)
    (h : hasBit e 9 = !atOnce) : MadeFor c atOnce g (protectEntry c g e) := by
  have h0 : hasBit (protectEntry c g e) 0 = true := hasBit_protectEntry_zero
  have h9 : hasBit (protectEntry c g e) 9 = !atOnce := hasBit_protectEntry_nine.trans h
  refine ⟨h0, h9, ?_⟩
  cases atOnce with
  | false =>
  refine encode_demand_iff hg h0 h9 fun i hi => ?_
  rw [protectEntry, if_pos (show hasBit e 9 = true from h)]
  simp [show 52 + i < 64 by omega, show ¬ 9 = 52 + i by omega, show ¬ 0 = 52 + i by omega,
    show ¬ 63 = 52 + i by omega]
  | true =>
  have hbits {i : Nat} (hi : 0 < i ∧ i < 12 ∨ c.physAddrBits ≤ 51 ∧ i = 63) :
      hasBit (protectEntry c g e) i = hasBit (decodeProtectionFlags c g) i := by
    rw [protectEntry, if_neg (by simp [h])]
    simp [hasBit_physAddrMask, show ¬ (12 ≤ i ∧ i < c.physAddrBits + 12) by omega,
      show ¬ 0 = i by omega]
  refine encode_committed_iff hg hc h0 h9 ?_ ?_ ?_ fun hw => ?_
  all_goals rw [hbits (by omega)]; simp [decodeProtectionFlags, protAllBitsSet, hnx]

end Encoding

/-! ## The report -/

/-- `VirtualGetProtection` reports the same flags for each page of the range. -/
def Reports (c : Cpu) (s : Pmm) (proc : Process) (base size : Nat) (flags : BitVec 64) : Prop :=
  virtualGetProtection c s.mem proc base size = .ok (List.replicate (sizeToPages size) flags)

/-- Pages whose tables the kernel can use, with entries made for flags. -/
structure Shown (c : Cpu) (cr3 : Nat) (atOnce : Bool) (flags : BitVec 64) (V : List Nat) (s : Pmm)
    (E : Entries) : Prop where
  ready : ∃ used, Ready c cr3 (· < 512) s E used
  null_dead : ¬ Live child (· < 512) 3 E 0
  path : ∀ p ∈ V, ∀ d < 3, ∃ t, PointsTo c (E d (p / 512 ^ (3 - d))) t
  leaf : ∀ p ∈ V, MadeFor c atOnce flags (E 3 p)

section Report

variable {c : Cpu} {fuel cr3 base size addr : Nat} {s s' : Pmm} {proc : Process} {E : Entries}
  {flags g : BitVec 64} {atOnce : Bool} {V : List Nat}

theorem Shown.clean (h : Shown c cr3 atOnce g (V.map key) s E) (ha : addr ∈ V) {d : Nat}
    (hd : d < 3) : Clean c d (E d (key addr / 512 ^ (3 - d))) := by
  obtain ⟨t, ht⟩ := h.path _ (mem_map_of_mem ha) d hd
  refine .inr ⟨t, ht, fun _ hzero => h.null_dead ?_⟩
  exact ⟨d, hd, _, key_path addr hd.le, hzero ▸ ht.child_eq⟩

/-- The flags of such a page are those of its entry. -/
theorem Shown.pageProtection (h : Shown c cr3 atOnce g (V.map key) s E) (ha : addr ∈ V)
    (haligned : addr % 4096 = 0) (hlt : addr < 2 ^ 64) :
    pageProtection c s.mem cr3 addr = encodeProtectionFlags c (E 3 (key addr)) := by
  obtain ⟨used, hready⟩ := h.ready
  have hclean : CleanPath c E (key addr) := fun d hd => h.clean ha hd
  have hpresent := (h.leaf _ (mem_map_of_mem ha)).present
  have hne : E 3 (key addr) ≠ 0 := by
    intro hzero
    rw [hzero] at hpresent
    simp at hpresent
  have hallocated := (pageAllocated_iff_of_clean hready.tree hready.cr3_le h.null_dead
    (key_region addr) hclean (Or.inr (Or.inl hpresent))).2 hne
  rw [Paging.pageProtection, pagesAllocated_one haligned hlt, hallocated, if_pos rfl,
    getL1PageMapEntryAt_of_clean hready.tree hready.cr3_le (key_region addr) h.null_dead hclean]

theorem pagesFrom_eq_pagesBelow {nPages : Nat} (haligned : base % 4096 = 0)
    (hfits : base + 4096 * nPages < 2 ^ 64) : pagesFrom base nPages = pagesBelow base nPages := by
  rw [pagesBelow_eq haligned (by omega), if_pos hfits, pagesFrom, Nat.mod_eq_of_lt (by omega)]
  refine map_congr_left fun i hi => Nat.mod_eq_of_lt ?_
  rw [mem_range] at hi
  omega

/-- The report on such pages is right where the flags are readable. -/
theorem Shown.reports_iff
    (h : Shown c proc.cr3 atOnce g ((pagesBelow base (sizeToPages size)).map key) s E)
    (haligned : base % 4096 = 0) (hne : base ≠ 0) (hvalid : isValidAddress base = true)
    (huser : ¬ (decide (0xffff800000000000 < base) && proc.isUsermode) = true)
    (hn : sizeToPages size ≠ 0) (hfits : base + 4096 * sizeToPages size < 2 ^ 64) :
    Reports c s proc base size (expectedProtection atOnce g) ↔ Readable c atOnce g := by
  have hpage := pageOf_of_aligned haligned
  have hlist : (pagesBelow base (sizeToPages size)).length = sizeToPages size := by
    rw [pagesBelow_eq haligned (by omega), if_pos hfits, length_map, length_range]
  have hpages := pagesFrom_eq_pagesBelow haligned hfits
  rw [Reports, virtualGetProtection, hpage, if_neg hne, procVirtualGetProtection, hvalid,
    if_neg (by simp), if_neg huser, hpage, hpages, Except.ok.injEq, eq_replicate_iff]
  have heach : ∀ a ∈ pagesBelow base (sizeToPages size),
      Paging.pageProtection c s.mem proc.cr3 a = expectedProtection atOnce g ↔
        Readable c atOnce g := by
    intro a ha
    have hmem := ha
    rw [pagesBelow_eq haligned (by omega), if_pos hfits, mem_map] at hmem
    obtain ⟨i, hi, rfl⟩ := hmem
    rw [mem_range] at hi
    rw [h.pageProtection ha (by omega) (by omega)]
    exact (h.leaf _ (mem_map_of_mem ha)).encodes
  constructor
  · rintro ⟨-, hall⟩
    obtain ⟨a, ha⟩ := exists_mem_of_length_pos
      (show 0 < (pagesBelow base (sizeToPages size)).length by omega)
    exact (heach a ha).1 (hall _ (mem_map_of_mem ha))
  · intro hread
    refine ⟨by rw [length_map, hlist], fun x hx => ?_⟩
    obtain ⟨a, ha, rfl⟩ := mem_map.1 hx
    exact (heach a ha).2 hread

/-- Nothing that was asked for is reported on a range in which nothing is mapped. -/
theorem not_reports_of_canAllocatePages (haligned : base % 4096 = 0) (hn : sizeToPages size ≠ 0)
    (hcan : canAllocatePages c s.mem proc.cr3 base (sizeToPages size) = true) :
    ¬ Reports c s proc base size (expectedProtection atOnce g) := by
  have hpage := pageOf_of_aligned haligned
  intro hreports
  rw [Reports, virtualGetProtection, procVirtualGetProtection, hpage] at hreports
  split at hreports
  · cases hreports
  split at hreports
  · cases hreports
  split at hreports
  · cases hreports
  rw [hpage, Except.ok.injEq, eq_replicate_iff, length_map] at hreports
  obtain ⟨hlength, hall⟩ := hreports
  obtain ⟨a, ha⟩ := exists_mem_of_length_pos
    (show 0 < (pagesFrom base (sizeToPages size)).length by omega)
  rw [canAllocatePages, hpage, all_eq_true] at hcan
  have hnot := hcan a ha
  rw [Bool.not_eq_true'] at hnot
  have hbit := congrArg (hasBit · 5) (hall _ (mem_map_of_mem ha))
  simp [Paging.pageProtection, hnot, expectedProtection, protIsPresent] at hbit

/-- The pages of a call of `VirtualAlloc` that did not run out of frames. -/
theorem Placeable.shown (hnx : c.executeDisable = true)
    (h : Placeable c s proc.cr3 (pagesBelow base (sizeToPages size)))
    (hunmapped : ∀ a ∈ pagesBelow base (sizeToPages size), walk (pageMap s proc.cr3) (key a) = none)
    (hloop : (pagesBelow base (sizeToPages size)).foldlM
      (allocPage c fuel proc.cr3 (flags &&& protAllBitsSet)) s = some s')
    (hlock : s'.locked = false) :
    ∃ E, Shown c proc.cr3 (hasBit flags 3) (flags &&& protAllBitsSet)
      ((pagesBelow base (sizeToPages size)).map key) s' E := by
  obtain ⟨used, hready⟩ := h.ready
  have hclean : ∀ a ∈ pagesBelow base (sizeToPages size),
      CleanPath c (pageMap s proc.cr3) (key a) := fun a ha =>
    clean_of_walk_none hready.tree (key_region a) (h.path a ha) (hunmapped a ha)
  have hcow : hasBit (flags &&& protAllBitsSet) 3 = hasBit flags 3 := by simp [protAllBitsSet]
  obtain ⟨E, hplaced⟩ := allocLoop_placed
    (P := MadeFor c (hasBit flags 3) (flags &&& protAllBitsSet)) h.cpu hready hclean
    (fun s E used v s1 hready hentry => by
      rw [← hcow]
      exact madeFor_allocEntry (fun i hi => hasBit_and_protAllBitsSet hi flags) h.cpu hnx hready
        hentry) hloop
  obtain ⟨used', hready'⟩ := hplaced.ready
  obtain ⟨-, -, hdead⟩ := hready'.pool.resolve_left (by rw [hlock]; exact Bool.false_ne_true)
  refine ⟨E, ⟨used', hready'⟩, hdead, fun p hp d hd => ?_, fun p hp => (hplaced.mapped p hp).2.1⟩
  obtain ⟨a, ha, rfl⟩ := mem_map.1 hp
  have hclean' : CleanPath c E (key a) := fun d hd =>
    hplaced.clean d hd _ (hclean a ha d hd)
  have hfound : walk E (key a) ≠ none := by
    rw [(hplaced.mapped _ hp).2.2]
    exact Option.some_ne_none _
  have hchild := (tables_of_walk hclean' hfound).1 d hd
  rcases hclean' d hd with hzero | ⟨t, ht, -⟩
  · rw [hzero] at hchild
    exact absurd child_zero hchild
  · exact ⟨t, ht⟩

/-- The pages stay visible when they are protected again. -/
theorem Shown.protect (hc : c.physAddrBits ≤ 52) (hnx : c.executeDisable = true)
    (h : Shown c cr3 atOnce g (V.map key) s E)
    (hloop : V.foldlM (protectPage c fuel cr3 (flags &&& protAllBitsSet)) s = some s') :
    ∃ E', Shown c cr3 atOnce (flags &&& protAllBitsSet) (V.map key) s' E' := by
  obtain ⟨used, hready⟩ := h.ready
  obtain ⟨E', used', hready', -, hprot⟩ := protectLoop_spec hc (fun a _ => key_region a)
    (fun a ha d hd => h.clean ha hd) hready hloop
  -- the tables are the same, as all of them were there
  have htable {d p : Nat} (hp : p ∈ V.map key) (hd : d < 3) :
      ∃ t, PointsTo c (E' d (p / 512 ^ (3 - d))) t ∧ child (E d (p / 512 ^ (3 - d))) = some t := by
    obtain ⟨t, ht, -, hsame⟩ := hprot.table d hd p hp
    obtain ⟨t0, ht0⟩ := h.path p hp d hd
    refine ⟨t, ht, hsame fun hzero => ?_⟩
    rw [hzero] at ht0
    exact Option.some_ne_none t0 (ht0.child_eq.symm.trans child_zero)
  refine ⟨E', ⟨used', hready'⟩, ?_, fun p hp d hd => ?_, fun p hp => ?_⟩
  · rintro ⟨d, hd, k, hk, hchild⟩
    by_cases hvisited : ∃ p ∈ V.map key, k = p / 512 ^ (3 - d)
    · obtain ⟨p, hp, rfl⟩ := hvisited
      obtain ⟨t, ht, hsame⟩ := htable hp hd
      rw [ht.child_eq] at hchild
      exact h.null_dead ⟨d, hd, _, hk, hsame.trans hchild⟩
    · rw [hprot.table_other d hd k fun p hp he => hvisited ⟨p, hp, he⟩] at hchild
      exact h.null_dead ⟨d, hd, k, hk, hchild⟩
  · obtain ⟨t, ht, -⟩ := htable hp hd
    exact ⟨t, ht⟩
  · rw [hprot.leaf p hp]
    exact madeFor_protectEntry (fun i hi => hasBit_and_protAllBitsSet hi flags) hc hnx
      (h.leaf p hp).demand

/-- After a `VirtualAlloc` that succeeds, and after each `VirtualProtect` of the range that does,
the flags asked for are reported exactly if the range ends below 2^64 and the flags are readable on
this processor. -/
theorem virtualGetProtection_reports_iff (hnx : c.executeDisable = true)
    (haligned : base % 4096 = 0) (hne : base ≠ 0) (hsize : size < 2 ^ 64)
    (h : Placeable c s proc.cr3 (pagesBelow base (sizeToPages size)))
    (hunmapped : ∀ a ∈ pagesBelow base (sizeToPages size), walk (pageMap s proc.cr3) (key a) = none)
    {r : Nat} (hret : virtualAlloc c fuel s proc base size flags = some (.ok (r, s')))
    (hlock : s'.locked = false) :
    (Reports c s' proc base size
        (expectedProtection (hasBit flags 3) (flags &&& protAllBitsSet)) ↔
      base + 4096 * sizeToPages size < 2 ^ 64 ∧
        Readable c (hasBit flags 3) (flags &&& protAllBitsSet)) ∧
    ∀ newFlags s2, virtualProtect c fuel s' proc base size newFlags = some (.ok s2) →
      (Reports c s2 proc base size
          (expectedProtection (hasBit flags 3) (newFlags &&& protAllBitsSet)) ↔
        base + 4096 * sizeToPages size < 2 ^ 64 ∧
          Readable c (hasBit flags 3) (newFlags &&& protAllBitsSet)) := by
  have hpage := pageOf_of_aligned haligned
  obtain ⟨hvalid, hn, huser, hcan, hloop⟩ := virtualAlloc_ok (by omega) hret
  rw [hpage] at hvalid huser hcan hloop
  obtain ⟨-, hhi⟩ := sizeToPages_bounds size
  by_cases hfits : base + 4096 * sizeToPages size < 2 ^ 64
  · obtain ⟨E, hshown⟩ := h.shown hnx hunmapped hloop hlock
    refine ⟨?_, fun newFlags s2 hprotect => ?_⟩
    · rw [hshown.reports_iff haligned hne hvalid huser hn hfits, and_iff_right hfits]
    · have hagain := (virtualProtect_eq_ok.1 hprotect).2.2.2.2
      rw [hpage, pagesFrom_eq_pagesBelow haligned hfits] at hagain
      obtain ⟨E', hshown'⟩ := hshown.protect h.cpu hnx hagain
      rw [hshown'.reports_iff haligned hne hvalid huser hn hfits, and_iff_right hfits]
  · -- the loop of the allocation did nothing
    rw [pagesBelow_eq haligned (by omega), if_neg hfits] at hloop
    cases hloop
    refine ⟨?_, fun newFlags s2 hprotect => ?_⟩
    · exact iff_of_false (not_reports_of_canAllocatePages haligned hn hcan) fun hr => hfits hr.1
    · exact absurd (hpage.symm ▸ hcan) (virtualProtect_eq_ok.1 hprotect).2.2.2.1

theorem virtualGetProtection_reports_iff_spareFrames :
    ∃ s', virtualAlloc smallCpu 1 spareFrames ⟨0x1000, true⟩ 0x200000 0x1000 0 =
        some (.ok (0x200000, s')) ∧
      (Reports smallCpu s' ⟨0x1000, true⟩ 0x200000 0x1000
          (expectedProtection (hasBit 0 3) (0 &&& protAllBitsSet)) ↔
        0x200000 + 4096 * sizeToPages 0x1000 < 2 ^ 64 ∧
          Readable smallCpu (hasBit 0 3) (0 &&& protAllBitsSet)) := by
  obtain ⟨s', hret, -, hlock⟩ := virtualAlloc_spareFrames 0x200000 (by decide)
  refine ⟨s', hret, (virtualGetProtection_reports_iff rfl (by decide) (by decide) (by decide)
    placeable_spareFrames (fun a ha => ?_) hret hlock).1⟩
  have hleaf := allocatable_spareFrames.leaf_zero ha
  by_contra hfound
  have hpresent := (tables_of_walk (allocatable_spareFrames.clean a ha) hfound).2
  rw [show pageMap spareFrames 0x1000 3 (key a) = 0 from hleaf] at hpresent
  simp at hpresent

/-- On a processor with 46 bits of physical addresses a demand-paged page that was asked for as
read-only is reported as writable. -/
theorem readOnly_not_reported :
    ∃ s', virtualAlloc ⟨46, true⟩ 1 spareFrames ⟨0x1000, true⟩ 0x6000 0x1000 protReadOnly =
        some (.ok (0x6000, s')) ∧ s'.locked = false ∧
      ¬ Reports ⟨46, true⟩ s' ⟨0x1000, true⟩ 0x6000 0x1000
        (expectedProtection false protReadOnly) := by
  have hrun : (virtualAlloc ⟨46, true⟩ 1 spareFrames ⟨0x1000, true⟩ 0x6000 0x1000
      protReadOnly).map (fun result => result.map fun r => (r.1, r.2.locked,
        virtualGetProtection ⟨46, true⟩ r.2.mem ⟨0x1000, true⟩ 0x6000 0x1000)) =
      some (.ok (0x6000, false, .ok [protIsPresent])) := rfl
  obtain ⟨result, halloc, hmap⟩ := Option.map_eq_some_iff.1 hrun
  cases result with
  | error e => cases hmap
  | ok result =>
  obtain ⟨r, s'⟩ := result
  rw [Except.map, Except.ok.injEq, Prod.mk.injEq, Prod.mk.injEq] at hmap
  obtain ⟨rfl, hlock, hflags⟩ := hmap
  refine ⟨s', halloc, hlock, fun hreports => ?_⟩
  rw [Reports, hflags, Except.ok.injEq] at hreports
  exact absurd (cons.inj hreports).1 (by decide)

end Report

end Obos.Paging
