import Obos.Lib.TableTree
import Obos.Paging.PageMap

/-!
# Page maps as trees

The page map of a process is a tree of four levels of tables. `child` is how
the CPU descends in it: an entry that is present and does not map a huge page
points at the table whose address is in its bits 12 to 51. The kernel masks an
entry with `g_physAddrMask` instead and takes an address of 0, or one beyond the
address width of the CPU, for no table. `Clean` are the entries both read alike;
along clean entries the accessors of `PageMap` read the contents of the tree
(`getL4PageMapEntryAt_eq` to `getL1PageMapEntryAt_eq`).
-/

namespace Obos.Paging

open Lib Lib.TableTree Option

/-! ## Entries -/

/-- The bits of an entry that hold the address of a frame. -/
def frameMask : BitVec 64 := lowBits 52 &&& ~~~lowBits 12

/-- The frame an entry points at, as the CPU reads it. -/
def frame (e : BitVec 64) : Nat := (e &&& frameMask).toNat

/-- The frame an entry points at, as the kernel reads it. -/
def Cpu.rawPtr (c : Cpu) (e : BitVec 64) : Nat := (e &&& c.physAddrMask).toNat

/-- The table the CPU goes on with at an entry. -/
def child (e : BitVec 64) : Option Nat := if hasBit e 0 && !hasBit e 7 then some (frame e) else none

/-- An entry that points at a table the kernel can use. -/
structure PointsTo (c : Cpu) (e : BitVec 64) (t : Nat) : Prop where
  child_eq : child e = some t
  rawPtr_eq : c.rawPtr e = t
  lt : t < 2 ^ c.physAddrBits

/-- An entry above the last level that the kernel and the CPU read alike: zero, or one for a
table. Only the entry for a table of the last level may point at physical page 0. -/
def Clean (c : Cpu) (d : Nat) (e : BitVec 64) : Prop :=
  e = 0 ∨ ∃ t, PointsTo c e t ∧ (d < 2 → t ≠ 0)

/-- The entries above a page are clean. -/
def CleanPath (c : Cpu) (E : Entries) (page : Nat) : Prop :=
  ∀ d < 3, Clean c d (E d (page / 512 ^ (3 - d)))

theorem child_zero : child 0 = none := by decide

variable {e : BitVec 64} {page d : Nat}

theorem PointsTo.ne_zero {c : Cpu} {t : Nat} (h : PointsTo c e t) : e ≠ 0 := by
  rintro rfl
  cases h.child_eq

/-- The bits of the frame. -/
theorem hasBit_frameMask (i : Nat) : hasBit frameMask i = decide (12 ≤ i ∧ i < 52) := by
  by_cases h : i < 64
  · simp only [frameMask, hasBit_and, hasBit_lowBits, hasBit_not, h, decide_true, Bool.true_and]
    by_cases h12 : i < 12
    · simp [h12]
    · simp [h12, Nat.le_of_not_lt h12]
  · have h52 : ¬ i < 52 := by omega
    simp [frameMask, h52]

/-- A word without low bits is a multiple of the page size. -/
theorem toNat_mod_of_low {w : BitVec 64} (h : ∀ i < 12, hasBit w i = false) :
    w.toNat % 4096 = 0 := by
  refine Nat.eq_of_testBit_eq fun i => ?_
  rw [show 4096 = 2 ^ 12 from rfl, Nat.testBit_mod_two_pow, Nat.zero_testBit]
  by_cases hi : i < 12
  · have htest : w.toNat.testBit i = false := h i hi
    rw [htest, Bool.and_false]
  · simp [hi]

theorem frame_aligned (e : BitVec 64) : frame e % 4096 = 0 :=
  toNat_mod_of_low fun i hi => by simp [hasBit_frameMask, Nat.not_le.2 hi]

/-- The address of a frame has 52 bits. -/
theorem frame_lt (e : BitVec 64) : frame e < 2 ^ 52 := by
  refine Nat.lt_pow_two_of_testBit _ fun i hi => ?_
  have hbit : (frame e).testBit i = hasBit (e &&& frameMask) i := rfl
  rw [hbit, hasBit_and, hasBit_frameMask, decide_eq_false (by omega), Bool.and_false]

theorem rawPtr_aligned (c : Cpu) (e : BitVec 64) : c.rawPtr e % 4096 = 0 :=
  toNat_mod_of_low fun i hi => by simp [hasBit_physAddrMask, Nat.not_le.2 hi]

/-- The table an entry points at is its frame. -/
theorem frame_of_child {t : Nat} (h : child e = some t) : hasBit e 0 = true ∧ frame e = t := by
  unfold child at h
  split at h
  · rename_i hbits
    exact ⟨(Bool.and_eq_true_iff.1 hbits).1, some_inj.1 h⟩
  · cases h

/-- Two entries with the same bits 0, 7 and 12 to 51 lead to the same table. -/
theorem child_congr {e' : BitVec 64} (h0 : hasBit e' 0 = hasBit e 0) (h7 : hasBit e' 7 = hasBit e 7)
    (hframe : ∀ i, 12 ≤ i → i < 52 → hasBit e' i = hasBit e i) : child e' = child e := by
  have hmasked : e' &&& frameMask = e &&& frameMask := by
    refine eq_of_hasBit_eq fun i _ => ?_
    rw [hasBit_and, hasBit_and, hasBit_frameMask]
    by_cases hi : 12 ≤ i ∧ i < 52
    · rw [hframe i hi.1 hi.2]
    · simp [hi]
  rw [child, child, h0, h7, frame, frame, hmasked]

/-! ## Paths -/

/-- The number of the page an address is on, without the bits above the 48th. -/
def key (address : Nat) : Nat := address / 4096 % 512 ^ 4

theorem key_lt (address : Nat) : key address < 512 ^ 4 := Nat.mod_lt _ (by decide)

section Index

variable (address : Nat)

theorem addressToIndex_three : addressToIndex address 3 = key address / 512 ^ 3 % 512 := by
  unfold addressToIndex key
  omega

theorem addressToIndex_two : addressToIndex address 2 = key address / 512 ^ 2 % 512 := by
  unfold addressToIndex key
  omega

theorem addressToIndex_one : addressToIndex address 1 = key address / 512 % 512 := by
  unfold addressToIndex key
  omega

theorem addressToIndex_zero : addressToIndex address 0 = key address % 512 := by
  unfold addressToIndex key
  omega

end Index

/-! ## The accessors -/

section Accessors

variable {c : Cpu} {m : Memory} {cr3 address : Nat} {R : Nat → Prop} {E : Entries}

/-- At a clean entry that does not point at page 0, the kernel goes on as the CPU does. -/
theorem nextEntry_eq {e : BitVec 64} {d k : Nat} (h : Clean c d e) (hd : d < 2) :
    nextEntry c m e (k % 512) = wordAt m k (child e) := by
  rcases h with rfl | ⟨t, ht, hne⟩
  · rw [child_zero, wordAt]
    simp [nextEntry]
  · have hraw : (e &&& c.physAddrMask).toNat = t := ht.rawPtr_eq
    have hle : ¬ (t = 0 ∨ 2 ^ c.physAddrBits < t) := by
      have := ht.lt
      omega
    rw [nextEntry, hraw, ht.child_eq]
    exact if_neg hle

section Above

variable {n : Nat} (h : Represents child m cr3 R (n + 1) E) (hcr3 : cr3 ≤ 2 ^ c.physAddrBits)
  (hR : R (key address / 512 ^ 3))
include h hcr3 hR

/-- The first level of a page map. -/
theorem getL4PageMapEntryAt_eq :
    getL4PageMapEntryAt c m cr3 address = E 0 (key address / 512 ^ 3) := by
  rw [getL4PageMapEntryAt, if_neg (by omega), addressToIndex_three,
    h.word 0 (by omega) _ (by simpa)]
  rfl

/-- The second level of a page map. -/
theorem getL3PageMapEntryAt_eq (h0 : Clean c 0 (E 0 (key address / 512 ^ 3))) :
    getL3PageMapEntryAt c m cr3 address = E 1 (key address / 512 ^ 2) := by
  have hpath : key address / 512 ^ 2 / 512 = key address / 512 ^ 3 := by omega
  have hpath' : key address / 512 ^ 2 / 512 ^ 1 = key address / 512 ^ 3 := by omega
  rw [getL3PageMapEntryAt, getL4PageMapEntryAt_eq h hcr3 hR, addressToIndex_two,
    nextEntry_eq h0 (by decide), h.word 1 (by omega) _ (by rwa [hpath']), tableOf, hpath]

end Above

variable (h : Represents child m cr3 R 3 E) (hcr3 : cr3 ≤ 2 ^ c.physAddrBits)
  (hR : R (key address / 512 ^ 3))
include h hcr3 hR

section

variable (h0 : Clean c 0 (E 0 (key address / 512 ^ 3)))
include h0

/-- The third level of a page map. -/
theorem getL2PageMapEntryAt_eq (h1 : Clean c 1 (E 1 (key address / 512 ^ 2))) :
    getL2PageMapEntryAt c m cr3 address = E 2 (key address / 512) := by
  have hpath : key address / 512 / 512 = key address / 512 ^ 2 := by omega
  have hpath' : key address / 512 / 512 ^ 2 = key address / 512 ^ 3 := by omega
  rw [getL2PageMapEntryAt, getL3PageMapEntryAt_eq h hcr3 hR h0, addressToIndex_one,
    nextEntry_eq h1 (by decide), h.word 2 (by omega) _ (by rwa [hpath']), tableOf, hpath]

/-- The last level of a page map, where the table is not at page 0. -/
theorem getL1PageMapEntryAt_eq
    (h1 : Clean c 1 (E 1 (key address / 512 ^ 2))) (h2 : Clean c 0 (E 2 (key address / 512))) :
    getL1PageMapEntryAt c m cr3 address = E 3 (key address) := by
  rw [getL1PageMapEntryAt, getL2PageMapEntryAt_eq h hcr3 hR h0 h1, addressToIndex_zero,
    nextEntry_eq h2 (by decide), h.word 3 le_rfl _ hR, tableOf]

end

/-- The last level of a page map none of whose tables is physical page 0. -/
theorem getL1PageMapEntryAt_of_clean (hnull : ¬ Live child R 3 E 0)
    (hclean : CleanPath c E (key address)) :
    getL1PageMapEntryAt c m cr3 address = E 3 (key address) := by
  refine getL1PageMapEntryAt_eq h hcr3 hR (hclean 0 (by decide)) (hclean 1 (by decide)) ?_
  have hclean2 := hclean 2 (by decide)
  rcases hclean2 with hzero | ⟨t, ht, -⟩
  · exact .inl hzero
  · refine .inr ⟨t, ht, fun _ => ?_⟩
    rintro rfl
    have hregion : R (key address / 512 / 512 ^ 2) := by
      rwa [show key address / 512 / 512 ^ 2 = key address / 512 ^ 3 by omega]
    exact hnull ⟨2, by decide, _, hregion, ht.child_eq⟩

end Accessors

/-! ## Translation -/

/-- One level of the walk of the CPU below the first: it goes on with the table the entry points
at, or ends at the entry if that maps a huge page. -/
def descend (E : Entries) (page d : Nat) (next : Option (Nat × BitVec 64)) :
    Option (Nat × BitVec 64) :=
  let e := E d (page / 512 ^ (3 - d))
  match child e with
  | some _ => next
  | none => if hasBit e 0 then some (d, e) else none

/-- The walk of the CPU for a page: the leaf entry, and the depth it is found at. -/
def walk (E : Entries) (page : Nat) : Option (Nat × BitVec 64) :=
  match child (E 0 (page / 512 ^ 3)) with
  | none => none
  | some _ => descend E page 1 <| descend E page 2 <|
      if hasBit (E 3 page) 0 then some (3, E 3 page) else none

/-- The physical address of a page that a leaf entry maps. -/
def leafFrame (page : Nat) : Nat × BitVec 64 → Nat
  | (1, e) => frame e / 2 ^ 30 * 2 ^ 30 + page % 512 ^ 2 * 4096
  | (2, e) => frame e / 2 ^ 21 * 2 ^ 21 + page % 512 * 4096
  | (_, e) => frame e

/-- The frame the CPU translates a page to. -/
def translate (E : Entries) (page : Nat) : Option Nat := (walk E page).map (leafFrame page)

/-- The canonical address of a page. -/
def canonical (page : Nat) : Nat :=
  if page < 2 ^ 35 then 4096 * page else 4096 * page + (2 ^ 64 - 2 ^ 48)

/-- The page is one of `nPages` pages from `base` on, counted without wrap-around. -/
def InRange (base nPages page : Nat) : Prop := ∃ i < nPages, canonical page = base + 4096 * i

theorem region_path {R : Nat → Prop} (h : R (page / 512 ^ 3)) (hd : d ≤ 3) :
    R (page / 512 ^ (3 - d) / 512 ^ d) := by
  rwa [Nat.div_div_eq_div_mul, ← Nat.pow_add, Nat.sub_add_cancel hd]

theorem region_levels {R : Nat → Prop} (h : R (page / 512 ^ 3)) :
    R (page / 512 ^ 3 / 512 ^ 0) ∧ R (page / 512 ^ 2 / 512 ^ 1) ∧ R (page / 512 / 512 ^ 2) :=
  ⟨region_path (d := 0) h (by decide), region_path (d := 1) h (by decide),
    by simpa using region_path (d := 2) h (by decide)⟩

theorem page_path (h : page < 512 ^ 4) (hd : d ≤ 3) : page / 512 ^ (3 - d) / 512 ^ d < 512 :=
  region_path (R := (· < 512)) (by omega) hd

theorem key_path (a : Nat) (hd : d ≤ 3) : key a / 512 ^ (3 - d) / 512 ^ d < 512 :=
  page_path (key_lt a) hd

section Translation

variable {c : Cpu} {E E' : Entries} {page : Nat}

/-- With tables on all levels the walk ends at the last one. -/
theorem walk_of_tables (h : ∀ d < 3, child (E d (page / 512 ^ (3 - d))) ≠ none) :
    walk E page = if hasBit (E 3 page) 0 then some (3, E 3 page) else none := by
  obtain ⟨t0, h₀⟩ := ne_none_iff_exists'.1 (h 0 (by decide))
  obtain ⟨t1, h1⟩ := ne_none_iff_exists'.1 (h 1 (by decide))
  obtain ⟨t2, h2⟩ := ne_none_iff_exists'.1 (h 2 (by decide))
  simp only [walk, descend, h₀, h1, h2]

/-- A walk depends on the leaf, and on which entries above it point at tables. -/
theorem walk_congr (htable : ∀ d < 3, E' d (page / 512 ^ (3 - d)) = E d (page / 512 ^ (3 - d)) ∨
      (child (E' d (page / 512 ^ (3 - d))) ≠ none ∧ child (E d (page / 512 ^ (3 - d))) ≠ none))
    (hleaf : E' 3 page = E 3 page) : walk E' page = walk E page := by
  have hdescend {d : Nat} (hd : d < 3) (next : Option (Nat × BitVec 64)) :
      descend E' page d next = descend E page d next := by
    rcases htable d hd with heq | ⟨hsome', hsome⟩
    · unfold descend
      rw [heq]
    · obtain ⟨t', ht'⟩ := ne_none_iff_exists'.1 hsome'
      obtain ⟨t, ht⟩ := ne_none_iff_exists'.1 hsome
      simp only [descend, ht', ht]
  unfold walk
  rw [hdescend (by decide), hdescend (by decide), hleaf]
  rcases htable 0 (by decide) with heq | ⟨hsome', hsome⟩
  · rw [heq]
  · obtain ⟨t', ht'⟩ := ne_none_iff_exists'.1 hsome'
    obtain ⟨t, ht⟩ := ne_none_iff_exists'.1 hsome
    simp only [ht', ht]

/-- A clean entry that points at no table is zero. -/
theorem Clean.eq_zero {d : Nat} {e : BitVec 64} (h : Clean c d e) (hnone : child e = none) :
    e = 0 := by
  refine h.resolve_right ?_
  rintro ⟨t, ht, -⟩
  rw [ht.child_eq] at hnone
  cases hnone

/-- A page that is translated along clean entries has tables on all levels and is present. -/
theorem tables_of_walk (hclean : CleanPath c E page) (hwalk : walk E page ≠ none) :
    (∀ d < 3, child (E d (page / 512 ^ (3 - d))) ≠ none) ∧ hasBit (E 3 page) 0 = true := by
  have hdescend {d : Nat} (hd : d < 3) {next : Option (Nat × BitVec 64)}
      (h : descend E page d next ≠ none) :
      child (E d (page / 512 ^ (3 - d))) ≠ none ∧ next ≠ none := by
    cases hchild : child (E d (page / 512 ^ (3 - d))) with
    | none =>
      have hzero := (hclean d hd).eq_zero hchild
      simp only [descend, hchild] at h
      rw [hzero] at h
      simp at h
    | some t =>
      simp only [descend, hchild] at h
      exact ⟨by simp, h⟩
  have hfirst : child (E 0 (page / 512 ^ 3)) ≠ none := by
    intro hnone
    simp only [walk, hnone] at hwalk
    exact hwalk rfl
  obtain ⟨t0, h₀⟩ := ne_none_iff_exists'.1 hfirst
  simp only [walk, h₀] at hwalk
  obtain ⟨hsecond, hwalk⟩ := hdescend (by decide) hwalk
  obtain ⟨hthird, hwalk⟩ := hdescend (by decide) hwalk
  refine ⟨fun d hd => ?_, ?_⟩
  · match d, hd with
    | 0, _ => exact hfirst
    | 1, _ => exact hsecond
    | 2, _ => exact hthird
  · by_contra hnot
    simp [hnot] at hwalk

end Translation

end Obos.Paging
