import Obos.Lib.Gaps
import Obos.Paging.Place

/-!
# Looking for a gap

`_Impl_FindUsableAddress` walks the page map with `IteratePages` and compares the
first address of each mapping with that of the one before. It goes round twice, and in the second
pass the difference to the last address of the first one wraps. `leaves` are the mappings of a page
map, with their lengths, and `iteratePages_eq_foldlM` says that the walk visits them in order;
`findUsableAddress_usable_iff` says when the address found is that of a range of unmapped pages
between the base and the limit.
-/

namespace Obos.Paging

open Lib Lib.TableTree Lib.Gaps Physical List

/-! ## The mappings of a page map -/

/-- The mappings at an entry for a table, a huge page or a page: their first page and their length,
in pages. -/
def leaves (E : Entries) : Nat → Nat → List (Nat × Nat)
  | 0, k => if hasBit (E 3 k) 0 || hasBit (E 3 k) 10 then [(k, 1)] else []
  | level + 1, k =>
    if !hasBit (E (2 - level) k) 0 then []
    else if level + 1 ≠ 3 && hasBit (E (2 - level) k) 7 then
      [(k * 512 ^ (level + 1), 512 ^ (level + 1))]
    else (List.range 512).flatMap fun i => leaves E level (512 * k + i)

section Leaves

variable {E : Entries} {level k page : Nat}

/-- A mapping at an entry is within the range of the entry. -/
theorem leaves_bounds {x : Nat × Nat} (hx : x ∈ leaves E level k) :
    k * 512 ^ level ≤ x.1 ∧ x.1 + x.2 ≤ (k + 1) * 512 ^ level ∧ 0 < x.2 := by
  induction level generalizing k with
  | zero =>
    rw [leaves] at hx
    split at hx
    · rw [mem_singleton] at hx
      subst hx
      simp
    · cases hx
  | succ level ih =>
    rw [leaves] at hx
    split at hx
    · cases hx
    split at hx
    · rw [mem_singleton] at hx
      subst hx
      exact ⟨le_rfl, (by ring_nf; exact le_rfl), by positivity⟩
    · obtain ⟨i, hi, hx⟩ := mem_flatMap.1 hx
      rw [mem_range] at hi
      obtain ⟨hlo, hhi, hpos⟩ := ih hx
      refine ⟨?_, ?_, hpos⟩
      · calc k * 512 ^ (level + 1) = 512 * k * 512 ^ level := by ring
          _ ≤ (512 * k + i) * 512 ^ level := Nat.mul_le_mul_right _ (by omega)
          _ ≤ x.1 := hlo
      · calc x.1 + x.2 ≤ (512 * k + i + 1) * 512 ^ level := hhi
          _ ≤ (512 * k + 512) * 512 ^ level := Nat.mul_le_mul_right _ (by omega)
          _ = (k + 1) * 512 ^ (level + 1) := by ring

theorem leaves_lt {k' : Nat} (hk : k < k') {x y : Nat × Nat} (hx : x ∈ leaves E level k)
    (hy : y ∈ leaves E level k') : x.1 < y.1 := by
  obtain ⟨-, hhi, hpos⟩ := leaves_bounds hx
  obtain ⟨hlo, -, -⟩ := leaves_bounds hy
  have : (k + 1) * 512 ^ level ≤ k' * 512 ^ level := Nat.mul_le_mul_right _ hk
  omega

theorem pairwise_flatMap_leaves {f : Nat → Nat} (hf : ∀ i j, i < j → f i < f j) {is : List Nat}
    (his : is.Pairwise (· < ·)) (hleaves : ∀ i, (leaves E level (f i)).Pairwise (·.1 < ·.1)) :
    (is.flatMap fun i => leaves E level (f i)).Pairwise (·.1 < ·.1) := by
  refine pairwise_flatMap.2 ⟨fun i _ => hleaves i, his.imp fun hij x hx y hy => ?_⟩
  exact leaves_lt (hf _ _ hij) hx hy

theorem pairwise_leaves : (leaves E level k).Pairwise (·.1 < ·.1) := by
  induction level generalizing k with
  | zero =>
    rw [leaves]
    split
    · exact pairwise_singleton _ _
    · exact List.Pairwise.nil
  | succ level ih =>
    rw [leaves]
    split
    · exact List.Pairwise.nil
    split
    · exact pairwise_singleton _ _
    · exact pairwise_flatMap_leaves (fun i j hij => by omega) pairwise_lt_range fun i => ih

/-- The entry above which a mapping at one of several entries is found. -/
theorem covered_flatMap_iff {f : Nat → Nat} {is : List Nat} {i : Nat} (hi : i ∈ is)
    (hpage : page / 512 ^ level = f i) :
    Covered (is.flatMap fun i => leaves E level (f i)) page ↔
      Covered (leaves E level (page / 512 ^ level)) page := by
  constructor
  · rintro ⟨x, hx, hlo, hhi⟩
    obtain ⟨j, -, hx⟩ := mem_flatMap.1 hx
    obtain ⟨hxlo, hxhi, -⟩ := leaves_bounds hx
    have hj := Nat.div_eq_of_lt_le (hxlo.trans hlo) (lt_of_lt_of_le hhi hxhi)
    exact ⟨x, hj ▸ hx, hlo, hhi⟩
  · rintro ⟨x, hx, hlo, hhi⟩
    exact ⟨x, mem_flatMap.2 ⟨i, hi, hpage ▸ hx⟩, hlo, hhi⟩

/-- A page is mapped at an entry if the entry is one for a huge page, or the page is mapped at an
entry of the table. -/
theorem covered_leaves_succ :
    Covered (leaves E (level + 1) (page / 512 ^ (level + 1))) page ↔
      hasBit (E (2 - level) (page / 512 ^ (level + 1))) 0 = true ∧
        (level + 1 ≠ 3 ∧ hasBit (E (2 - level) (page / 512 ^ (level + 1))) 7 = true ∨
          Covered (leaves E level (page / 512 ^ level)) page) := by
  rw [leaves]
  generalize E (2 - level) (page / 512 ^ (level + 1)) = e
  cases h0 : hasBit e 0 with
  | false => simp [Covered]
  | true =>
    by_cases h7 : level + 1 ≠ 3 ∧ hasBit e 7 = true
    · have hcovered : Covered [(page / 512 ^ (level + 1) * 512 ^ (level + 1), 512 ^ (level + 1))]
          page :=
        ⟨_, mem_singleton_self _, Nat.div_mul_le_self _ _, Nat.lt_div_mul_add (by positivity)⟩
      rw [if_neg (by simp), if_pos (by simpa using h7)]
      exact iff_of_true hcovered ⟨rfl, .inl h7⟩
    · have hdigit : page / 512 ^ level = 512 * (page / 512 ^ (level + 1)) +
          page / 512 ^ level % 512 := by
        rw [Nat.pow_succ, ← Nat.div_div_eq_div_mul]
        omega
      rw [if_neg (by simp), if_neg (by simpa using h7),
        covered_flatMap_iff (f := fun i => 512 * (page / 512 ^ (level + 1)) + i)
          (mem_range.2 (Nat.mod_lt _ (by omega))) hdigit]
      simp only [h7, true_and, false_or]

/-- An entry is that of a table if it is present and not one for a huge page. -/
theorem child_ne_none_iff {e : BitVec 64} :
    child e ≠ none ↔ hasBit e 0 = true ∧ hasBit e 7 = false := by
  rw [child]
  split
  · rename_i h
    simpa using h
  · rename_i h
    simpa using h

theorem child_ne_none_of_entries {m : Memory} {cr3 d : Nat} {i : Nat}
    (h : hasBit (entries child m cr3 (d + 1) k) i = true) :
    child (entries child m cr3 d (k / 512)) ≠ none := by
  intro hnone
  rw [entries, hnone, wordAt] at h
  simp at h

theorem descend_ne_none_iff {d : Nat} {next : Option (Nat × BitVec 64)} :
    descend E page d next ≠ none ↔ hasBit (E d (page / 512 ^ (3 - d))) 0 = true ∧
      (hasBit (E d (page / 512 ^ (3 - d))) 7 = true ∨ next ≠ none) := by
  rw [descend, child]
  cases hasBit (E d (page / 512 ^ (3 - d))) 0 <;>
    cases hasBit (E d (page / 512 ^ (3 - d))) 7 <;> simp

theorem walk_ne_none_iff : walk E page ≠ none ↔
    (hasBit (E 0 (page / 512 ^ 3)) 0 = true ∧ hasBit (E 0 (page / 512 ^ 3)) 7 = false) ∧
      descend E page 1 (descend E page 2
        (if hasBit (E 3 page) 0 then some (3, E 3 page) else none)) ≠ none := by
  rw [walk, child]
  cases hasBit (E 0 (page / 512 ^ 3)) 0 <;> cases hasBit (E 0 (page / 512 ^ 3)) 7 <;> simp

/-- The mappings of the page map are the pages that are mapped. -/
theorem covered_leaves_iff {m : Memory} {cr3 : Nat}
    (htop : hasBit (entries child m cr3 0 (page / 512 ^ 3)) 7 = false) :
    Covered (leaves (entries child m cr3) 3 (page / 512 ^ 3)) page ↔
      ¬ Unmapped (entries child m cr3) page := by
  have hlast : Covered (leaves (entries child m cr3) 0 (page / 512 ^ 0)) page ↔
      hasBit (entries child m cr3 3 page) 0 = true ∨
        hasBit (entries child m cr3 3 page) 10 = true := by
    rw [Nat.pow_zero, leaves]
    split
    · rename_i h
      simpa [Covered] using h
    · rename_i h
      simpa [Covered] using h
  have hpage2 : page / 512 ^ 1 = page / 512 := by rw [Nat.pow_one]
  have hpage1 : page / 512 / 512 = page / 512 ^ 2 := by rw [Nat.div_div_eq_div_mul]; rfl
  have hpage0 : page / 512 ^ 2 / 512 = page / 512 ^ 3 := by rw [Nat.div_div_eq_div_mul]; rfl
  -- the entries above one that is not empty are those of tables
  have h2 {i : Nat} (h : hasBit (entries child m cr3 3 page) i = true) :=
    child_ne_none_iff.1 (child_ne_none_of_entries h)
  have h1 {i : Nat} (h : hasBit (entries child m cr3 2 (page / 512)) i = true) :=
    child_ne_none_iff.1 (hpage1 ▸ child_ne_none_of_entries h)
  have h0 {i : Nat} (h : hasBit (entries child m cr3 1 (page / 512 ^ 2)) i = true) :=
    child_ne_none_iff.1 (hpage0 ▸ child_ne_none_of_entries h)
  have hfound : (if hasBit (entries child m cr3 3 page) 0 = true then
      some (3, entries child m cr3 3 page) else none) ≠ none ↔
      hasBit (entries child m cr3 3 page) 0 = true := by
    split <;> simp [*]
  have hmapped : ¬ Unmapped (entries child m cr3) page ↔
      walk (entries child m cr3) page ≠ none ∨ hasBit (entries child m cr3 3 page) 10 = true := by
    rw [Unmapped, not_and_or, Bool.not_eq_false]
  rw [covered_leaves_succ, covered_leaves_succ, covered_leaves_succ, hlast, hmapped,
    walk_ne_none_iff, descend_ne_none_iff, descend_ne_none_iff, hfound, htop]
  simp only [Nat.reduceAdd, Nat.reduceSub, ne_eq, Nat.reduceEqDiff, not_true_eq_false,
    not_false_eq_true, false_and, true_and, false_or, and_true, hpage2]
  constructor
  · rintro ⟨hb0, hb1, h | ⟨hb2, h | h | h⟩⟩
    · exact .inl ⟨hb0, hb1, .inl h⟩
    · exact .inl ⟨hb0, hb1, .inr ⟨hb2, .inl h⟩⟩
    · exact .inl ⟨hb0, hb1, .inr ⟨hb2, .inr h⟩⟩
    · exact .inr h
  · rintro (⟨hb0, hb1, h | ⟨hb2, h | h⟩⟩ | h)
    · exact ⟨hb0, hb1, .inl h⟩
    · exact ⟨hb0, hb1, .inr ⟨hb2, .inl h⟩⟩
    · exact ⟨hb0, hb1, .inr ⟨hb2, .inr (.inl h)⟩⟩
    · have hb2 := (h2 h).1
      have hb1 := (h1 hb2).1
      exact ⟨(h0 hb1).1, hb1, .inr ⟨hb2, .inr (.inr h)⟩⟩

end Leaves

/-! ## The walk -/

/-- The kernel follows the entries for tables as the CPU does, below the given entries of the root,
and no table is physical page 0. -/
structure Followed (c : Cpu) (E : Entries) (R : Nat → Prop) : Prop where
  top : ∀ k, R k → hasBit (E 0 k) 7 = false
  table : ∀ d < 3, ∀ k, R (k / 512 ^ d) → ∀ t, child (E d k) = some t →
    c.rawPtr (E d k) = t ∧ t ≠ 0

section Walk

variable {S : Type} {c : Cpu} {m : Memory} {cr3 first last off level k t i : Nat} {R : Nat → Prop}
  {f : S → Nat → Except S S} {s : S}

theorem entries_of_table {d : Nat} (ht : child (entries child m cr3 d k) = some t) (hi : i < 512) :
    entries child m cr3 (d + 1) (512 * k + i) = m.load64 (t + 8 * i) := by
  rw [entries, show (512 * k + i) / 512 = k by omega, ht, wordAt,
    show (512 * k + i) % 512 = i by omega]

/-- The address of an entry, from the address of its table. -/
theorem address_or_index (hoff : off % 2 ^ 48 = 0) (k : Nat) (hlevel : level ≤ 2) (hi : i < 512) :
    (off + k * 2 ^ (9 * (level + 1) + 12)) ||| i <<< (9 * level + 12) =
      off + (512 * k + i) * 2 ^ (9 * level + 12) := by
  obtain ⟨q, hq⟩ : ∃ q, off = q * 2 ^ (9 * (level + 1) + 12) := by
    have hdvd : 2 ^ (9 * (level + 1) + 12) ∣ 2 ^ 48 := Nat.pow_dvd_pow 2 (by omega)
    obtain ⟨q, hq⟩ := hdvd.trans (Nat.dvd_of_mod_eq_zero hoff)
    exact ⟨q, by rw [hq, Nat.mul_comm]⟩
  calc (off + k * 2 ^ (9 * (level + 1) + 12)) ||| i <<< (9 * level + 12)
      = (q + k) * 2 ^ (9 * (level + 1) + 12) ||| i <<< (9 * level + 12) := by rw [hq, Nat.add_mul]
    _ = (512 * (q + k) + i) * 2 ^ (9 * level + 12) := virt_or_index level _ hi
    _ = off + (512 * k + i) * 2 ^ (9 * level + 12) := by
        rw [hq]
        ring

theorem address_of_entry (k level : Nat) : 4096 * (k * 512 ^ level) = k * 2 ^ (9 * level + 12) := by
  rw [Nat.pow_add, Nat.pow_mul]
  ring

/-- The walk below an entry for a table visits its mappings in order. -/
theorem iteratePages_eq_foldlM (h : Followed c (entries child m cr3) R) (hoff : off % 2 ^ 48 = 0) :
    ∀ level k t s, level ≤ 2 → R (k / 512 ^ (2 - level)) →
      child (entries child m cr3 (2 - level) k) = some t →
      iteratePages c m first last (fun s virt _ => f s virt) level t
          (off + k * 2 ^ (9 * (level + 1) + 12)) s =
        ((range 512).flatMap fun i => leaves (entries child m cr3) level (512 * k + i)).foldlM
          (fun s x => f s (off + 4096 * x.1)) s := by
  intro level
  induction level with
  | zero =>
    intro k t s _ hR ht
    have hne : t ≠ 0 := (h.table 2 (by omega) k hR t ht).2
    rw [iteratePages, if_neg hne, foldlM_flatMap]
    refine foldlM_congr fun s i hi => ?_
    rw [mem_range] at hi
    have hword := entries_of_table ht hi
    have haddr := address_or_index hoff k (Nat.zero_le 2) hi
    simp only [leaves, hword, haddr]
    split
    · refine Eq.trans ?_ (bind_pure _).symm
      rw [Nat.mul_comm]
      rfl
    · rfl
  | succ level ih =>
    intro k t s hlevel hR ht
    have hne : t ≠ 0 := (h.table (2 - (level + 1)) (by omega) k hR t ht).2
    have htop : level + 1 ≠ 3 := by omega
    rw [iteratePages]
    dsimp only
    rw [if_neg hne, if_neg htop, if_neg htop, ← range_eq_range', foldlM_flatMap]
    refine foldlM_congr fun s i hi => ?_
    rw [mem_range] at hi
    have hword := entries_of_table ht hi
    rw [show 2 - (level + 1) + 1 = 2 - level by omega] at hword
    have hhole : (if (decide (level + 1 = 3) && decide (256 ≤ i)) = true then 0xffff800000000000
        else 0) = 0 := by
      simp [htop]
    rw [hhole, Nat.zero_or, address_or_index hoff k hlevel hi, ← hword, leaves]
    split
    · rfl
    rename_i hpresent
    split
    · rw [foldlM_cons, address_of_entry]
      exact (bind_pure _).symm
    · rename_i hhuge
      have hchild : child (entries child m cr3 (2 - level) (512 * k + i)) ≠ none := by
        rw [child_ne_none_iff]
        simpa [htop] using And.intro hpresent hhuge
      obtain ⟨t', ht'⟩ := Option.ne_none_iff_exists'.1 hchild
      have hregion : R ((512 * k + i) / 512 ^ (2 - level)) := by
        rw [show 2 - level = 2 - (level + 1) + 1 by omega, ← div_path,
          show (512 * k + i) / 512 = k by omega]
        exact hR
      rw [(h.table (2 - level) (by omega) _ hregion t' ht').1]
      exact ih (512 * k + i) t' s (by omega) hregion ht'

/-- The loop over the entries of the root. -/
theorem foldlM_root (first last : Nat) (f : S → Nat → Except S S) (s : S)
    (h : Followed c (entries child m cr3) R) (hoff : off % 2 ^ 48 = 0)
    {is : List Nat} (his : ∀ i ∈ is, i < 512 ∧ R i ∧
      ((if (decide (2 + 1 = 3) && decide (0x100 ≤ i)) = true then 0xffff800000000000 else 0) |||
        0 ||| i <<< (9 * (2 + 1) + 12)) = off + i * 2 ^ (9 * (2 + 1) + 12)) :
    is.foldlM (fun s i =>
        let entry := m.load64 (cr3 + 8 * i)
        let hole := if 2 + 1 = 3 && decide (0x100 ≤ i) then 0xffff800000000000 else 0
        let virt := hole ||| 0 ||| i <<< (9 * (2 + 1) + 12)
        if !hasBit entry 0 then .ok s
        else if 2 + 1 ≠ 3 && hasBit entry 7 then f s virt
        else iteratePages c m first last (fun s virt _ => f s virt) 2 (c.rawPtr entry) virt s) s =
      (is.flatMap (leaves (entries child m cr3) 3)).foldlM (fun s x => f s (off + 4096 * x.1))
        s := by
  rw [foldlM_flatMap]
  refine foldlM_congr fun s i hi => ?_
  obtain ⟨hlt, hR, haddr⟩ := his i hi
  have hword : m.load64 (cr3 + 8 * i) = entries child m cr3 0 i := by
    rw [entries, wordAt, Nat.mod_eq_of_lt hlt]
  have hlevel (b : Bool) : ¬ (decide (2 + 1 ≠ 3) && b) = true := by simp
  dsimp only
  rw [haddr, hword, leaves]
  split
  · rfl
  · rename_i hpresent
    rw [if_neg (hlevel _), if_neg (hlevel _)]
    have hchild := child_ne_none_iff.2 ⟨by simpa using hpresent, h.top i hR⟩
    obtain ⟨t, ht⟩ := Option.ne_none_iff_exists'.1 hchild
    have hregion : R (i / 512 ^ 0) := by rwa [Nat.pow_zero, Nat.div_one]
    rw [(h.table 0 (by omega) i hregion t ht).1]
    exact iteratePages_eq_foldlM h hoff 2 i t s le_rfl hregion ht

end Walk

/-! ## The half of a process -/

/-- `USER_BASE` and `KERNEL_BASE`. -/
def usableBase (proc : Process) : Nat :=
  if proc.isUsermode then 0x1000 else 0xffffffff00000000 - 0x1000

/-- `USER_LIMIT` and `KERNEL_LIMIT`. -/
def usableLimit (proc : Process) : Nat :=
  if proc.isUsermode then 0x00007fffffffffff else 0xffffffffffffc000

/-- The entries of the root from that of the base to that of the limit. -/
def rootEntries (proc : Process) : List Nat := if proc.isUsermode then List.range 256 else [511]

/-- The number of the page at address 0, in the half of the process. -/
def firstPage (proc : Process) : Nat := if proc.isUsermode then 0 else 2 ^ 52 - 2 ^ 36

/-- The mappings of the half, with pages counted over the whole address space. -/
def mappings (E : Entries) (proc : Process) : List (Nat × Nat) :=
  ((rootEntries proc).flatMap (leaves E 3)).map fun x => (firstPage proc + x.1, x.2)

section Half

variable {S : Type} {c : Cpu} {m : Memory} {proc : Process} {f : S → Nat → Except S S} {s : S}

/-- The walk of the half of a process. -/
theorem iteratePages_half (h : Followed c (entries child m proc.cr3) (· ∈ rootEntries proc))
    (hcr3 : proc.cr3 ≠ 0) :
    iteratePages c m (usableBase proc) (usableLimit proc) (fun s virt _ => f s virt) 3 proc.cr3 0
      s =
      (mappings (entries child m proc.cr3) proc).foldlM (fun s x => f s (4096 * x.1)) s := by
  rw [iteratePages, if_pos rfl, if_pos rfl, if_neg hcr3, mappings, foldlM_map]
  have hrange : range' (addressToIndex (usableBase proc) 3)
      (addressToIndex (usableLimit proc) 3 + 1 - addressToIndex (usableBase proc) 3) =
      rootEntries proc := by
    unfold usableBase usableLimit rootEntries
    split
    · rw [show addressToIndex 0x1000 3 = 0 by decide,
        show addressToIndex 0x00007fffffffffff 3 + 1 - 0 = 256 by decide, range_eq_range']
    · decide
  rw [hrange]
  have hoff : (4096 * firstPage proc) % 2 ^ 48 = 0 := by
    unfold firstPage
    split <;> norm_num
  have hroot : ∀ i ∈ rootEntries proc, i < 512 ∧ i ∈ rootEntries proc ∧
      ((if (decide (2 + 1 = 3) && decide (0x100 ≤ i)) = true then 0xffff800000000000 else 0) |||
        0 ||| i <<< (9 * (2 + 1) + 12)) = 4096 * firstPage proc + i * 2 ^ (9 * (2 + 1) + 12) := by
    intro i hi
    rw [and_left_comm, and_iff_right hi]
    unfold rootEntries at hi
    unfold firstPage
    split at hi
    · rename_i huser
      rw [mem_range] at hi
      rw [if_neg (by simp; omega), if_pos huser, Nat.zero_or, Nat.zero_or, Nat.shiftLeft_eq,
        Nat.zero_add]
      exact ⟨by omega, rfl⟩
    · rename_i huser
      rw [mem_singleton] at hi
      rw [hi, if_neg huser]
      decide
  have hloop := foldlM_root (usableBase proc) (usableLimit proc) f s h hoff hroot
  simp only [Nat.mul_add]
  exact hloop

/-- The mappings of the half are within the address space. -/
theorem mappings_bounds {E : Entries} {x : Nat × Nat} (hx : x ∈ mappings E proc) :
    x.1 + x.2 ≤ 2 ^ 52 ∧ 0 < x.2 := by
  obtain ⟨y, hy, rfl⟩ := mem_map.1 hx
  obtain ⟨i, hi, hy⟩ := mem_flatMap.1 hy
  obtain ⟨-, hhi, hpos⟩ := leaves_bounds hy
  refine ⟨?_, hpos⟩
  cases huser : proc.isUsermode <;> simp [rootEntries, firstPage, huser] at hi ⊢ <;> omega

/-- The mappings of the half start one after the other. -/
theorem pairwise_mappings (E : Entries) (proc : Process) :
    ((mappings E proc).map Prod.fst).Pairwise (· < ·) := by
  have hroot : (rootEntries proc).Pairwise (· < ·) := by
    unfold rootEntries
    split
    · exact pairwise_lt_range
    · exact pairwise_singleton _ _
  have hleaves : ((rootEntries proc).flatMap (leaves E 3)).Pairwise (·.1 < ·.1) :=
    pairwise_flatMap_leaves (f := id) (fun i j h => h) hroot fun i => pairwise_leaves
  rw [mappings, map_map, pairwise_map]
  exact hleaves.imp fun h => Nat.add_lt_add_left h _

end Half

/-! ## The two passes -/

/-- The distance the callback compares, in pages: a second mapping is at least one page more than
the number of pages asked for behind the first. -/
def Far (nPages u v : Nat) : Prop := (nPages + 1) % 2 ^ 64 ≤ (v + 2 ^ 52 - u) % 2 ^ 52

/-- The first pages of the mappings from the base on. -/
def starts (E : Entries) (proc : Process) : List Nat :=
  ((mappings E proc).map Prod.fst).filter (usableBase proc / 4096 ≤ ·)

/-- The page behind which the search takes its range: it is followed by the first gap or, if there
is none, it is the last one, and the way round to the first one is long enough. The limit stands
for no address, and so does the end of the address space. -/
def Candidate (E : Entries) (proc : Process) (nPages u : Nat) : Prop :=
  ((∃ v, FirstPair (Far nPages) (usableBase proc / 4096) (starts E proc) u v) ∨
    ((usableBase proc / 4096 :: starts E proc).IsChain (fun u v => ¬ Far nPages u v) ∧
      ∃ t rest, starts E proc = t :: rest ∧ u = rest.getLastD t ∧ Far nPages u t)) ∧
  4096 * u ≠ usableLimit proc ∧ u + 1 < 2 ^ 52

section Passes

variable {c : Cpu} {m : Memory} {proc : Process} {E : Entries} {nPages base u : Nat}

/-- One pass over mappings, from the page that was the last one. -/
theorem foldlM_searchPage (base nPages : Nat) (ret : Nat) {ps : List Nat}
    (hps : ∀ p ∈ ps, p < 2 ^ 52) {last : Nat} (hlast : last < 2 ^ 52) :
    (∃ u v, FirstPair (Far nPages) last (ps.filter (base ≤ ·)) u v ∧
      outcome (ps.foldlM (fun st p => searchPage (4096 * base) nPages st (4096 * p) 0)
        ⟨ret, 4096 * last⟩) = ⟨4096 * u, 4096 * u⟩) ∨
    ((last :: ps.filter (base ≤ ·)).IsChain (fun u v => ¬ Far nPages u v) ∧
      outcome (ps.foldlM (fun st p => searchPage (4096 * base) nPages st (4096 * p) 0)
        ⟨ret, 4096 * last⟩) = ⟨ret, 4096 * (ps.filter (base ≤ ·)).getLastD last⟩) := by
  induction ps generalizing last with
  | nil => exact .inr ⟨.singleton last, rfl⟩
  | cons p ps ih =>
    have hp : p < 2 ^ 52 := hps p mem_cons_self
    have hrest : ∀ p ∈ ps, p < 2 ^ 52 := fun q hq => hps q (mem_cons_of_mem _ hq)
    rw [foldlM_cons, searchPage]
    by_cases hskip : 4096 * p < 4096 * base
    · rw [if_pos hskip, filter_cons_of_neg (by simp; omega)]
      exact ih hrest hlast
    · have hdist : (4096 * p + 2 ^ 64 - 4096 * last) % 2 ^ 64 / 4096 =
          (p + 2 ^ 52 - last) % 2 ^ 52 := by omega
      rw [if_neg hskip, filter_cons_of_pos (by simp; omega)]
      by_cases hfar : Far nPages last p
      · rw [if_pos (by rw [hdist]; exact hfar)]
        exact .inl ⟨last, p, .here hfar, rfl⟩
      · rw [if_neg (by rw [hdist]; exact hfar), getLastD_cons]
        rcases ih hrest hp with ⟨u, v, hpair, hrun⟩ | ⟨hchain, hrun⟩
        · exact .inl ⟨u, v, .there hfar hpair, hrun⟩
        · exact .inr ⟨.cons_cons hfar hchain, hrun⟩

/-- One pass over the mappings of the half. -/
def pass (E : Entries) (proc : Process) (nPages : Nat) (st : Search) : Search :=
  outcome (((mappings E proc).map Prod.fst).foldlM
    (fun st p => searchPage (usableBase proc) nPages st (4096 * p) 0) st)

/-- The search as passes over the mappings. -/
theorem findUsableAddress_eq (h : Followed c (entries child m proc.cr3) (· ∈ rootEntries proc))
    (hcr3 : proc.cr3 ≠ 0) : findUsableAddress c m proc nPages =
      let st := pass (entries child m proc.cr3) proc nPages ⟨usableLimit proc, usableBase proc⟩
      let st := if st.ret = usableLimit proc then pass (entries child m proc.cr3) proc nPages st
        else st
      if st.ret = usableLimit proc then 0 else (st.ret + 0x1000) % 2 ^ 64 := by
  have hpass (st : Search) : pass (entries child m proc.cr3) proc nPages st =
      outcome (iteratePages c m (usableBase proc) (usableLimit proc)
        (searchPage (usableBase proc) nPages) 3 proc.cr3 0 st) := by
    have hcall : (fun st virt _ => searchPage (usableBase proc) nPages st virt 0) =
        searchPage (usableBase proc) nPages := by
      funext st virt e
      rfl
    rw [pass, foldlM_map, ← iteratePages_half (f := fun st virt =>
      searchPage (usableBase proc) nPages st virt 0) h hcr3, hcall]
  simp only [hpass]
  rw [findUsableAddress, ← usableBase, ← usableLimit]
  generalize iteratePages c m _ _ _ 3 proc.cr3 0 = walk
  cases hfirst : walk ⟨usableLimit proc, usableBase proc⟩ with
  | ok st | error st =>
    rcases hsecond : walk st with st' | st' <;> simp only [hfirst, hsecond, outcome]

theorem usableBase_aligned (proc : Process) :
    usableBase proc = 4096 * (usableBase proc / 4096) := by
  unfold usableBase
  split <;> norm_num

theorem first_lt {p : Nat} (hp : p ∈ (mappings E proc).map Prod.fst) : p < 2 ^ 52 := by
  obtain ⟨x, hx, rfl⟩ := mem_map.1 hp
  have := mappings_bounds hx
  omega

/-- What a pass leaves. -/
theorem pass_cases (E : Entries) (proc : Process) (nPages ret : Nat) {last : Nat}
    (hlast : last < 2 ^ 52) :
    (∃ u v, FirstPair (Far nPages) last (starts E proc) u v ∧
      pass E proc nPages ⟨ret, 4096 * last⟩ = ⟨4096 * u, 4096 * u⟩) ∨
    ((last :: starts E proc).IsChain (fun u v => ¬ Far nPages u v) ∧
      pass E proc nPages ⟨ret, 4096 * last⟩ = ⟨ret, 4096 * (starts E proc).getLastD last⟩) := by
  have hrun := foldlM_searchPage (usableBase proc / 4096) nPages ret
    (fun _ => @first_lt proc E _) hlast
  rwa [← usableBase_aligned proc] at hrun

theorem pairwise_starts (E : Entries) (proc : Process) : (starts E proc).Pairwise (· < ·) :=
  (pairwise_mappings E proc).filter _

theorem starts_lt {t : Nat} (ht : t ∈ starts E proc) : t < 2 ^ 52 :=
  first_lt (mem_filter.1 ht).1

theorem firstPair_lt {v : Nat}
    (h : FirstPair (Far nPages) (usableBase proc / 4096) (starts E proc) u v) : u + 1 < 2 ^ 52 := by
  rcases h.eq_or_lt (pairwise_starts E proc) with rfl | hlt
  · unfold usableBase
    split <;> norm_num
  · have := starts_lt h.mem.2
    omega

/-- There is at most one such page. -/
theorem Candidate.unique {u' : Nat} (h : Candidate E proc nPages u)
    (h' : Candidate E proc nPages u') : u = u' := by
  rcases h.1 with ⟨v, hpair⟩ | ⟨hchain, t, rest, hstarts, rfl, -⟩
  · rcases h'.1 with ⟨v', hpair'⟩ | ⟨hchain', -⟩
    · exact (hpair.unique hpair').1
    · exact absurd hchain' hpair.not_isChain
  · rcases h'.1 with ⟨v', hpair'⟩ | ⟨-, t', rest', hstarts', rfl, -⟩
    · exact absurd hchain hpair'.not_isChain
    · rw [hstarts, cons.injEq] at hstarts'
      rw [hstarts'.1, hstarts'.2]

/-- The second pass after one that stopped at the limit stops there again. -/
theorem pass_limit {u v : Nat}
    (hpair : FirstPair (Far nPages) (usableBase proc / 4096) (starts E proc) u v)
    (hlimit : 4096 * u = usableLimit proc) :
    (pass E proc nPages ⟨usableLimit proc, usableLimit proc⟩).ret = usableLimit proc := by
  have hu : u < 2 ^ 52 := by
    unfold usableLimit at hlimit
    split at hlimit <;> omega
  rw [← hlimit]
  rcases pass_cases E proc nPages (4096 * u) hu with ⟨u', v', hpair', hrun⟩ | ⟨-, hrun⟩
  · rw [hrun]
    generalize starts E proc = ts at hpair hpair'
    cases hpair with
    | here hfar =>
      unfold usableLimit usableBase at hlimit
      split at hlimit <;> omega
    | there hnot hrest =>
      cases hpair' with
      | here => rfl
      | there _ hrest' => rw [(hrest.unique hrest').1]
  · rw [hrun]

/-- The second pass after one without a gap stops at the first mapping or not at all. -/
theorem pass_again
    (hchain : (usableBase proc / 4096 :: starts E proc).IsChain fun u v => ¬ Far nPages u v)
    (ret : Nat) {last : Nat} (hlt : last < 2 ^ 52) :
    (∃ t rest, starts E proc = t :: rest ∧ Far nPages last t ∧
      (pass E proc nPages ⟨ret, 4096 * last⟩).ret = 4096 * last) ∨
    ((∀ t rest, starts E proc = t :: rest → ¬ Far nPages last t) ∧
      (pass E proc nPages ⟨ret, 4096 * last⟩).ret = ret) := by
  rcases pass_cases E proc nPages ret hlt with ⟨u, v, hpair, hrun⟩ | ⟨hagain, hrun⟩
  · generalize hstarts : starts E proc = ts at hpair hchain
    cases hpair with
    | here hfar => exact .inl ⟨_, _, rfl, hfar, congrArg Search.ret hrun⟩
    | there _ hpair => exact absurd (isChain_cons_cons.1 hchain).2 hpair.not_isChain
  · refine .inr ⟨fun t rest hstarts => ?_, by rw [hrun]⟩
    rw [hstarts] at hagain
    exact (isChain_cons_cons.1 hagain).1

/-- The search finds the address behind such a page, and no address without one. -/
theorem findUsableAddress_cases (nPages : Nat)
    (h : Followed c (entries child m proc.cr3) (· ∈ rootEntries proc)) (hcr3 : proc.cr3 ≠ 0) :
    (∃ u, Candidate (entries child m proc.cr3) proc nPages u ∧
      findUsableAddress c m proc nPages = 4096 * (u + 1)) ∨
    ((∀ u, ¬ Candidate (entries child m proc.cr3) proc nPages u) ∧
      findUsableAddress c m proc nPages = 0) := by
  set E := entries child m proc.cr3 with hE
  have hbase := usableBase_aligned proc
  have hbaselt : usableBase proc / 4096 < 2 ^ 52 := by
    unfold usableBase
    split <;> norm_num
  rw [findUsableAddress_eq h hcr3]
  dsimp only
  rcases pass_cases E proc nPages (usableLimit proc) hbaselt with
    ⟨u, v, hpair, hrun⟩ | ⟨hchain, hrun⟩
  · rw [← hbase] at hrun
    have hu := firstPair_lt hpair
    by_cases hlimit : 4096 * u = usableLimit proc
    · refine .inr ⟨fun u' hu' => ?_, ?_⟩
      · rcases hu'.1 with ⟨v', hpair'⟩ | ⟨hchain, -⟩
        · rw [← (hpair.unique hpair').1] at hu'
          exact hu'.2.1 hlimit
        · exact hpair.not_isChain hchain
      · rw [hrun, if_pos hlimit, hlimit, if_pos (pass_limit hpair hlimit)]
    · refine .inl ⟨u, ⟨.inl ⟨v, hpair⟩, hlimit, hu⟩, ?_⟩
      rw [hrun, if_neg hlimit, if_neg hlimit]
      change (4096 * u + 4096) % 2 ^ 64 = _
      omega
  · -- no gap: the second pass starts with the last page of the first
    rw [← hbase] at hrun
    rw [hrun, if_pos rfl]
    obtain ⟨last, hlast⟩ : ∃ last, (starts E proc).getLastD (usableBase proc / 4096) = last :=
      ⟨_, rfl⟩
    have hlastlt : last < 2 ^ 52 := by
      rw [← hlast, getLastD_eq_getLast?]
      cases hget : (starts E proc).getLast? with
      | none => exact hbaselt
      | some t => exact starts_lt (mem_of_getLast? hget)
    have hcandidate {u : Nat} (hu : Candidate E proc nPages u) :
        u = last ∧ ∃ t rest, starts E proc = t :: rest ∧ Far nPages last t := by
      rcases hu.1 with ⟨v, hpair⟩ | ⟨-, t, rest, hstarts, rfl, hfar⟩
      · exact absurd hchain hpair.not_isChain
      · rw [hstarts, getLastD_cons] at hlast
        exact ⟨hlast, t, rest, hstarts, hlast ▸ hfar⟩
    rw [hlast]
    rcases pass_again hchain (usableLimit proc) hlastlt with
      ⟨t, rest, hstarts, hfar, hret⟩ | ⟨hnone, hret⟩
    · rw [hret]
      by_cases htaken : 4096 * last ≠ usableLimit proc ∧ last + 1 < 2 ^ 52
      · refine .inl ⟨last, ⟨.inr ⟨hchain, t, rest, hstarts, ?_, hfar⟩, htaken⟩, ?_⟩
        · rw [← hlast, hstarts, getLastD_cons]
        · rw [if_neg htaken.1]
          omega
      · refine .inr ⟨fun u hu => htaken ?_, ?_⟩
        · rw [← (hcandidate hu).1]
          exact hu.2
        · split
          · rfl
          · omega
    · refine .inr ⟨fun u hu => ?_, by rw [hret, if_pos rfl]⟩
      obtain ⟨-, t, rest, hstarts, hfar⟩ := hcandidate hu
      exact hnone t rest hstarts hfar

end Passes

/-! ## The contract -/

/-- A range of pages between the base and the limit of the process none of which is mapped. -/
structure FreeRange (E : Entries) (proc : Process) (a nPages : Nat) : Prop where
  aligned : a % 4096 = 0
  within : ∀ b, a ≤ b → b < a + 4096 * nPages → usableBase proc ≤ b ∧ b ≤ usableLimit proc
  unmapped : ∀ b, a ≤ b → b < a + 4096 * nPages → Unmapped E (key b)

/-- What the search is to find: a free range, or no address if there is none behind the page of the
base. -/
def Usable (E : Entries) (proc : Process) (nPages a : Nat) : Prop :=
  if a = 0 then ∀ a', usableBase proc + 4096 ≤ a' → ¬ FreeRange E proc a' nPages
  else FreeRange E proc a nPages

/-- The end of the pages up to the limit. -/
def endPage (proc : Process) : Nat := (usableLimit proc + 1) / 4096

/-- The page behind the candidate is not in a huge page and the range ends before the limit, and
where there is no candidate the room behind the last mapping is too small. -/
structure Findable (E : Entries) (proc : Process) (nPages : Nat) : Prop where
  taken : ∀ u, Candidate E proc nPages u →
    nPages = 0 ∨ (u + 1 + nPages ≤ endPage proc ∧ Unmapped E (key (4096 * (u + 1))))
  full : (∀ u, ¬ Candidate E proc nPages u) →
    nPages ≠ 0 ∧ endPage proc < reach (usableBase proc / 4096 + 1) (mappings E proc) + nPages

section Contract

variable {c : Cpu} {m : Memory} {proc : Process} {E : Entries} {nPages q u : Nat}

/-- The pages from the base to the limit are below the entries of the root that are visited. -/
theorem page_of_half (hlo : usableBase proc / 4096 ≤ q) (hhi : q < endPage proc) :
    firstPage proc + key (4096 * q) = q ∧ key (4096 * q) / 512 ^ 3 ∈ rootEntries proc := by
  unfold endPage at hhi
  unfold key
  cases huser : proc.isUsermode <;>
    simp only [usableBase, usableLimit, firstPage, rootEntries, huser, mem_range, mem_singleton,
      if_true, if_false, Bool.false_eq_true] at hlo hhi ⊢ <;> omega

section

variable (h : Followed c (entries child m proc.cr3) (· ∈ rootEntries proc))
include h

/-- The mappings of the half are its mapped pages. -/
theorem covered_mappings_iff (hlo : usableBase proc / 4096 ≤ q) (hhi : q < endPage proc) :
    Covered (mappings (entries child m proc.cr3) proc) q ↔
      ¬ Unmapped (entries child m proc.cr3) (key (4096 * q)) := by
  obtain ⟨hpage, hroot⟩ := page_of_half hlo hhi
  have hshift : Covered (mappings (entries child m proc.cr3) proc) q ↔
      Covered ((rootEntries proc).flatMap (leaves (entries child m proc.cr3) 3))
        (key (4096 * q)) := by
    constructor
    · rintro ⟨x, hx, hxlo, hxhi⟩
      obtain ⟨y, hy, rfl⟩ := mem_map.1 hx
      exact ⟨y, hy, by omega, by omega⟩
    · rintro ⟨y, hy, hylo, hyhi⟩
      refine ⟨_, mem_map_of_mem hy, ?_, ?_⟩
      · omega
      · omega
  refine hshift.trans ((covered_flatMap_iff (f := id) hroot rfl).trans ?_)
  exact covered_leaves_iff (h.top _ hroot)

/-- A free range, in pages. -/
theorem freeRange_iff :
    FreeRange (entries child m proc.cr3) proc (4096 * q) nPages ↔
      nPages = 0 ∨ (usableBase proc / 4096 ≤ q ∧ q + nPages ≤ endPage proc ∧
        ∀ i < nPages, ¬ Covered (mappings (entries child m proc.cr3) proc) (q + i)) := by
  constructor
  · rintro ⟨-, hwithin, hunmapped⟩
    rcases Nat.eq_zero_or_pos nPages with hzero | hpos
    · exact .inl hzero
    have hlo : usableBase proc / 4096 ≤ q := by
      have := (hwithin (4096 * q) le_rfl (by omega)).1
      omega
    have hhi : q + nPages ≤ endPage proc := by
      have := (hwithin (4096 * (q + nPages) - 1) (by omega) (by omega)).2
      unfold endPage
      omega
    refine .inr ⟨hlo, hhi, fun i hi hcovered => ?_⟩
    exact (covered_mappings_iff h (by omega) (by omega)).1 hcovered
      (hunmapped (4096 * (q + i)) (by omega) (by omega))
  · intro hfree
    refine ⟨Nat.mul_mod_right _ _, fun b hlo hhi => ?_, fun b hlo hhi => ?_⟩
    · obtain ⟨hbase, hend, -⟩ := hfree.resolve_left (by omega)
      unfold endPage at hend
      have haligned : usableBase proc % 4096 = 0 := by
        unfold usableBase
        split <;> norm_num
      omega
    · obtain ⟨hbase, hend, hnot⟩ := hfree.resolve_left (by omega)
      have hkey : key b = key (4096 * (q + (b / 4096 - q))) := by
        unfold key
        congr 1
        omega
      rw [hkey]
      by_contra hmapped
      exact hnot (b / 4096 - q) (by omega)
        ((covered_mappings_iff h (by omega) (by omega)).2 hmapped)

end

theorem covered_of_mem_starts (hq : q ∈ starts E proc) : Covered (mappings E proc) q := by
  obtain ⟨x, hx, rfl⟩ := mem_map.1 (mem_filter.1 hq).1
  exact ⟨x, hx, le_rfl, Nat.lt_add_of_pos_right (mappings_bounds hx).2⟩

theorem mem_starts {x : Nat × Nat} (hx : x ∈ mappings E proc)
    (hbase : usableBase proc / 4096 ≤ x.1) : x.1 ∈ starts E proc :=
  mem_filter.2 ⟨mem_map_of_mem hx, by simpa using hbase⟩

/-- Between neighbours that are not far apart there is no free range. -/
theorem not_far_covered (hnear : ∃ w x, x ∈ starts E proc ∧ w < q ∧ q ≤ x ∧ ¬ Far nPages w x) :
    ∃ i < nPages, Covered (mappings E proc) (q + i) := by
  obtain ⟨w, x, hx, hw, hqx, hnot⟩ := hnear
  have hlt := starts_lt hx
  unfold Far at hnot
  refine ⟨x - q, by omega, ?_⟩
  rw [show q + (x - q) = x by omega]
  exact covered_of_mem_starts hx

/-- The candidate is not before the base. -/
theorem Candidate.base_le (h : Candidate E proc nPages u) : usableBase proc / 4096 ≤ u := by
  have hstarts {t : Nat} (ht : t ∈ starts E proc) : usableBase proc / 4096 ≤ t := by
    simpa using (mem_filter.1 ht).2
  rcases h.1 with ⟨v, hpair⟩ | ⟨-, t, rest, heq, rfl, -⟩
  · rcases mem_cons.1 hpair.mem.1 with rfl | hmem
    · exact le_rfl
    · exact hstarts hmem
  · rw [← getLastD_cons, ← heq, getLastD_eq_getLast?]
    cases hget : (starts E proc).getLast? with
    | none => exact le_rfl
    | some t => exact hstarts (mem_of_getLast? hget)

/-- No mapping starts in the pages behind the candidate. -/
theorem Candidate.start_le (h : Candidate E proc nPages u) (hn : nPages + 1 < 2 ^ 64)
    {x : Nat × Nat} (hx : x ∈ mappings E proc) (hlt : x.1 < u + 1 + nPages) : x.1 ≤ u := by
  have hbase := h.base_le
  by_cases hbefore : x.1 < usableBase proc / 4096
  · omega
  have hmem := mem_starts hx (not_lt.1 hbefore)
  rcases h.1 with ⟨v, hpair⟩ | ⟨-, t, rest, heq, rfl, -⟩
  · have hfar := hpair.related
    have huv : u ≤ v := by
      rcases hpair.eq_or_lt (pairwise_starts E proc) with rfl | huv
      · simpa using (mem_filter.1 hpair.mem.2).2
      · exact huv.le
    unfold Far at hfar
    exact hpair.le_of_lt (pairwise_starts E proc) hmem (by omega)
  · have hsorted := pairwise_starts E proc
    rw [heq] at hsorted hmem
    exact le_getLastD hsorted hmem

/-- Without a candidate, a range that is free is behind all mappings. -/
theorem reach_le_of_free (hnone : ∀ u, ¬ Candidate E proc nPages u) (hpos : 0 < nPages)
    (hlo : usableBase proc / 4096 < q) (hhi : q + nPages ≤ endPage proc)
    (hfree : ∀ i < nPages, ¬ Covered (mappings E proc) (q + i)) :
    reach (usableBase proc / 4096 + 1) (mappings E proc) ≤ q := by
  refine reach_le hlo fun x hx => ?_
  by_contra hend
  have hbehind : q < x.1 := by
    by_contra hle
    exact hfree 0 hpos ⟨x, hx, by omega, by omega⟩
  have hmem := mem_starts hx (by omega)
  have hnear : ∃ w x, x ∈ starts E proc ∧ w < q ∧ q ≤ x ∧ ¬ Far nPages w x := by
    rcases exists_firstPair_or_isChain (Far nPages) (usableBase proc / 4096) (starts E proc) with
      ⟨u, v, hpair⟩ | hchain
    · -- the gap is behind the limit
      have hlimit : 4096 * u = usableLimit proc := by
        by_contra hne
        exact hnone u ⟨.inl ⟨v, hpair⟩, hne, firstPair_lt hpair⟩
      refine hpair.around hlo ?_
      unfold endPage at hhi
      omega
    · exact isChain_around hchain hlo hmem hbehind.le
  obtain ⟨i, hi, hcovered⟩ := not_far_covered hnear
  exact hfree i hi hcovered

/-- The address found is that of a free range, or there is none if none is found, exactly for the
page maps and numbers of pages that are findable. -/
theorem findUsableAddress_usable_iff
    (h : Followed c (entries child m proc.cr3) (· ∈ rootEntries proc)) (hcr3 : proc.cr3 ≠ 0) :
    Usable (entries child m proc.cr3) proc nPages (findUsableAddress c m proc nPages) ↔
      Findable (entries child m proc.cr3) proc nPages := by
  rcases findUsableAddress_cases nPages h hcr3 with ⟨u, hu, heq⟩ | ⟨hnone, heq⟩
  · rw [heq, Usable, freeRange_iff h]
    have hbase := hu.base_le
    constructor
    · intro hfree
      refine ⟨fun u' hu' => ?_, fun hnone => absurd hu (hnone u)⟩
      rw [← hu.unique hu']
      rcases Nat.eq_zero_or_pos nPages with hzero | hpos
      · exact .inl hzero
      obtain ⟨-, hend, hnot⟩ := hfree.resolve_left (by omega)
      refine .inr ⟨hend, ?_⟩
      by_contra hmapped
      exact hnot 0 hpos ((covered_mappings_iff h (by omega) (by omega)).2 hmapped)
    · intro hfind
      refine (hfind.taken u hu).imp_right fun ⟨hend, hunmapped⟩ => ?_
      refine ⟨by omega, hend, fun i hi hcovered => ?_⟩
      -- what covers a page of the range covers its first page
      have hnPages : nPages + 1 < 2 ^ 64 := by
        have : endPage proc ≤ 2 ^ 52 := by
          unfold endPage usableLimit
          split <;> norm_num
        omega
      have hfirst : Covered (mappings (entries child m proc.cr3) proc) (u + 1) :=
        hcovered.first (fun x hx hlt => hu.start_le hnPages hx hlt) (by omega) (by omega) (by omega)
      exact (covered_mappings_iff h (by omega) (by omega)).1 hfirst hunmapped
  · rw [heq, Usable]
    have hbase := usableBase_aligned proc
    constructor
    · intro hall
      refine ⟨fun u hu => absurd hu (hnone u), fun _ => ⟨?_, ?_⟩⟩
      · rintro rfl
        refine hall (4096 * (usableBase proc / 4096 + 1)) (by omega) ?_
        exact (freeRange_iff h).2 (.inl rfl)
      · by_contra hroom
        have hleast := least_le_reach (usableBase proc / 4096 + 1)
          (mappings (entries child m proc.cr3) proc)
        refine hall (4096 * reach (usableBase proc / 4096 + 1)
          (mappings (entries child m proc.cr3) proc)) (by omega) ((freeRange_iff h).2 (.inr ?_))
        exact ⟨by omega, by omega, fun i _ => not_covered_of_reach_le (Nat.le_add_right _ _)⟩
    · intro hfind a' ha' hfree
      obtain ⟨hne, hfull⟩ := hfind.full hnone
      obtain ⟨q, rfl⟩ : ∃ q, a' = 4096 * q := ⟨a' / 4096, by have := hfree.aligned; omega⟩
      obtain ⟨-, hend, hnot⟩ := ((freeRange_iff h).1 hfree).resolve_left hne
      have := reach_le_of_free hnone (Nat.pos_of_ne_zero hne) (by omega) hend hnot
      omega

/-- In memory that is zero there is an empty page map. -/
theorem entries_zero (cr3 d k : Nat) : entries child (fun _ => 0) cr3 d k = 0 := by
  have hword (t : Option Nat) : wordAt (fun _ => 0) k t = 0 := by
    cases t with
    | none => rfl
    | some t =>
      rw [wordAt]
      exact Memory.load64_eq_zero fun _ _ _ => rfl
  cases d with
  | zero => exact hword _
  | succ d => exact hword _

/-- The words of a page map with two pages of 1 GiB. -/
def twoMappingsWords : List (Nat × BitVec 64) :=
  [(0x1000, 0x2007), (0x2008, 0x40000087), (0x2018, 0xc0000087)]

theorem followed_twoMappings : Followed smallCpu
    (entries child (.ofWords twoMappingsWords) 0x1000) (· ∈ rootEntries ⟨0x1000, true⟩) := by
  have hsurvey : Surveyed child twoMappingsWords 0x1000 (· < 512) 3
      [(0, 0, 0x2007), (1, 1, 0x40000087), (1, 3, 0xc0000087)] := by decide
  have hentry {d k : Nat} (hd : d < 3) (hk : k / 512 ^ d ∈ rootEntries ⟨0x1000, true⟩) :=
    or_iff_not_imp_left.2 (hsurvey.mem child_zero (fun _ h => h) d hd.le k
      (Nat.lt_of_lt_of_le (mem_range.1 hk) (by decide)))
  simp only [mem_cons, Prod.mk.injEq, not_mem_nil, or_false] at hentry
  refine ⟨fun k hk => ?_, fun d hd k hk t ht => ?_⟩
  · rcases hentry (d := 0) (by decide) (by simpa using hk) with he | ⟨-, -, he⟩ | ⟨h, -⟩ | ⟨h, -⟩
    · rw [he]
      decide
    · rw [he]
      decide
    · cases h
    · cases h
  · rcases hentry hd hk with he | ⟨-, -, he⟩ | ⟨-, -, he⟩ | ⟨-, -, he⟩ <;> rw [he] at ht ⊢ <;>
      decide +revert

/-- The first page behind the base is found. -/
theorem findUsableAddress_usable_iff_twoMappings :
    findUsableAddress smallCpu (.ofWords twoMappingsWords) ⟨0x1000, true⟩ 1 = 0x2000 ∧
      Findable (entries child (.ofWords twoMappingsWords) 0x1000) ⟨0x1000, true⟩ 1 := by
  have haddr : findUsableAddress smallCpu (.ofWords twoMappingsWords) ⟨0x1000, true⟩ 1 =
      0x2000 := by
    decide +kernel
  refine ⟨haddr, (@findUsableAddress_usable_iff smallCpu _ ⟨0x1000, true⟩ 1 followed_twoMappings
    (by decide)).1 ?_⟩
  refine ⟨by decide, fun b hlo hhi => ?_, fun b hlo hhi => ?_⟩
  · change 0x1000 ≤ b ∧ b ≤ 0x00007fffffffffff
    omega
  · have hkey : key b = 2 := by
      unfold key
      omega
    rw [hkey]
    exact ⟨by decide +kernel, by decide +kernel⟩

/-- In a process that has mapped nothing no page is found, although all are free. -/
theorem findUsableAddress_empty_null :
    findUsableAddress smallCpu (fun _ => 0) ⟨0x1000, true⟩ 1 = 0 ∧
      FreeRange (entries child (fun _ => 0) 0x1000) ⟨0x1000, true⟩ 0x2000 1 := by
  refine ⟨by decide +kernel, by decide, fun b hlo hhi => ?_, fun b hlo hhi => ⟨?_, ?_⟩⟩
  · change 0x1000 ≤ b ∧ b ≤ 0x00007fffffffffff
    omega
  · rw [walk, entries_zero, child_zero]
  · rw [entries_zero]
    rfl

end Contract

end Obos.Paging
