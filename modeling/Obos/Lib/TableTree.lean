import Obos.Lib.Memory

/-!
# Trees of page-sized tables in memory

A table is a page of 512 words. A word of a table is an entry; `child` says
which entries point at a further table. The contents of the tree below a root
table are a function of depth and path, where the path of an entry is the number
whose base-512 digits are the indices taken: `entries` reads them off a memory,
and `Represents` says that a memory holds given contents, with no table used
twice, for the part of the tree below the indices of a region of the root.

A write to one word of a represented tree changes one entry of the contents
(`Represents.store`), and a write elsewhere changes none (`Represents.congr`).
-/

namespace Lib.TableTree

open Option

/-- The contents of a tree: the entry at each depth and path. -/
abbrev Entries := Nat → Nat → BitVec 64

/-- The contents with one entry replaced. -/
def set (E : Entries) (d k : Nat) (v : BitVec 64) : Entries := fun d' k' =>
  if d' = d ∧ k' = k then v else E d' k'

@[simp] theorem set_same {E : Entries} {d k : Nat} {v : BitVec 64} : set E d k v d k = v := by
  simp [set]

theorem set_other {E : Entries} {d k d' k' : Nat} {v : BitVec 64} (h : ¬ (d' = d ∧ k' = k)) :
    set E d k v d' k' = E d' k' := by
  simp [set, h]

section

variable (child : BitVec 64 → Option Nat)

/-- The table that holds the entry at a depth and path. -/
def tableOf (root : Nat) (E : Entries) : Nat → Nat → Option Nat
  | 0, _ => some root
  | d + 1, k => child (E d (k / 512))

/-- The word of a table at the last index of a path, and zero without a table. -/
def wordAt (m : Memory) (k : Nat) : Option Nat → BitVec 64
  | none => 0
  | some t => m.load64 (t + 8 * (k % 512))

/-- The contents of the tree below a root. -/
def entries (m : Memory) (root : Nat) : Entries
  | 0, k => wordAt m k (some root)
  | d + 1, k => wordAt m k (child (entries m root d (k / 512)))

/-- A table that an entry of the region above the leaf depth points at. -/
def Live (R : Nat → Prop) (depth : Nat) (E : Entries) (t : Nat) : Prop :=
  ∃ d < depth, ∃ k, R (k / 512 ^ d) ∧ child (E d k) = some t

/-- The memory holds the contents `E` below the indices in `R` of the root table, in tables that
are page-aligned, pairwise distinct and distinct from the root. -/
structure Represents (m : Memory) (root : Nat) (R : Nat → Prop) (depth : Nat) (E : Entries) :
    Prop where
  word : ∀ d ≤ depth, ∀ k, R (k / 512 ^ d) → E d k = wordAt m k (tableOf child root E d k)
  region_lt : ∀ i, R i → i < 512
  root_aligned : root % 4096 = 0
  aligned : ∀ t, Live child R depth E t → t % 4096 = 0
  ne_root : ¬ Live child R depth E root
  inj : ∀ d < depth, ∀ k, R (k / 512 ^ d) → ∀ d' < depth, ∀ k', R (k' / 512 ^ d') →
    ∀ t, child (E d k) = some t → child (E d' k') = some t → d = d' ∧ k = k'

/-- A page of zero words that is not a table of the region. -/
structure Fresh (m : Memory) (root : Nat) (R : Nat → Prop) (depth : Nat) (E : Entries) (f : Nat) :
    Prop where
  aligned : f % 4096 = 0
  ne_root : f ≠ root
  not_live : ¬ Live child R depth E f
  zero : ∀ i < 512, m.load64 (f + 8 * i) = 0

/-- The values that may replace an entry without a change to any other: anything at the leaf
depth, above it an entry for the same table, and, where all entries below are zero, an entry for
no table or for a fresh one. -/
inductive Replaces (m : Memory) (root : Nat) (R : Nat → Prop) (depth : Nat) (E : Entries)
    (d k : Nat) (v : BitVec 64) : Prop where
  | leaf (h : d = depth)
  | same (h : child v = child (E d k))
  | removed (hzero : ∀ k', k' / 512 = k → E (d + 1) k' = 0) (h : child v = none)
  | fresh (f : Nat) (hzero : ∀ k', k' / 512 = k → E (d + 1) k' = 0) (h : child v = some f)
      (hfresh : Fresh child m root R depth E f)

end

variable {child : BitVec 64 → Option Nat} {m m' : Memory} {root depth : Nat} {R : Nat → Prop}
  {E : Entries} {d k d' k' t : Nat} {v : BitVec 64}

theorem div_path (d k : Nat) : k / 512 / 512 ^ d = k / 512 ^ (d + 1) := by
  rw [Nat.div_div_eq_div_mul, Nat.pow_succ, Nat.mul_comm]

theorem Live.mono {n : Nat} (hlive : Live child R n E t) (hn : n ≤ depth) :
    Live child R depth E t :=
  hlive.imp fun _ h => ⟨h.1.trans_le hn, h.2⟩

/-- Two memories with the same words in the tables of a region have the same contents there. -/
theorem entries_congr (hroot : ∀ i, R i → m'.load64 (root + 8 * (i % 512)) =
      m.load64 (root + 8 * (i % 512)))
    (hlive : ∀ t, Live child R depth (entries child m root) t → Memory.SameOn m m' t (t + 4096)) :
    ∀ d ≤ depth, ∀ k, R (k / 512 ^ d) → entries child m' root d k = entries child m root d k := by
  intro d
  induction d with
  | zero =>
    intro _ k hk
    exact hroot k (by simpa using hk)
  | succ d ih =>
    intro hd k hk
    have habove := ih (by omega) (k / 512) (by rwa [div_path])
    rw [entries, entries, habove]
    cases ht : child (entries child m root d (k / 512)) with
    | none => rfl
    | some t =>
      have hsame := hlive t ⟨d, by omega, k / 512, by rwa [div_path], ht⟩
      exact Memory.load64_congr (hsame.mono (by omega) (by omega))

namespace Represents

section

variable (h : Represents child m root R depth E)
include h

/-- Contents that are represented are those that are read. -/
theorem eq_entries : ∀ d ≤ depth, ∀ k, R (k / 512 ^ d) → E d k = entries child m root d k := by
  intro d
  induction d with
  | zero =>
    intro hd k hk
    exact h.word 0 hd k hk
  | succ d ih =>
    intro hd k hk
    rw [h.word (d + 1) hd k hk, tableOf, entries, ih (by omega) _ (by rwa [div_path])]

theorem zero_of_none (hd : d < depth)
    (hk : R (k / 512 ^ (d + 1))) (hnone : child (E d (k / 512)) = none) : E (d + 1) k = 0 := by
  rw [h.word (d + 1) hd k hk, tableOf, hnone, wordAt]

omit h in
theorem live_of_tableOf (hd : d + 1 ≤ depth) (hk : R (k / 512 ^ (d + 1)))
    (ht : tableOf child root E (d + 1) k = some t) : Live child R depth E t :=
  ⟨d, by omega, k / 512, by rwa [div_path], ht⟩

theorem tableOf_aligned (hd : d ≤ depth) (hk : R (k / 512 ^ d))
    (ht : tableOf child root E d k = some t) : t % 4096 = 0 := by
  cases d with
  | zero =>
    cases ht
    exact h.root_aligned
  | succ d => exact h.aligned t (live_of_tableOf hd hk ht)

/-- Two entries in one table have the same depth and the same path above them. -/
theorem tableOf_inj (hd : d ≤ depth) (hk : R (k / 512 ^ d)) (hd' : d' ≤ depth)
    (hk' : R (k' / 512 ^ d')) (ht : tableOf child root E d k = some t)
    (ht' : tableOf child root E d' k' = some t) : d = d' ∧ k / 512 = k' / 512 := by
  cases d with
  | zero =>
    cases d' with
    | zero =>
      have hlt := h.region_lt _ hk
      have hlt' := h.region_lt _ hk'
      exact ⟨rfl, by omega⟩
    | succ d' =>
      cases ht
      exact absurd (live_of_tableOf hd' hk' ht') h.ne_root
  | succ d =>
    cases d' with
    | zero =>
      cases ht'
      exact absurd (live_of_tableOf hd hk ht) h.ne_root
    | succ d' =>
      obtain ⟨rfl, hpath⟩ := h.inj d (by omega) (k / 512) (by rwa [div_path]) d' (by omega)
        (k' / 512) (by rwa [div_path]) t ht ht'
      exact ⟨rfl, hpath⟩

/-- No entry is in the table it points at. -/
theorem tableOf_ne_child (hd : d < depth) (hk : R (k / 512 ^ d))
    (ht : tableOf child root E d k = some t) (ht' : child (E d k) = some t') : t ≠ t' := by
  rintro rfl
  have hbelow : tableOf child root E (d + 1) (k * 512) = some t := by
    rwa [tableOf, Nat.mul_div_cancel k (by decide)]
  have hregion : R (k * 512 / 512 ^ (d + 1)) := by
    rwa [← div_path, Nat.mul_div_cancel k (by decide)]
  obtain ⟨hdepth, -⟩ := h.tableOf_inj hd.le hk hd hregion ht hbelow
  omega

/-- The upper part of the tree. -/
theorem take {n : Nat} (hn : n ≤ depth) : Represents child m root R n E :=
  ⟨fun d hd => h.word d (hd.trans hn), h.region_lt, h.root_aligned,
    fun t ht => h.aligned t (ht.mono hn), fun ht => h.ne_root (ht.mono hn),
    fun d hd k hk d' hd' => h.inj d (hd.trans_le hn) k hk d' (hd'.trans_le hn)⟩

/-- Only the contents below the region matter. -/
theorem congr_entries {E' : Entries} (heq : ∀ d ≤ depth, ∀ k, R (k / 512 ^ d) → E' d k = E d k) :
    Represents child m root R depth E' := by
  have hlive : ∀ t, Live child R depth E' t → Live child R depth E t := by
    rintro t ⟨d, hd, k, hk, ht⟩
    exact ⟨d, hd, k, hk, by rwa [← heq d (by omega) k hk]⟩
  refine ⟨fun d hd k hk => ?_, h.region_lt, h.root_aligned, fun t ht => h.aligned t (hlive t ht),
    fun ht => h.ne_root (hlive root ht), ?_⟩
  · rw [heq d hd k hk, h.word d hd k hk]
    cases d with
    | zero => rfl
    | succ d => rw [tableOf, tableOf, heq d (by omega) (k / 512) (by rwa [div_path])]
  · intro d hd k hk d' hd' k' hk' t ht ht'
    rw [heq d (by omega) k hk] at ht
    rw [heq d' (by omega) k' hk'] at ht'
    exact h.inj d hd k hk d' hd' k' hk' t ht ht'

/-- A write outside the tables keeps the contents. -/
theorem congr (hroot : ∀ i, R i → m'.load64 (root + 8 * i) = m.load64 (root + 8 * i))
    (hlive : ∀ t, Live child R depth E t → Memory.SameOn m m' t (t + 4096)) :
    Represents child m' root R depth E := by
  refine ⟨fun d hd k hk => ?_, h.region_lt, h.root_aligned, h.aligned, h.ne_root, h.inj⟩
  rw [h.word d hd k hk]
  cases ht : tableOf child root E d k with
  | none => rfl
  | some t =>
    cases d with
    | zero =>
      cases ht
      simp only [Nat.pow_zero, Nat.div_one] at hk
      simp only [wordAt, Nat.mod_eq_of_lt (h.region_lt k hk), hroot k hk]
    | succ d =>
      have hsame := hlive t (live_of_tableOf hd hk ht)
      exact (Memory.load64_congr (hsame.mono (by omega) (by omega))).symm

omit h in
/-- A live table after an entry was replaced was live before, or is the fresh one. -/
theorem live_set (hr : Replaces child m root R depth E d k v) (hk : R (k / 512 ^ d))
    (hlive : Live child R depth (set E d k v) t) :
    Live child R depth E t ∨
      (d < depth ∧ child v = some t ∧ Fresh child m root R depth E t) := by
  obtain ⟨d', hd', k', hk', ht⟩ := hlive
  by_cases hnode : d' = d ∧ k' = k
  · obtain ⟨rfl, rfl⟩ := hnode
    rw [set_same] at ht
    cases hr with
    | leaf h => omega
    | same h => exact .inl ⟨d', hd', k', hk', h ▸ ht⟩
    | removed _ h =>
      rw [h] at ht
      cases ht
    | fresh f _ h hfresh =>
      obtain rfl : f = t := by
        rw [h] at ht
        exact some_inj.1 ht
      exact .inr ⟨hd', h, hfresh⟩
  · rw [set_other hnode] at ht
    exact .inl ⟨d', hd', k', hk', ht⟩

/-- After an entry was replaced, no other entry points at its table. -/
theorem eq_of_child_set (hr : Replaces child m root R depth E d k v) (hd : d < depth)
    (hk : R (k / 512 ^ d)) (ht : child v = some t) (hd' : d' < depth) (hk' : R (k' / 512 ^ d'))
    (ht' : child (E d' k') = some t) : d' = d ∧ k' = k := by
  cases hr with
  | leaf hleaf => omega
  | same hsame => exact h.inj d' hd' k' hk' d hd k hk t ht' (hsame ▸ ht)
  | removed _ hnone =>
    rw [hnone] at ht
    cases ht
  | fresh f _ hchild hfresh =>
    obtain rfl : f = t := by
      rw [hchild] at ht
      exact some_inj.1 ht
    exact absurd ⟨d', hd', k', hk', ht'⟩ hfresh.not_live

/-- The word of an entry other than the one written, in a table that stays. -/
theorem load64_store_other (hd : d ≤ depth) (hk : R (k / 512 ^ d))
    (ht : tableOf child root E d k = some t) (hd' : d' ≤ depth) (hk' : R (k' / 512 ^ d')) {t' : Nat}
    (ht' : tableOf child root E d' k' = some t') (hnode : ¬ (d' = d ∧ k' = k)) :
    (m.store64 (t + 8 * (k % 512)) v).load64 (t' + 8 * (k' % 512)) =
      m.load64 (t' + 8 * (k' % 512)) := by
  have haligned := h.tableOf_aligned hd hk ht
  have haligned' := h.tableOf_aligned hd' hk' ht'
  refine Memory.load64_store64_other v ?_
  by_cases htables : t' = t
  · subst htables
    obtain ⟨rfl, hpath⟩ := h.tableOf_inj hd' hk' hd hk ht' ht
    omega
  · omega

/-- Writing the word of an entry replaces the entry. -/
theorem store (hd : d ≤ depth) (hk : R (k / 512 ^ d)) (ht : tableOf child root E d k = some t)
    (hr : Replaces child m root R depth E d k v) :
    Represents child (m.store64 (t + 8 * (k % 512)) v) root R depth (set E d k v) := by
  have haligned := h.tableOf_aligned hd hk ht
  refine ⟨fun d' hd' k' hk' => ?_, h.region_lt, h.root_aligned, ?_, ?_, ?_⟩
  · by_cases hnode : d' = d ∧ k' = k
    · -- the entry itself: the table it is in is that of an entry of another depth
      obtain ⟨rfl, rfl⟩ := hnode
      have htable : tableOf child root (set E d' k' v) d' k' = some t := by
        cases d' with
        | zero => exact ht
        | succ d' => rw [tableOf, set_other (by omega)]; exact ht
      rw [set_same, htable, wordAt, Memory.load64_store64_same]
    rw [set_other hnode, h.word d' hd' k' hk']
    by_cases hbelow : ∃ e, d' = e + 1 ∧ e = d ∧ k' / 512 = k
    · -- an entry in the table the replaced entry points at
      obtain ⟨e, rfl, rfl, rfl⟩ := hbelow
      have hnew : tableOf child root (set E e (k' / 512) v) (e + 1) k' = child v := by
        rw [tableOf, set_same]
      rw [hnew]
      have hold := h.word (e + 1) hd' k' hk'
      cases hr with
      | leaf hleaf => omega
      | same hsame =>
        rw [hsame]
        change wordAt m k' (child (E e (k' / 512))) = _
        cases hchild : child (E e (k' / 512)) with
        | none => rfl
        | some t' => exact (h.load64_store_other hd hk ht hd' hk' hchild (by omega)).symm
      | removed hzero hnone => rw [← hold, hnone, hzero k' rfl, wordAt]
      | fresh f hzero hchild hfresh =>
        rw [← hold, hchild, hzero k' rfl, wordAt]
        have hne : f ≠ t := by
          rintro rfl
          cases e with
          | zero =>
            cases ht
            exact hfresh.ne_root rfl
          | succ e => exact hfresh.not_live (live_of_tableOf hd hk ht)
        have hfa := hfresh.aligned
        rw [Memory.load64_store64_other v (by omega), hfresh.zero _ (Nat.mod_lt _ (by decide))]
    · have htable : tableOf child root (set E d k v) d' k' = tableOf child root E d' k' := by
        cases d' with
        | zero => rfl
        | succ e => rw [tableOf, tableOf, set_other fun hn => hbelow ⟨e, rfl, hn.1, hn.2⟩]
      rw [htable]
      cases ht' : tableOf child root E d' k' with
      | none => rfl
      | some t' => exact (h.load64_store_other hd hk ht hd' hk' ht' hnode).symm
  · intro t' hlive
    rcases live_set hr hk hlive with hlive | ⟨-, -, hfresh⟩
    · exact h.aligned t' hlive
    · exact hfresh.aligned
  · intro hlive
    rcases live_set hr hk hlive with hlive | ⟨-, -, hfresh⟩
    · exact h.ne_root hlive
    · exact hfresh.ne_root rfl
  · intro d1 hd1 k1 hk1 d2 hd2 k2 hk2 t' h1 h2
    by_cases hn1 : d1 = d ∧ k1 = k
    · obtain ⟨rfl, rfl⟩ := hn1
      rw [set_same] at h1
      by_cases hn2 : d2 = d1 ∧ k2 = k1
      · exact ⟨hn2.1.symm, hn2.2.symm⟩
      · rw [set_other hn2] at h2
        have heq := h.eq_of_child_set hr hd1 hk h1 hd2 hk2 h2
        exact ⟨heq.1.symm, heq.2.symm⟩
    · rw [set_other hn1] at h1
      by_cases hn2 : d2 = d ∧ k2 = k
      · obtain ⟨rfl, rfl⟩ := hn2
        rw [set_same] at h2
        exact h.eq_of_child_set hr hd2 hk h2 hd1 hk1 h1
      · rw [set_other hn2] at h2
        exact h.inj d1 hd1 k1 hk1 d2 hd2 k2 hk2 t' h1 h2

end

end Represents

/-! ## Trees in a memory that was written word by word -/

/-- The list has the depth, the path and the value of every entry below a root that is not zero, and
the tables are aligned, distinct and not the root, which is the first page that was written. -/
def Surveyed (child : BitVec 64 → Option Nat) (words : List (Nat × BitVec 64)) (root : Nat)
    (R : Nat → Prop) (depth : Nat) (survey : List (Nat × Nat × BitVec 64)) : Prop :=
  root % 4096 = 0 ∧ (∀ w ∈ words, w.1 % 8 = 0 ∧ root ≤ w.1) ∧
  (∀ w ∈ words, R ((w.1 - root) / 8) → (0, (w.1 - root) / 8, w.2) ∈ survey) ∧
  ∀ e ∈ survey, e.1 < depth → ∀ t ∈ (child e.2.2).toList, t % 4096 = 0 ∧ t ≠ root ∧
    (∀ w ∈ words, t ≤ w.1 → w.1 < t + 4096 →
      (e.1 + 1, 512 * e.2.1 + (w.1 - t) / 8, w.2) ∈ survey) ∧
    ∀ e' ∈ survey, e'.1 < depth → child e'.2.2 = some t → e = e'

set_option synthInstance.maxSize 512 in
instance [DecidablePred R] (words : List (Nat × BitVec 64))
    (survey : List (Nat × Nat × BitVec 64)) :
    Decidable (Surveyed child words root R depth survey) :=
  inferInstanceAs (Decidable (_ ∧ _))

section

variable {words : List (Nat × BitVec 64)} {survey : List (Nat × Nat × BitVec 64)}
variable (h : Surveyed child words root R depth survey) (hchild : child 0 = none)
  (hR : ∀ i, R i → i < 512)
include h hchild hR

/-- The entries that are not zero are in the list. -/
theorem Surveyed.mem : ∀ d ≤ depth, ∀ k, R (k / 512 ^ d) →
    entries child (.ofWords words) root d k ≠ 0 →
    (d, k, entries child (.ofWords words) root d k) ∈ survey := by
  obtain ⟨hroot, hwords, hfirst, hbelow⟩ := h
  have hwritten {a : Nat} := Memory.mem_of_load64_ofWords (a := a) fun w hw => (hwords w hw).1
  intro d
  induction d with
  | zero =>
    intro _ k hk hne
    rw [Nat.pow_zero, Nat.div_one] at hk
    rw [entries, wordAt, Nat.mod_eq_of_lt (hR k hk)] at hne ⊢
    simpa [hk] using hfirst _ (hwritten (by omega) hne)
  | succ d ih =>
    intro hd k hk hne
    rw [← div_path] at hk
    rw [entries] at hne ⊢
    have habove := ih (by omega) _ hk
    generalize entries child (.ofWords words) root d (k / 512) = e at hne habove
    cases ht : child e with
    | none =>
      rw [ht] at hne
      exact absurd rfl hne
    | some t =>
      rw [ht, wordAt] at hne
      obtain ⟨haligned, -, hnext, -⟩ := hbelow _ (habove fun hzero => by simp_all) hd t
        (mem_toList.2 ht)
      have hmem := hnext _ (hwritten (by omega) hne) (by simp) (by simp; omega)
      simpa [wordAt, Nat.div_add_mod] using hmem

theorem Surveyed.mem_of_child (hd : d < depth) (hk : R (k / 512 ^ d))
    (ht : child (entries child (.ofWords words) root d k) = some t) :
    (d, k, entries child (.ofWords words) root d k) ∈ survey := by
  refine h.mem hchild hR d hd.le k hk fun hzero => ?_
  rw [hzero, hchild] at ht
  cases ht

/-- The tables of the tree are those of the list. -/
theorem Surveyed.live (hlive : Live child R depth (entries child (.ofWords words) root) t) :
    t ∈ (survey.filter (·.1 < depth)).filterMap (child ·.2.2) := by
  obtain ⟨d, hd, k, hk, ht⟩ := hlive
  exact List.mem_filterMap.2
    ⟨_, List.mem_filter.2 ⟨h.mem_of_child hchild hR hd hk ht, by simpa using hd⟩, ht⟩

/-- The memory represents the contents that are read. -/
theorem Surveyed.represents :
    Represents child (.ofWords words) root R depth (entries child (.ofWords words) root) := by
  have htable {d k t : Nat} (hd : d < depth) (hk : R (k / 512 ^ d))
      (ht : child (entries child (.ofWords words) root d k) = some t) :=
    h.2.2.2 _ (h.mem_of_child hchild hR hd hk ht) hd t (mem_toList.2 ht)
  refine ⟨fun d _ k _ => by cases d <;> rfl, hR, h.1, ?_, ?_, ?_⟩
  · rintro t ⟨d, hd, k, hk, ht⟩
    exact (htable hd hk ht).1
  · rintro ⟨d, hd, k, hk, ht⟩
    exact (htable hd hk ht).2.1 rfl
  · intro d hd k hk d' hd' k' hk' t ht ht'
    have heq := (htable hd hk ht).2.2.2 _ (h.mem_of_child hchild hR hd' hk' ht') hd' ht'
    exact ⟨congrArg Prod.fst heq, congrArg (·.2.1) heq⟩

end

end Lib.TableTree
