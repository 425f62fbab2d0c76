import Obos.Lib.TableTree

/-!
# Pruning a tree of tables

Removing leaf entries from a tree of tables may leave tables empty, and an
empty table is taken out of the table above it. `pruned E P` are the contents
that are left of `E` when the leaves with `P` are removed in this way: an entry is
`Emptied` if a removed leaf is below it and every other entry below it goes too.

Leaves are removed one at a time. `staged` are the contents after the levels from
`j` on have been dealt with for one more leaf; going up one level either clears
the entry on the path of the leaf (`staged_of_emptied`) or ends the work
(`staged_of_not_emptied`).
-/

namespace Lib.TableTree

/-- A removed leaf is below the entry. -/
def OnPath (depth : Nat) (E : Entries) (P : Nat → Prop) (d k : Nat) : Prop :=
  ∃ p, P p ∧ E depth p ≠ 0 ∧ p / 512 ^ (depth - d) = k

/-- A removed leaf is below the entry, and one is below every other entry below it. -/
def Emptied (depth : Nat) (E : Entries) (P : Nat → Prop) (d k : Nat) : Prop :=
  OnPath depth E P d k ∧ ∀ d', d < d' → d' ≤ depth → ∀ k', k' / 512 ^ (d' - d) = k →
    E d' k' ≠ 0 → OnPath depth E P d' k'

open Classical in
/-- The contents that are left when leaves are removed. -/
noncomputable def pruned (depth : Nat) (E : Entries) (P : Nat → Prop) : Entries := fun d k =>
  if Emptied depth E P d k then 0 else E d k

/-- One more leaf. -/
def plus (P : Nat → Prop) (p k : Nat) : Prop := P k ∨ k = p

/-- The contents after the levels from `j` on have been dealt with for one more leaf. -/
noncomputable def staged (depth : Nat) (E : Entries) (P : Nat → Prop) (p j : Nat) : Entries :=
  fun d k => if j ≤ d then pruned depth E (plus P p) d k else pruned depth E P d k

/-- Below a zero entry there are only zero entries. -/
def Hereditary (R : Nat → Prop) (depth : Nat) (E : Entries) : Prop :=
  ∀ d < depth, ∀ k, R (k / 512 ^ (d + 1)) → E d (k / 512) = 0 → E (d + 1) k = 0

variable {depth d k p : Nat} {E : Entries} {P : Nat → Prop} {R : Nat → Prop}

theorem div_above (hd : d < depth) : p / 512 ^ (depth - (d + 1)) / 512 = p / 512 ^ (depth - d) := by
  rw [Nat.div_div_eq_div_mul, ← Nat.pow_succ, show (depth - (d + 1)).succ = depth - d by omega]

theorem div_below {d' : Nat} (hd : d ≤ d') (hd' : d' ≤ depth) :
    p / 512 ^ (depth - d') / 512 ^ (d' - d) = p / 512 ^ (depth - d) := by
  rw [Nat.div_div_eq_div_mul, ← Nat.pow_add, show depth - d' + (d' - d) = depth - d by omega]

/-- An entry that is left is the old one. -/
theorem pruned_eq_zero_iff : pruned depth E P d k = 0 ↔ E d k = 0 ∨ Emptied depth E P d k := by
  unfold pruned
  split
  · rename_i h
    simp [h]
  · rename_i h
    simp [h]

theorem pruned_of_emptied (h : Emptied depth E P d k) : pruned depth E P d k = 0 := if_pos h

theorem pruned_of_not_emptied (h : ¬ Emptied depth E P d k) : pruned depth E P d k = E d k :=
  if_neg h

/-- At the leaf depth exactly the leaves with `P` are removed. -/
theorem emptied_leaf_iff : Emptied depth E P depth k ↔ P k ∧ E depth k ≠ 0 := by
  constructor
  · rintro ⟨⟨p, hp, hne, hk⟩, -⟩
    rw [Nat.sub_self, Nat.pow_zero, Nat.div_one] at hk
    exact hk ▸ ⟨hp, hne⟩
  · rintro ⟨hp, hne⟩
    exact ⟨⟨k, hp, hne, by simp⟩, fun d' hlt hle => by omega⟩

/-- A nonzero entry below an emptied one is emptied. -/
theorem Emptied.below (h : Emptied depth E P d (k / 512)) (hd : d < depth)
    (hne : E (d + 1) k ≠ 0) : Emptied depth E P (d + 1) k := by
  refine ⟨h.2 (d + 1) (by omega) hd k (by simp) hne, fun d' hlt hle k' hk' hne' => ?_⟩
  refine h.2 d' (by omega) hle k' ?_ hne'
  rw [show d' - d = d' - (d + 1) + 1 by omega, Nat.pow_succ, ← Nat.div_div_eq_div_mul, hk']

theorem Represents.hereditary {child : BitVec 64 → Option Nat} {m : Memory} {root : Nat}
    (h : Represents child m root R depth E) (hchild : child 0 = none) : Hereditary R depth E :=
  fun _ hd _ hk hzero => h.zero_of_none hd hk (by rw [hzero, hchild])

/-- Zero entries have only zero entries below them, at any distance. -/
theorem Hereditary.below (h : Hereditary R depth E) {d' : Nat} (hd : d ≤ d') (hd' : d' ≤ depth)
    {k' : Nat} (hk : R (k' / 512 ^ d')) (hzero : E d (k' / 512 ^ (d' - d)) = 0) : E d' k' = 0 := by
  induction d' generalizing k' with
  | zero =>
    obtain rfl : d = 0 := by omega
    simpa using hzero
  | succ d' ih =>
    by_cases heq : d = d' + 1
    · subst heq
      simpa using hzero
    · refine h d' (by omega) k' hk (ih (by omega) (by omega) (by rwa [div_path]) ?_)
      rwa [Nat.div_div_eq_div_mul, ← Nat.pow_succ', show (d' - d).succ = d' + 1 - d by omega]

/-- The entries on the path of a leaf are not zero. -/
theorem Hereditary.path_ne_zero (h : Hereditary R depth E) (hd : d ≤ depth)
    (hp : R (p / 512 ^ depth)) (hne : E depth p ≠ 0) : E d (p / 512 ^ (depth - d)) ≠ 0 :=
  fun hzero => hne (h.below hd le_rfl hp hzero)

/-- An entry above removed leaves is emptied exactly when nothing is left in its table. -/
theorem emptied_iff (h : Hereditary R depth E) (hd : d < depth) (hk : R (k / 512 ^ d))
    (hpath : OnPath depth E P d k) :
    Emptied depth E P d k ↔ ∀ k', k' / 512 = k → pruned depth E P (d + 1) k' = 0 := by
  constructor
  · rintro hempty k' rfl
    rw [pruned_eq_zero_iff]
    by_cases hzero : E (d + 1) k' = 0
    · exact .inl hzero
    · exact .inr (hempty.below hd hzero)
  · intro hall
    refine ⟨hpath, fun d' hlt hle k' hk' hne => ?_⟩
    -- the entry of the table of `k` that is on the path of the entry below
    have hup : k' / 512 ^ (d' - (d + 1)) / 512 = k := by
      rw [Nat.div_div_eq_div_mul, ← Nat.pow_succ, show (d' - (d + 1)).succ = d' - d by omega, hk']
    have hregion : R (k' / 512 ^ d') := by
      have : k' / 512 ^ d' = k / 512 ^ d := by
        rw [← hk', Nat.div_div_eq_div_mul, ← Nat.pow_add, show d' - d + d = d' by omega]
      rwa [this]
    rcases pruned_eq_zero_iff.1 (hall _ hup) with hzero | hempty
    · exact absurd (h.below (by omega) hle hregion hzero) hne
    · by_cases heq : d' = d + 1
      · subst heq
        simpa using hempty.1
      · exact hempty.2 d' (by omega) hle k' rfl hne

/-- A leaf that stays keeps the entries on its path. -/
theorem not_emptied_path (hp : ¬ P p) (hne : E depth p ≠ 0) (hd : d ≤ depth) :
    ¬ Emptied depth E P d (p / 512 ^ (depth - d)) := by
  intro hempty
  have honpath : OnPath depth E P depth p := by
    by_cases heq : d = depth
    · subst heq
      simpa using hempty.1
    · exact hempty.2 depth (by omega) le_rfl p rfl hne
  obtain ⟨q, hq, -, hqp⟩ := honpath
  rw [Nat.sub_self, Nat.pow_zero, Nat.div_one] at hqp
  exact hp (hqp ▸ hq)

/-- Entries off the path of the leaf added are on a path as before. -/
theorem onPath_plus_other (hk : k ≠ p / 512 ^ (depth - d)) :
    OnPath depth E (plus P p) d k ↔ OnPath depth E P d k := by
  constructor
  · rintro ⟨q, hq | rfl, hne, hqk⟩
    · exact ⟨q, hq, hne, hqk⟩
    · exact absurd hqk.symm hk
  · rintro ⟨q, hq, hne, hqk⟩
    exact ⟨q, .inl hq, hne, hqk⟩

/-- Entries off the path of the leaf added are emptied as before. -/
theorem emptied_plus_other (hk : k ≠ p / 512 ^ (depth - d)) :
    Emptied depth E (plus P p) d k ↔ Emptied depth E P d k := by
  have hbelow : ∀ d', d < d' → d' ≤ depth → ∀ k', k' / 512 ^ (d' - d) = k →
      k' ≠ p / 512 ^ (depth - d') := by
    rintro d' hlt hle k' hk' rfl
    exact hk (by rw [← hk', div_below hlt.le hle])
  unfold Emptied
  rw [onPath_plus_other hk]
  refine and_congr_right fun _ => ?_
  constructor
  · intro h d' hlt hle k' hk' hne
    exact (onPath_plus_other (hbelow d' hlt hle k' hk')).1 (h d' hlt hle k' hk' hne)
  · intro h d' hlt hle k' hk' hne
    exact (onPath_plus_other (hbelow d' hlt hle k' hk')).2 (h d' hlt hle k' hk' hne)

theorem pruned_plus_other (hk : k ≠ p / 512 ^ (depth - d)) :
    pruned depth E (plus P p) d k = pruned depth E P d k := by
  by_cases h : Emptied depth E P d k
  · rw [pruned_of_emptied h, pruned_of_emptied ((emptied_plus_other hk).2 h)]
  · rw [pruned_of_not_emptied h, pruned_of_not_emptied fun h' => h ((emptied_plus_other hk).1 h')]

theorem onPath_plus_self (hne : E depth p ≠ 0) :
    OnPath depth E (plus P p) d (p / 512 ^ (depth - d)) := ⟨p, .inr rfl, hne, rfl⟩

theorem staged_top {j : Nat} (hd : d < j) : staged depth E P p j d k = pruned depth E P d k :=
  if_neg (by omega)

/-- The leaf itself is cleared first. -/
theorem staged_leaf (hne : E depth p ≠ 0) (hd : d ≤ depth) :
    staged depth E P p depth d k = set (staged depth E P p (depth + 1)) depth p 0 d k := by
  by_cases hnode : d = depth ∧ k = p
  · obtain ⟨rfl, rfl⟩ := hnode
    rw [set_same, staged, if_pos le_rfl,
      pruned_of_emptied (emptied_leaf_iff.2 ⟨.inr rfl, hne⟩)]
  · have htop : staged depth E P p (depth + 1) d k = pruned depth E P d k := staged_top (by omega)
    rw [set_other hnode, htop]
    by_cases hleaf : d = depth
    · subst hleaf
      rw [staged, if_pos le_rfl, pruned_plus_other]
      simpa using fun he => hnode ⟨rfl, he⟩
    · exact staged_top (by omega)

/-- A table that is left empty is taken out of the table above it. -/
theorem staged_of_emptied {j : Nat}
    (hempty : Emptied depth E (plus P p) j (p / 512 ^ (depth - j))) :
    staged depth E P p j d k =
      set (staged depth E P p (j + 1)) j (p / 512 ^ (depth - j)) 0 d k := by
  by_cases hnode : d = j ∧ k = p / 512 ^ (depth - j)
  · obtain ⟨rfl, rfl⟩ := hnode
    rw [set_same, staged, if_pos le_rfl, pruned_of_emptied hempty]
  · rw [set_other hnode]
    by_cases hlevel : d = j
    · subst hlevel
      have htop : staged depth E P p (d + 1) d k = pruned depth E P d k := staged_top (by omega)
      rw [htop, staged, if_pos le_rfl, pruned_plus_other fun he => hnode ⟨rfl, he⟩]
    · unfold staged
      by_cases hle : j ≤ d
      · rw [if_pos hle, if_pos (by omega)]
      · rw [if_neg hle, if_neg (by omega)]

/-- What is emptied above is emptied on the path of a leaf down to any level. -/
theorem Emptied.path (h : Hereditary R depth E) (hp : R (p / 512 ^ depth)) (hne : E depth p ≠ 0)
    {j : Nat} (hd : d ≤ j) (hj : j ≤ depth) (hempty : Emptied depth E P d (p / 512 ^ (depth - d))) :
    Emptied depth E P j (p / 512 ^ (depth - j)) := by
  obtain ⟨n, rfl⟩ := Nat.exists_eq_add_of_le hd
  induction n with
  | zero => exact hempty
  | succ n ih =>
    have hmid := ih (by omega) (by omega)
    rw [← div_above (by omega)] at hmid
    exact hmid.below (by omega) (h.path_ne_zero hj hp hne)

/-- A table in which something is left stays, and so do those above it. -/
theorem staged_of_not_emptied (h : Hereditary R depth E) (hp : R (p / 512 ^ depth))
    (hold : ¬ P p) (hne : E depth p ≠ 0) {j : Nat} (hj : j < depth)
    (hstay : ¬ Emptied depth E (plus P p) j (p / 512 ^ (depth - j))) (hd : d ≤ depth) :
    staged depth E P p (j + 1) d k = pruned depth E (plus P p) d k := by
  by_cases hle : j + 1 ≤ d
  · rw [staged, if_pos hle]
  rw [staged_top (by omega)]
  by_cases hk : k = p / 512 ^ (depth - d)
  · subst hk
    have hstay' : ¬ Emptied depth E (plus P p) d (p / 512 ^ (depth - d)) := fun hempty =>
      hstay (hempty.path h hp hne (by omega) hj.le)
    rw [pruned_of_not_emptied hstay', pruned_of_not_emptied (not_emptied_path hold hne hd)]
  · exact (pruned_plus_other hk).symm

theorem staged_zero : staged depth E P p 0 d k = pruned depth E (plus P p) d k :=
  if_pos (Nat.zero_le d)

end Lib.TableTree
