import Obos.Paging.Access

/-!
# Single pages mapped by hand

The page-fault handlers take a frame, fill it, and put it into the page map with
`MapPhysicalAddress`, `MapEntry` and `UnmapAddress`. Each of these may make or take out
tables; what it may not do is touch a frame that holds data. `DataFrame` is a frame that is no
part of the page map, and `Reshaped` says that a step keeps such frames and what is in them.
-/

namespace Obos.Paging

open Lib Lib.TableTree Physical

/-- A frame in use that is neither physical page 0 nor part of the page map. -/
structure DataFrame (cr3 : Nat) (R : Nat → Prop) (E : Entries) (used : Set Nat) (f : Nat) :
    Prop where
  aligned : f % 4096 = 0
  used : f ∈ used
  ne_null : f ≠ 0
  ne_root : f ≠ cr3
  not_live : ¬ Live child R 3 E f

/-- Tables may have been made or taken out: frames in use that are not tables stay in use and do not
become tables, and bytes outside the page map stay as they are. -/
structure Reshaped (cr3 : Nat) (R : Nat → Prop) (s : Pmm) (E : Entries) (used : Set Nat) (s' : Pmm)
    (E' : Entries) (used' : Set Nat) : Prop where
  kept : ∀ f ∈ used, f ≠ 0 → ¬ Live child R 3 E f → f ∈ used'
  live : ∀ t ∈ used, t ≠ 0 → Live child R 3 E' t → Live child R 3 E t
  mem : ∀ b, frameAt b ∈ used → Outside cr3 R E b → s'.mem b = s.mem b

section Frames

variable {c : Cpu} {cr3 f b fuel : Nat} {R : Nat → Prop} {s s' s'' : Pmm} {E E' E'' : Entries}
  {used used' used'' : Set Nat} {m : Memory}

theorem Reshaped.of_grown (h : Grown cr3 R s E used s' E' used') :
    Reshaped cr3 R s E used s' E' used' :=
  ⟨fun _ hf _ _ => h.subset hf, h.live, h.mem⟩

theorem Reshaped.trans (h : Reshaped cr3 R s E used s' E' used')
    (h' : Reshaped cr3 R s' E' used' s'' E'' used'') : Reshaped cr3 R s E used s'' E'' used'' := by
  have hkeep : ∀ f ∈ used, f ≠ 0 → ¬ Live child R 3 E f → f ∈ used' ∧ ¬ Live child R 3 E' f :=
    fun f hf hne hdead => ⟨h.kept f hf hne hdead, fun hl => hdead (h.live f hf hne hl)⟩
  refine ⟨fun f hf hne hdead => ?_, fun t ht hne hl => ?_, fun b hb hout => ?_⟩
  · obtain ⟨hused, hdead'⟩ := hkeep f hf hne hdead
    exact h'.kept f hused hne hdead'
  · by_contra hdead
    obtain ⟨hused, hdead'⟩ := hkeep t ht hne hdead
    exact hdead' (h'.live t hused hne hl)
  · obtain ⟨hused, hdead'⟩ := hkeep _ hb hout.ne_null hout.not_live
    exact (h'.mem b hused ⟨hout.ne_null, hdead', hout.root⟩).trans (h.mem b hb hout)

theorem frameAt_add (hf : f % 4096 = 0) {i : Nat} (hi : i < 4096) : frameAt (f + i) = f :=
  frameAt_eq hf (by omega) (by omega)

theorem DataFrame.outside (h : DataFrame cr3 R E used f) (hroot : cr3 % 4096 = 0)
    (hR : ∀ i, R i → i < 512) (hb : frameAt b = f) : Outside cr3 R E b := by
  refine ⟨hb ▸ h.ne_null, hb ▸ h.not_live, fun i hi => ?_⟩
  have hlt := hR i hi
  have hne := h.ne_root
  unfold frameAt at hb
  omega

/-- A step that only reshapes the page map keeps a frame that holds data, and its contents. -/
theorem DataFrame.reshaped (h : DataFrame cr3 R E used f)
    (hreshaped : Reshaped cr3 R s E used s' E' used') (htree : Represents child s.mem cr3 R 3 E) :
    DataFrame cr3 R E' used' f ∧ ∀ i < 4096, s'.mem (f + i) = s.mem (f + i) := by
  refine ⟨⟨h.aligned, hreshaped.kept f h.used h.ne_null h.not_live, h.ne_null, h.ne_root,
    fun hl => h.not_live (hreshaped.live f h.used h.ne_null hl)⟩, fun i hi => ?_⟩
  have hframe := frameAt_add h.aligned hi
  refine hreshaped.mem _ ?_ (h.outside htree.root_aligned htree.region_lt hframe)
  rw [hframe]
  exact h.used

/-- Storing to a frame that holds data keeps the page map. -/
theorem Ready.write (h : Ready c cr3 R s E used) (hf : DataFrame cr3 R E used f)
    (hm : ∀ b, frameAt b ≠ f → m b = s.mem b) : Ready c cr3 R { s with mem := m } E used := by
  have hroot := h.tree.root_aligned
  have hpage {t : Nat} (ht : t % 4096 = 0) (htf : t ≠ f) : Memory.SameOn s.mem m t (t + 4096) := by
    intro b hlo hhi
    exact hm b (frameAt_eq ht hlo hhi ▸ htf)
  have htree : Represents child m cr3 R 3 E := by
    refine h.tree.congr (fun i hi => ?_) fun t ht => ?_
    · have hlt := h.tree.region_lt i hi
      exact Memory.load64_congr ((hpage hroot hf.ne_root.symm).mono (by omega) (by omega))
    · refine hpage (h.tree.aligned t ht) ?_
      rintro rfl
      exact hf.not_live ht
  refine ⟨htree, h.cr3_le, h.cr3_used, h.live_used, ?_⟩
  rcases h.pool with hlock | ⟨hpool, hcr3, hdead⟩
  · exact .inl hlock
  · refine .inr ⟨hpool.congr (fun b hb => hm b ?_) (fun b hb => ?_), hcr3, hdead⟩
    · rintro rfl
      exact hb hf.used
    · rw [hm b, hpool.null b hb]
      rw [frameAt_eq rfl b.zero_le (by omega)]
      exact hf.ne_null.symm

end Frames

section Leaves

variable {c : Cpu} {cr3 addr fuel t : Nat} {R : Nat → Prop} {s s' : Pmm} {E : Entries}
  {used : Set Nat} {flags v : BitVec 64}

/-- A page map from which one page was taken out. -/
theorem Ready.gone (h : Ready c cr3 R s E used) (hlock : s.locked = false) {page : Nat}
    (hR : R (page / 512 ^ 3)) {u u' : Unmapping} (hnone : u.freed = [])
    (hgone : Gone ⟨c, cr3, R, s, E, used, True⟩ (fun _ => False) page u u') :
    Ready c cr3 R u'.pmm (pruned 3 E (plus (fun _ => False) page)) (used \ {f | f ∈ u'.freed}) ∧
      Reshaped cr3 R s E used u'.pmm (pruned 3 E (plus (fun _ => False) page))
        (used \ {f | f ∈ u'.freed}) := by
  obtain ⟨-, hne, hdead⟩ := h.pool.resolve_left (by rw [hlock]; exact Bool.false_ne_true)
  have hheld := hgone.held
  obtain ⟨tables, hfreed, -, htables⟩ := hgone.freed
  rw [hnone] at hfreed
  have hlive : ∀ f ∈ u'.freed, Live child R 3 E f := by
    intro f hf
    rw [hfreed] at hf
    obtain ⟨d, hd, -, hchild⟩ := (htables f).1 hf
    exact ⟨d, hd, _, region_path hR hd.le, hchild⟩
  refine ⟨⟨hheld.tree, h.cr3_le, ⟨h.cr3_used, hheld.cr3_kept⟩, fun t ht =>
    ⟨h.live_used t (hheld.live t ht).1, (hheld.live t ht).2⟩,
    .inr ⟨hheld.pool trivial, hne, fun hl => hdead (hheld.live 0 hl).1⟩⟩,
    ⟨fun f hf _ hdead => ⟨hf, fun hin => hdead (hlive f hin)⟩,
    fun t _ _ hl => (hheld.live t hl).1, fun b hb hout =>
      hheld.mem trivial b hb (fun hf => hout.not_live (hlive _ hf)) hout⟩⟩

/-- The table a page is unmapped from. -/
theorem Ready.lastTable (h : Ready c cr3 R s E used) (hR : R (key addr / 512 ^ 3))
    (hclean : CleanPath c E (key addr)) (hmapped : E 3 (key addr) ≠ 0) :
    ∃ t, PointsTo c (E 2 (key addr / 512)) t ∧
      c.rawPtr (getL2PageMapEntryAt c s.mem cr3 addr) = t := by
  have hne : E 2 (key addr / 512) ≠ 0 := by
    simpa using (h.tree.hereditary child_zero).path_ne_zero (d := 2) (by decide) hR hmapped
  have hclean2 : Clean c 2 (E 2 (key addr / 512)) := hclean 2 (by decide)
  obtain ⟨t, ht, -⟩ := hclean2.resolve_left hne
  refine ⟨t, ht, ?_⟩
  rw [getL2PageMapEntryAt_eq h.tree h.cr3_le hR (hclean 0 (by decide)) (hclean 1 (by decide)),
    ht.rawPtr_eq]

/-- Unmapping a page returns, with the tables that are left empty given back. -/
theorem Ready.unmapAddress (hc : c.physAddrBits ≤ 51) (h : Ready c cr3 R s E used)
    (hlock : s.locked = false) (hlt : ∀ t, Live child R 3 E t → t < 2 ^ c.physAddrBits)
    (hR : R (key addr / 512 ^ 3))
    (hclean : CleanPath c E (key addr)) (hmapped : E 3 (key addr) ≠ 0) :
    ∃ u u', Paging.unmapAddress c s cr3 addr = some u'.pmm ∧ u.freed = [] ∧
      Gone ⟨c, cr3, R, s, E, used, True⟩ (fun _ => False) (key addr) u u' := by
  obtain ⟨t, ht, htable⟩ := h.lastTable hR hclean hmapped
  obtain ⟨-, hne, hdead⟩ := h.pool.resolve_left (by rw [hlock]; exact Bool.false_ne_true)
  have hx : Start.Valid ⟨c, cr3, R, s, E, used, True⟩ := ⟨hc, h.tree, h.cr3_le, hne, hdead,
    fun _ => h.cr3_used, fun _ t ht => ⟨h.live_used t ht, hlt t ht⟩⟩
  have hleaving : Leaving ⟨c, cr3, R, s, E, used, True⟩ (fun _ => False) (key addr) :=
    ⟨hR, id, hmapped, hclean⟩
  have hheld := Ready.held (x := ⟨c, cr3, R, s, E, used, True⟩) h hlock fun _ => rfl
  have hnone : ∀ d k, pruned 3 E (fun _ => False) d k = E d k := fun d k =>
    pruned_of_not_emptied fun hempty => hempty.1.elim fun _ hp => hp.1
  obtain ⟨u', hret, hgone, -⟩ := freePagingStructures_spec hx hleaving ht
    (hleaving.cleared hx (hheld.congr fun d _ k _ => hnone d k) ht)
  refine ⟨_, u', ?_, rfl, hgone⟩
  simp only [Paging.unmapAddress, htable]
  rw [hret, Option.map_some]

/-- The flags of an entry that the levels above it get. -/
theorem tableFlags_entry {entry : BitVec 64} (h : hasBit entry 0 = true) :
    TableFlags (entry &&& 0x800000000000003F) := by
  have hmask : ∀ i, 6 ≤ i → i < 63 → hasBit (0x800000000000003F : BitVec 64) i = false := by
    decide +kernel
  refine ⟨?_, fun i hlo hhi => ?_⟩
  · rw [hasBit_and, h]
    decide
  · rw [hasBit_and, hmask i hlo hhi, Bool.and_false]

end Leaves

section Accesses

variable {c : Cpu} {cr3 addr : Nat} {R : Nat → Prop} {s : Pmm} {E : Entries} {used : Set Nat}

/-- The entry of a table is present and not that of a huge page. -/
theorem PointsTo.bits {e : BitVec 64} {t : Nat} (h : PointsTo c e t) :
    hasBit e 0 = true ∧ hasBit e 7 = false := by
  have hchild := h.child_eq
  unfold child at hchild
  split at hchild
  · rename_i hbits
    simpa using hbits
  · cases hchild

theorem Clean.hasBit_seven {d : Nat} {e : BitVec 64} (h : Clean c d e) : hasBit e 7 = false := by
  rcases h with rfl | ⟨t, ht, -⟩
  · simp
  · exact ht.bits.2

end Accesses

end Obos.Paging
