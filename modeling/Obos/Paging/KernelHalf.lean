import Obos.Paging.FreedFrames
import Obos.Paging.Remap

/-!
# The kernel half of a page map

The slots 256 to 511 of a page map are shared by all processes. A user process
calls `VirtualAlloc`, `VirtualFree` and `VirtualProtect` with any arguments, and
stores into its own pages. Only the base of a range is compared with the end of the
user half, so a range may run over it; and the frames given back become part of the
free list with the data the process left in them.

`kernelHalf_unchanged` says that no entry below the slots of the kernel changes in a
run in which every range ends in the user half and every frame given back is one
the process owns, cleared (`Within`). The invariant, `UserMap`, keeps the tables of
the user half, the frames of its pages, the tables of the kernel half and the free
frames apart (`userFrames_isolated`).
-/

namespace Obos.Paging

open Lib Lib.TableTree Physical List Function
open Option (map_eq_some_iff)

/-! ## Runs of a user process -/

/-- What a user process does to its memory. -/
inductive Call where
  | alloc (base size : Nat) (flags : BitVec 64)
  | free (base size : Nat)
  | protect (base size : Nat) (flags : BitVec 64)
  | write (page offset : Nat) (value : BitVec 8)

/-- The state after a call; a call that fails leaves it as it is, and a store goes to the frame the
page is mapped to. -/
def Call.run (c : Cpu) (fuel : Nat) (proc : Process) (s : Pmm) : Call → Option Pmm
  | .alloc base size flags => (virtualAlloc c fuel s proc base size flags).map fun
      | .ok (_, s') => s'
      | .error _ => s
  | .free base size => (virtualFree c s proc base size).map fun
      | .ok u => u.pmm
      | .error _ => s
  | .protect base size flags => (virtualProtect c fuel s proc base size flags).map fun
      | .ok s' => s'
      | .error _ => s
  | .write page offset value => (walk (pageMap s proc.cr3) page).map fun leaf =>
    { s with mem := update s.mem (leafFrame page leaf + offset % 4096) value }

/-- One step of a run. -/
def Call.step (c : Cpu) (proc : Process) (s : Pmm) (call : Call) (s' : Pmm) : Prop :=
  ∃ fuel, call.run c fuel proc s = some s'

/-- A range that is rejected for its base, or ends in the user half. -/
def UserRange (base nPages : Nat) : Prop :=
  base = 0 ∨ isValidAddress base = false ∨ 0xffff800000000000 < base ∨ base + 4096 * nPages ≤ 2 ^ 47

instance (base nPages : Nat) : Decidable (UserRange base nPages) :=
  inferInstanceAs (Decidable (_ ∨ _ ∨ _ ∨ _))

/-- A page that may be given back: it is mapped, and its frame, if it has one, is a proper one whose
first word is zero. -/
def ReleasablePage (c : Cpu) (s : Pmm) (cr3 addr : Nat) : Prop :=
  let entry := getL1PageMapEntryAt c s.mem cr3 addr
  pageAllocated c s.mem cr3 addr = true ∧ (committed entry = true →
    c.rawPtr entry ≠ 0 ∧ c.rawPtr entry < 2 ^ c.physAddrBits ∧ nextOf s.mem (c.rawPtr entry) = 0)

instance (c : Cpu) (s : Pmm) (cr3 addr : Nat) : Decidable (ReleasablePage c s cr3 addr) :=
  inferInstanceAs (Decidable (_ ∧ (_ → _ ∧ _ ∧ _)))

/-- The condition on a call: its range ends in the user half; pages are given back while the
allocator is not locked, and either none of them is mapped or all may be given back; and nothing is
stored to physical page 0. -/
def Call.Within (c : Cpu) (proc : Process) (s : Pmm) : Call → Prop
  | .alloc base size _ =>
    UserRange (allocBase c s.mem proc base (sizeToPages size)) (sizeToPages size)
  | .free base size => UserRange (pageOf base) (sizeToPages size) ∧
      (canAllocatePages c s.mem proc.cr3 (pageOf base) (sizeToPages size) = true ∨
        (s.locked = false ∧ ∀ addr ∈ pagesFrom (pageOf base) (sizeToPages size),
          ReleasablePage c s proc.cr3 addr))
  | .protect base size _ => UserRange (pageOf base) (sizeToPages size)
  | .write page _ _ => page < 2 ^ 35 ∧ translate (pageMap s proc.cr3) page ≠ some 0

instance (c : Cpu) (proc : Process) (s : Pmm) (call : Call) : Decidable (call.Within c proc s) :=
  match call with
  | .alloc _ _ _ => inferInstanceAs (Decidable (UserRange _ _))
  | .free base size => inferInstanceAs (Decidable (UserRange _ _ ∧ (_ ∨ (_ ∧
      ∀ addr ∈ pagesFrom (pageOf base) (sizeToPages size), ReleasablePage c s proc.cr3 addr))))
  | .protect _ _ _ => inferInstanceAs (Decidable (UserRange _ _))
  | .write _ _ _ => inferInstanceAs (Decidable (_ ∧ _))

/-! ## The invariant -/

/-- A frame of the process: in use, and neither a table nor one of the frames `K`. -/
structure Owned (c : Cpu) (cr3 : Nat) (K : Set Nat) (E : Entries) (used : Set Nat) (f : Nat) :
    Prop where
  used : f ∈ used
  lt : f < 2 ^ c.physAddrBits
  ne_root : f ≠ cr3
  not_kernel : f ∉ K
  not_table : ¬ Live child (· < 256) 3 E f

/-- The user half of a page map: its tables are not shared, every page has a frame of its own or
none, and the frames `K` are in use otherwise. -/
structure UserMap (c : Cpu) (cr3 : Nat) (K : Set Nat) (s : Pmm) (E : Entries) (used : Set Nat) :
    Prop where
  ready : Ready c cr3 (· < 256) s E used
  cr3_ne : cr3 ≠ 0
  clean : ∀ d < 3, ∀ k, k / 512 ^ d < 256 → Clean c d (E d k)
  owned : ∀ page, page / 512 ^ 3 < 256 → frame (E 3 page) ≠ 0 →
    Owned c cr3 K E used (frame (E 3 page))
  raw : ∀ page, page / 512 ^ 3 < 256 → hasBit (E 3 page) 9 = false →
    c.rawPtr (E 3 page) < 2 ^ c.physAddrBits → c.rawPtr (E 3 page) = frame (E 3 page)
  inj : ∀ page, page / 512 ^ 3 < 256 → ∀ page', page' / 512 ^ 3 < 256 → frame (E 3 page) ≠ 0 →
    frame (E 3 page) = frame (E 3 page') → page = page'
  kernel : ∀ t ∈ K, t ∈ used ∧ t ≠ 0 ∧ t ≠ cr3 ∧ ¬ Live child (· < 256) 3 E t

/-- The frames `K` and the slots of the kernel have not changed. -/
structure KernelSame (cr3 : Nat) (K : Set Nat) (s s' : Pmm) : Prop where
  tables : ∀ b, frameAt b ∈ K → s'.mem b = s.mem b
  root : ∀ b, cr3 + 8 * 256 ≤ b → b < cr3 + 4096 → s'.mem b = s.mem b

section Invariant

variable {c : Cpu} {cr3 f page : Nat} {K : Set Nat} {s s' s'' : Pmm} {E E' : Entries}
  {used used' : Set Nat}

theorem KernelSame.refl (s : Pmm) : KernelSame cr3 K s s := ⟨fun _ _ => rfl, fun _ _ _ => rfl⟩

theorem KernelSame.trans (h : KernelSame cr3 K s s') (h' : KernelSame cr3 K s' s'') :
    KernelSame cr3 K s s'' :=
  ⟨fun b hb => (h'.tables b hb).trans (h.tables b hb),
    fun b hlo hhi => (h'.root b hlo hhi).trans (h.root b hlo hhi)⟩

/-- The kernel half is outside the user half. -/
theorem UserMap.kernelSame (h : UserMap c cr3 K s E used)
    (hmem : ∀ b, frameAt b ∈ used → frameAt b ∈ K ∨ frameAt b = cr3 → Outside cr3 (· < 256) E b →
      s'.mem b = s.mem b) : KernelSame cr3 K s s' := by
  have hroot := h.ready.tree.root_aligned
  refine ⟨fun b hb => ?_, fun b hlo hhi => ?_⟩
  · obtain ⟨hused, hne, hcr3, hlive⟩ := h.kernel _ hb
    refine hmem b hused (.inl hb) ⟨hne, hlive, fun i hi => ?_⟩
    have hout := outside_of_frameAt_ne hroot hcr3
    omega
  · have hframe := frameAt_eq hroot (by omega) hhi
    refine hmem b (hframe ▸ h.ready.cr3_used) (.inr hframe)
      ⟨hframe ▸ h.cr3_ne, hframe ▸ h.ready.tree.ne_root, ?_⟩
    intro i hi
    omega

theorem Owned.grown (h : Owned c cr3 K E used f) (hne : f ≠ 0)
    (hgrown : Grown cr3 (· < 256) s E used s' E' used') : Owned c cr3 K E' used' f :=
  ⟨hgrown.subset h.used, h.lt, h.ne_root, h.not_kernel, fun hl =>
    h.not_table (hgrown.live f h.used hne hl)⟩

theorem UserMap.kernel_grown (h : UserMap c cr3 K s E used)
    (hgrown : Grown cr3 (· < 256) s E used s' E' used') :
    ∀ t ∈ K, t ∈ used' ∧ t ≠ 0 ∧ t ≠ cr3 ∧ ¬ Live child (· < 256) 3 E' t := by
  intro t ht
  obtain ⟨hused, hne, hcr3, hlive⟩ := h.kernel t ht
  exact ⟨hgrown.subset hused, hne, hcr3, fun hl => hlive (hgrown.live t hused hne hl)⟩

theorem UserMap.frame_lt (h : UserMap c cr3 K s E used) (hpage : page / 512 ^ 3 < 256) :
    frame (E 3 page) < 2 ^ c.physAddrBits := by
  by_cases hzero : frame (E 3 page) = 0
  · rw [hzero]
    exact Nat.two_pow_pos _
  · exact (h.owned page hpage hzero).lt

end Invariant

/-! ## The calls -/

section Calls

variable {c : Cpu} {cr3 fuel : Nat} {K : Set Nat} {s s' : Pmm} {E E' : Entries}
    {used used' : Set Nat}
  {flags : BitVec 64} {addrs : List Nat}

theorem user_path {page d : Nat} (h : page / 512 ^ 3 < 256) (hd : d ≤ 3) :
    page / 512 ^ (3 - d) / 512 ^ d < 256 :=
  region_path (R := (· < 256)) h hd

variable (h : UserMap c cr3 K s E used)
include h

theorem UserMap.clean_path {page : Nat} (hpage : page / 512 ^ 3 < 256) : CleanPath c E page :=
  fun d hd => h.clean d hd _ (user_path hpage hd.le)

/-- Protecting pages of the user half. -/
theorem UserMap.protect (hc : c.physAddrBits ≤ 51) (hR : ∀ a ∈ addrs, key a / 512 ^ 3 < 256)
    (hret : addrs.foldlM (protectPage c fuel cr3 flags) s = some s') :
    (∃ E' used', UserMap c cr3 K s' E' used') ∧ KernelSame cr3 K s s' := by
  obtain ⟨E', used', hready, hgrown, hprot⟩ := protectLoop_spec (hc.trans (by decide)) hR
    (fun a ha => h.clean_path (hR a ha)) h.ready hret
  refine ⟨⟨E', used', ?_⟩, h.kernelSame fun b hb _ => hgrown.mem b hb⟩
  -- a leaf keeps its frame or loses it, and keeps the address the kernel reads
  have hleaf : ∀ page, page / 512 ^ 3 < 256 →
      (frame (E' 3 page) ≠ 0 → frame (E' 3 page) = frame (E 3 page)) ∧
      (hasBit (E' 3 page) 9 = false → hasBit (E 3 page) 9 = false ∧
        frame (E' 3 page) = frame (E 3 page) ∧ c.rawPtr (E' 3 page) = c.rawPtr (E 3 page)) := by
    intro page hpage
    by_cases hvisited : page ∈ addrs.map key
    · rw [hprot.leaf page hvisited, hasBit_protectEntry_nine, frame_protectEntry (h.frame_lt hpage)]
      constructor
      · split
        · exact fun hne => absurd rfl hne
        · exact fun _ => rfl
      · intro h9
        have hraw : protectEntry c flags (E 3 page) &&& c.physAddrMask =
            E 3 page &&& c.physAddrMask :=
          protectEntry_and_physAddrMask hc (by simp [h9])
        exact ⟨h9, if_neg (by simp [h9]), congrArg BitVec.toNat hraw⟩
    · rw [hprot.leaf_other page hvisited]
      exact ⟨fun _ => rfl, fun h9 => ⟨h9, rfl, rfl⟩⟩
  refine ⟨hready, h.cr3_ne, fun d hd k hk =>
    clean_of_keepsTable (hprot.keep hd) (h.clean d hd k hk),
    fun page hpage hne => ?_, fun page hpage h9 hlt => ?_, fun page hpage page' hpage' hne heq =>
    ?_,
    h.kernel_grown hgrown⟩
  · have hsame := (hleaf page hpage).1 hne
    rw [hsame] at hne ⊢
    exact (h.owned page hpage hne).grown hne hgrown
  · obtain ⟨h9', hframe, hraw⟩ := (hleaf page hpage).2 h9
    rw [hraw] at hlt ⊢
    rw [hframe]
    exact h.raw page hpage h9' hlt
  · have hsame := (hleaf page hpage).1 hne
    have hsame' := (hleaf page' hpage').1 (heq ▸ hne)
    rw [hsame] at hne heq
    exact h.inj page hpage page' hpage' hne (heq.trans hsame')

/-- Mapping a page of the user half. -/
theorem UserMap.allocPage (hc : c.physAddrBits ≤ 51) {addr : Nat} (hR : key addr / 512 ^ 3 < 256)
    (hret : Paging.allocPage c fuel cr3 flags s addr = some s') :
    (∃ E' used', UserMap c cr3 K s' E' used') ∧ KernelSame cr3 K s s' := by
  obtain ⟨E1, used', v, -, -, hready, hgrown, hwalked, hnew⟩ :=
    allocPage_spec (by omega) hR (h.clean_path hR) h.ready hret
  refine ⟨⟨set E1 3 (key addr) v, used', ?_⟩, h.kernelSame fun b hb _ => hgrown.mem b hb⟩
  have hother {page : Nat} (hne : page ≠ key addr) : set E1 3 (key addr) v 3 page = E 3 page := by
    rw [set_other fun hn => hne hn.2, hwalked.leaf]
  have hlive {t : Nat} (hl : Live child (· < 256) 3 (set E1 3 (key addr) v) t) :
      Live child (· < 256) 3 E1 t := by
    obtain ⟨d, hd, k, hk, ht⟩ := hl
    rw [set_other fun hn => by omega] at ht
    exact ⟨d, hd, k, hk, ht⟩
  -- a frame that is written was not in use before
  have hfresh : frame v ≠ 0 → frame v ∉ used ∧
      Owned c cr3 K (set E1 3 (key addr) v) used' (frame v) := by
    intro hne
    rcases hnew hc with ⟨-, hzero⟩ | ⟨-, -, hframe⟩
    · exact absurd hzero hne
    · obtain ⟨hunused, hused, hlt, hcr3, hdead⟩ := hframe hne
      exact ⟨hunused, hused, hlt, hcr3, fun hK => hunused (h.kernel _ hK).1,
        fun hl => hdead (hlive hl)⟩
  refine ⟨hready, h.cr3_ne, fun d hd k hk => ?_, fun page hpage hne => ?_,
    fun page hpage h9 hlt => ?_, fun page hpage page' hpage' hne heq => ?_, h.kernel_grown hgrown⟩
  · rw [set_other fun hn => by omega]
    exact clean_of_keepsTable (hwalked.keep hd) (h.clean d hd k hk)
  · by_cases heq : page = key addr
    · subst heq
      rw [set_same] at hne ⊢
      exact (hfresh hne).2
    · rw [hother heq] at hne ⊢
      exact (h.owned page hpage hne).grown hne hgrown
  · by_cases heq : page = key addr
    · subst heq
      rw [set_same] at h9 ⊢
      rcases hnew hc with ⟨h9', -⟩ | ⟨-, hraw, -⟩
      · rw [h9'] at h9
        cases h9
      · exact hraw
    · rw [hother heq] at h9 hlt ⊢
      exact h.raw page hpage h9 hlt
  · by_cases hp : page = key addr
    · by_cases hp' : page' = key addr
      · rw [hp, hp']
      · rw [hp, set_same] at hne heq
        rw [hother hp'] at heq
        exact absurd (heq ▸ (h.owned page' hpage' (heq ▸ hne)).used) (hfresh hne).1
    · rw [hother hp] at hne heq
      by_cases hp' : page' = key addr
      · rw [hp', set_same] at heq
        exact absurd (heq ▸ (h.owned page hpage hne).used) (hfresh (heq ▸ hne)).1
      · rw [hother hp'] at heq
        exact h.inj page hpage page' hpage' hne heq

/-- Mapping pages of the user half. -/
theorem UserMap.alloc (hc : c.physAddrBits ≤ 51) (hR : ∀ a ∈ addrs, key a / 512 ^ 3 < 256)
    (hret : addrs.foldlM (Paging.allocPage c fuel cr3 flags) s = some s') :
    (∃ E' used', UserMap c cr3 K s' E' used') ∧ KernelSame cr3 K s s' := by
  refine foldlM_invariant hret (fun _ s1 => (∃ E1 used1, UserMap c cr3 K s1 E1 used1) ∧
    KernelSame cr3 K s s1) ⟨⟨E, used, h⟩, .refl s⟩ ?_
  rintro done a rest s1 s2 rfl ⟨⟨E1, used1, hmap⟩, hsame⟩ hbody
  obtain ⟨hmap', hsame'⟩ := hmap.allocPage hc (hR a (by simp)) hbody
  exact ⟨hmap', hsame.trans hsame'⟩

/-- An unmapping of pages of the user half. -/
abbrev userStart (c : Cpu) (cr3 : Nat) (s : Pmm) (E : Entries) (used : Set Nat) : Start :=
  ⟨c, cr3, (· < 256), s, E, used, True⟩

section

variable (hlock : s.locked = false)
include hlock

theorem UserMap.pool : Pool (2 ^ c.physAddrBits) s used ∧ ¬ Live child (· < 256) 3 E 0 := by
  obtain ⟨hpool, -, hlive⟩ := h.ready.pool.resolve_left (by simp [hlock])
  exact ⟨hpool, hlive⟩

theorem UserMap.valid (hc : c.physAddrBits ≤ 51) : (userStart c cr3 s E used).Valid := by
  refine ⟨hc, h.ready.tree, h.ready.cr3_le, h.cr3_ne, (h.pool hlock).2, fun _ => h.ready.cr3_used,
    fun _ t ht => ⟨h.ready.live_used t ht, ?_⟩⟩
  obtain ⟨d, hd, k, hk, hchild⟩ := ht
  change child (E d k) = some t at hchild
  rcases h.clean d hd k hk with hzero | ⟨t', ht', -⟩
  · rw [hzero] at hchild
    cases hchild
  · rw [ht'.child_eq] at hchild
    cases hchild
    exact ht'.lt

theorem UserMap.held : Held (userStart c cr3 s E used) ⟨s, []⟩ E :=
  Ready.held (x := userStart c cr3 s E used) h.ready hlock fun _ => rfl

/-- The frame of a page that may be given back is one of the process. -/
theorem UserMap.releasable {a : Nat} (hR : key a / 512 ^ 3 < 256) (hpage : ReleasablePage c s cr3 a)
    :
    E 3 (key a) ≠ 0 ∧ (committed (E 3 (key a)) = true →
      c.rawPtr (E 3 (key a)) = frame (E 3 (key a)) ∧ frame (E 3 (key a)) ≠ 0 ∧
        nextOf s.mem (frame (E 3 (key a))) = 0) := by
  have hget := getL1PageMapEntryAt_of_clean h.ready.tree h.ready.cr3_le hR (h.pool hlock).2
    (h.clean_path hR)
  obtain ⟨hmapped, hframe⟩ := hpage
  rw [hget] at hframe
  constructor
  · intro hzero
    simp [pageAllocated, hget, hzero] at hmapped
  · intro hcommitted
    obtain ⟨hne, hlt, hnext⟩ := hframe hcommitted
    have h9 : hasBit (E 3 (key a)) 9 = false := by
      simp only [committed, Bool.and_eq_true, Bool.not_eq_true'] at hcommitted
      exact hcommitted.1
    have hraw := h.raw _ hR h9 hlt
    rw [hraw] at hne hnext
    exact ⟨hraw, hne, hnext⟩

/-- A page map from which pages have been taken out. -/
theorem UserMap.closed {u : Unmapping} {V : List Nat} (hV : ∀ q ∈ V, q / 512 ^ 3 < 256)
    (hframes : ∀ q ∈ V, committed (E 3 q) = true →
      c.rawPtr (E 3 q) = frame (E 3 q) ∧ frame (E 3 q) ≠ 0)
    (hclosed : Closed (userStart c cr3 s E used) V u) :
    UserMap c cr3 K u.pmm (pruned 3 E (· ∈ V)) (used \ {f | f ∈ u.freed}) ∧
      KernelSame cr3 K s u.pmm := by
  have hheld := hclosed.held
  have hmapped := hclosed.mapped
  -- what was given back is the frame of a page taken out, or a table
  have hfreed : ∀ f ∈ u.freed, (∃ q ∈ V, frame (E 3 q) ≠ 0 ∧ frame (E 3 q) = f) ∨
      Live child (· < 256) 3 E f := by
    intro f hf
    rcases hclosed.mem_freed hf with ⟨q, hq, hcommitted, heq⟩ | ⟨d, hd, k, hempty, hchild⟩
    · obtain ⟨hraw, hne⟩ := hframes q hq hcommitted
      exact .inl ⟨q, hq, hne, hraw.symm.trans heq⟩
    · obtain ⟨q, hq, -, rfl⟩ := hempty.1
      exact .inr ⟨d, hd, _, user_path (hV q hq) hd.le, hchild⟩
  have hleaf : ∀ page, frame (pruned 3 E (· ∈ V) 3 page) ≠ 0 →
      page ∉ V ∧ pruned 3 E (· ∈ V) 3 page = E 3 page := by
    intro page hne
    have hstay : ¬ Emptied 3 E (· ∈ V) 3 page := by
      intro hempty
      rw [pruned_of_emptied hempty] at hne
      exact hne rfl
    exact ⟨fun hin => hstay (emptied_leaf_iff.2 ⟨hin, hmapped page hin⟩),
      pruned_of_not_emptied hstay⟩
  have hkernel : ∀ t ∈ K, t ∉ u.freed := by
    intro t ht hf
    rcases hfreed t hf with ⟨q, hq, hne, rfl⟩ | hl
    · exact (h.owned q (hV q hq) hne).not_kernel ht
    · exact (h.kernel t ht).2.2.2 hl
  refine ⟨⟨⟨hheld.tree, h.ready.cr3_le, ⟨h.ready.cr3_used, hheld.cr3_kept⟩, fun t ht =>
    ⟨h.ready.live_used t (hheld.live t ht).1, (hheld.live t ht).2⟩,
    .inr ⟨hheld.pool trivial, h.cr3_ne, fun hl => (h.pool hlock).2 (hheld.live 0 hl).1⟩⟩,
    h.cr3_ne,
    fun d hd k hk => clean_pruned (h.clean d hd k hk), fun page hpage hne => ?_,
    fun page hpage h9 hlt => ?_, fun page hpage page' hpage' hne heq => ?_, fun t ht => ?_⟩,
    h.kernelSame fun b hb hor hout => hheld.mem trivial b hb (fun hf => ?_) hout⟩
  · obtain ⟨hnot, hsame⟩ := hleaf page hne
    rw [hsame] at hne ⊢
    have hown := h.owned page hpage hne
    refine ⟨⟨hown.used, fun hf => ?_⟩, hown.lt, hown.ne_root, hown.not_kernel, fun hl =>
      hown.not_table (hheld.live _ hl).1⟩
    rcases hfreed _ hf with ⟨q, hq, hneq, heq⟩ | hl
    · exact hnot (h.inj q (hV q hq) page hpage hneq heq ▸ hq)
    · exact hown.not_table hl
  · by_cases hempty : Emptied 3 E (· ∈ V) 3 page
    · rw [pruned_of_emptied hempty]
      simp [Cpu.rawPtr, frame]
    · rw [pruned_of_not_emptied hempty] at h9 hlt ⊢
      exact h.raw page hpage h9 hlt
  · obtain ⟨-, hsame⟩ := hleaf page hne
    obtain ⟨-, hsame'⟩ := hleaf page' (heq ▸ hne)
    rw [hsame] at hne heq
    rw [hsame'] at heq
    exact h.inj page hpage page' hpage' hne heq
  · obtain ⟨hused, hne, hcr3, hlive⟩ := h.kernel t ht
    exact ⟨⟨hused, hkernel t ht⟩, hne, hcr3, fun hl => hlive (hheld.live t hl).1⟩
  · rcases hor with hK | hroot
    · exact hkernel _ hK hf
    · exact hheld.cr3_kept (hroot ▸ hf)

/-- Taking out pages of the user half. -/
theorem UserMap.free (hc : c.physAddrBits ≤ 51) (hR : ∀ a ∈ addrs, key a / 512 ^ 3 < 256)
    (hnodup : (addrs.map key).Nodup) (hpages : ∀ a ∈ addrs, ReleasablePage c s cr3 a)
    {u : Unmapping} (hret : addrs.foldlM (freePage c cr3) ⟨s, []⟩ = some u) :
    (∃ E' used', UserMap c cr3 K u.pmm E' used') ∧ KernelSame cr3 K s u.pmm := by
  have hpage := fun a ha => h.releasable hlock (hR a ha) (hpages a ha)
  have hreturnable : ∀ a ∈ addrs, E 3 (key a) ≠ 0 → committed (E 3 (key a)) = true →
      Returnable (userStart c cr3 s E used) (c.rawPtr (E 3 (key a))) := by
    intro a ha _ hcommitted
    obtain ⟨hraw, hne, hnext⟩ := (hpage a ha).2 hcommitted
    have hown := h.owned _ (hR a ha) hne
    rw [hraw]
    exact ⟨hne, hown.ne_root, hown.not_table, fun _ => ⟨hown.used, hown.lt, hnext⟩⟩
  have hinj : ∀ a ∈ addrs, ∀ b ∈ addrs, committed (E 3 (key a)) = true →
      committed (E 3 (key b)) = true → c.rawPtr (E 3 (key a)) = c.rawPtr (E 3 (key b)) →
      key a = key b := by
    intro a ha b hb hca hcb heq
    obtain ⟨hrawa, hne, -⟩ := (hpage a ha).2 hca
    obtain ⟨hrawb, -, -⟩ := (hpage b hb).2 hcb
    exact h.inj _ (hR a ha) _ (hR b hb) hne (hrawa.symm.trans (heq.trans hrawb))
  have hclosed := (freeLoop_spec (h.valid hlock hc) hR (fun a ha => h.clean_path (hR a ha))
    hreturnable (fun _ a ha b hb hca _ hcb _ => hinj a ha b hb hca hcb) (h.held hlock) rfl
    hret).resolve_left fun hhole => hhole.2 ⟨hnodup, fun a ha => (hpage a ha).1⟩
  have hV : ∀ q ∈ addrs.map key, q / 512 ^ 3 < 256 ∧ (committed (E 3 q) = true →
      c.rawPtr (E 3 q) = frame (E 3 q) ∧ frame (E 3 q) ≠ 0) := by
    intro q hq
    obtain ⟨a, ha, rfl⟩ := mem_map.1 hq
    refine ⟨hR a ha, fun hcommitted => ?_⟩
    obtain ⟨hraw, hne, -⟩ := (hpage a ha).2 hcommitted
    exact ⟨hraw, hne⟩
  obtain ⟨hmap, hsame⟩ := h.closed hlock (fun q hq => (hV q hq).1) (fun q hq => (hV q hq).2) hclosed
  exact ⟨⟨_, _, hmap⟩, hsame⟩

end

/-- Storing to a frame of the process. -/
theorem UserMap.write {f offset : Nat} (hown : Owned c cr3 K E used f) (hne : f ≠ 0)
    (haligned : f % 4096 = 0) (hoffset : offset < 4096) (value : BitVec 8) :
    UserMap c cr3 K { s with mem := update s.mem (f + offset) value } E used ∧
      KernelSame cr3 K s { s with mem := update s.mem (f + offset) value } := by
  have hother : ∀ b, frameAt b ≠ f → update s.mem (f + offset) value b = s.mem b := by
    intro b hb
    refine update_of_ne ?_ _ _
    rintro rfl
    exact hb (frameAt_add haligned hoffset)
  have hready := h.ready.write ⟨haligned, hown.used, hne, hown.ne_root, hown.not_table⟩ hother
  refine ⟨⟨hready, h.cr3_ne, h.clean, h.owned, h.raw, h.inj, h.kernel⟩, ?_⟩
  refine h.kernelSame fun b _ hor _ => hother b ?_
  rintro rfl
  rcases hor with hK | heq
  · exact hown.not_kernel hK
  · exact hown.ne_root heq

end Calls

/-! ## Ranges of the user half -/

section Ranges

variable {c : Cpu} {fuel base nPages size : Nat} {s s' : Pmm} {proc : Process} {flags : BitVec 64}

/-- A range that is not rejected for its base ends in the user half. -/
theorem UserRange.fits (h : UserRange base nPages) (hbase : base ≠ 0)
    (hvalid : isValidAddress base = true) (hle : ¬ 0xffff800000000000 < base) :
    base + 4096 * nPages ≤ 2 ^ 47 := by
  rcases h with hzero | hinvalid | hlt | hfits
  · exact absurd hzero hbase
  · rw [hvalid] at hinvalid
    cases hinvalid
  · exact absurd hlt hle
  · exact hfits

theorem key_user {a : Nat} (ha : a < 2 ^ 47) : key a / 512 ^ 3 < 256 := by
  unfold key
  omega

theorem mem_pagesBelow (hfits : base + 4096 * nPages ≤ 2 ^ 47) {a : Nat}
    (ha : a ∈ pagesBelow base nPages) : a < 2 ^ 47 := by
  obtain ⟨i, hi, rfl⟩ := mem_map.1 ha
  rw [mem_range] at hi
  omega

/-- The addresses the other loops visit, and their pages. -/
theorem pagesFrom_user (hfits : base + 4096 * nPages ≤ 2 ^ 47) :
    (∀ a ∈ pagesFrom base nPages, a < 2 ^ 47) ∧ ((pagesFrom base nPages).map key).Nodup := by
  rw [pagesFrom]
  constructor
  · intro a ha
    obtain ⟨i, hi, rfl⟩ := mem_map.1 ha
    rw [mem_range] at hi
    omega
  · rw [map_map]
    refine List.Nodup.map_on (fun i hi j hj heq => ?_) nodup_range
    rw [mem_range] at hi hj
    simp only [comp, key] at heq
    omega

end Ranges

/-! ## Runs -/

section Runs

variable {c : Cpu} {proc : Process} {K : Set Nat} {s s' s0 : Pmm}

/-- What a step of a run keeps. -/
theorem Call.step_userMap (hc : c.physAddrBits ≤ 51) (huser : proc.isUsermode = true) {call : Call}
    (hmap : ∃ E used, UserMap c proc.cr3 K s E used) (hwithin : call.Within c proc s)
    (hstep : call.step c proc s s') :
    (∃ E used, UserMap c proc.cr3 K s' E used) ∧ KernelSame proc.cr3 K s s' := by
  obtain ⟨fuel, hrun⟩ := hstep
  obtain ⟨E, used, h⟩ := hmap
  have hfailed : (∃ E used, UserMap c proc.cr3 K s E used) ∧ KernelSame proc.cr3 K s s :=
    ⟨⟨E, used, h⟩, .refl s⟩
  cases call with
  | alloc base size flags =>
    obtain ⟨r, hret, rfl⟩ := map_eq_some_iff.1 hrun
    cases r with
    | error e => exact hfailed
    | ok result =>
      obtain ⟨-, -, hbase, hvalid, hle, -, hloop, -⟩ := (virtualAlloc_eq_ok rfl).1 hret
      have hfits := UserRange.fits hwithin hbase hvalid (by simpa [huser] using hle)
      exact h.alloc hc (fun a ha => key_user (mem_pagesBelow hfits ha)) hloop
  | free base size =>
    obtain ⟨r, hret, rfl⟩ := map_eq_some_iff.1 hrun
    cases r with
    | error e => exact hfailed
    | ok u =>
      obtain ⟨hbase, hvalid, hle, hmapped, hloop⟩ := virtualFree_eq_ok.1 hret
      obtain ⟨hlock, hpages⟩ := hwithin.2.resolve_left hmapped
      have hfits := hwithin.1.fits hbase hvalid (by simpa [huser] using hle)
      obtain ⟨haddrs, hnodup⟩ := pagesFrom_user hfits
      exact h.free hlock hc (fun a ha => key_user (haddrs a ha)) hnodup hpages hloop
  | protect base size flags =>
    obtain ⟨r, hret, rfl⟩ := map_eq_some_iff.1 hrun
    cases r with
    | error e => exact hfailed
    | ok s1 =>
      obtain ⟨hbase, hvalid, hle, -, hloop⟩ := virtualProtect_eq_ok.1 hret
      have hfits := UserRange.fits hwithin hbase hvalid (by simpa [huser] using hle)
      obtain ⟨haddrs, -⟩ := pagesFrom_user hfits
      exact h.protect hc (fun a ha => key_user (haddrs a ha)) hloop
  | write page offset value =>
    obtain ⟨leaf, hwalk, rfl⟩ := map_eq_some_iff.1 hrun
    obtain ⟨hpage, hnull⟩ := hwithin
    have hregion : page / 512 ^ 3 < 256 := by omega
    have hread {d : Nat} (hd : d ≤ 3) : pageMap s proc.cr3 d (page / 512 ^ (3 - d)) =
        E d (page / 512 ^ (3 - d)) :=
      (h.ready.tree.eq_entries d hd _ (user_path hregion hd)).symm
    have hleaf : pageMap s proc.cr3 3 page = E 3 page := by simpa using hread le_rfl
    have hclean : CleanPath c (pageMap s proc.cr3) page :=
      fun d hd => by
      rw [hread hd.le]
      exact h.clean_path hregion d hd
    -- the user half has no huge pages
    obtain ⟨htables, hpresent⟩ := tables_of_walk hclean (by simp [hwalk])
    rw [translate, hwalk] at hnull
    rw [walk_of_tables htables, if_pos hpresent, hleaf] at hwalk
    cases hwalk
    have hne : frame (E 3 page) ≠ 0 := fun hzero => hnull (congrArg some hzero)
    obtain ⟨hmap', hsame⟩ := h.write (h.owned page hregion hne) hne (frame_aligned _)
      (Nat.mod_lt offset (by decide)) value
    exact ⟨⟨E, used, hmap'⟩, hsame⟩

/-- The tables of the kernel half. -/
def kernelTables (s : Pmm) (cr3 : Nat) : Set Nat :=
  {t | Live child (fun i => 256 ≤ i ∧ i < 512) 3 (pageMap s cr3) t}

/-- The page map of a user process: the user half and the kernel half share no tables. -/
structure UserSpace (c : Cpu) (s : Pmm) (cr3 : Nat) : Prop where
  bits : c.physAddrBits ≤ 51
  userMap : ∃ E used, UserMap c cr3 (kernelTables s cr3) s E used

/-- In every run of a user process whose ranges end in the user half, and which gives back only
mapped pages whose frames it cleared, no entry below the slots of the kernel ever changes. -/
theorem kernelHalf_unchanged (huser : proc.isUsermode = true) (hspace : UserSpace c s0 proc.cr3)
    (hrun : Reaches (Call.Within c proc) (Call.step c proc) s0 s) :
    ∀ d ≤ 3, ∀ k, 256 ≤ k / 512 ^ d → k / 512 ^ d < 512 →
      pageMap s proc.cr3 d k = pageMap s0 proc.cr3 d k := by
  obtain ⟨hc, E, used, hmap⟩ := hspace
  have hinv := hrun.invariant
    (fun s => (∃ E used, UserMap c proc.cr3 (kernelTables s0 proc.cr3) s E used) ∧
      KernelSame proc.cr3 (kernelTables s0 proc.cr3) s0 s) ⟨⟨E, used, hmap⟩, .refl s0⟩ (by
    rintro s1 call s2 ⟨hmap1, hsame⟩ hwithin hstep
    obtain ⟨hmap2, hsame'⟩ := Call.step_userMap hc huser hmap1 hwithin hstep
    exact ⟨hmap2, hsame.trans hsame'⟩)
  intro d hd k hlo hhi
  refine entries_congr (R := fun i => 256 ≤ i ∧ i < 512) (fun i hi => ?_) (fun t ht => ?_) d hd k
    ⟨hlo, hhi⟩
  · refine Memory.load64_congr fun b hb hb' => hinv.2.root b ?_ ?_
    · omega
    · omega
  · intro b hb hb'
    refine hinv.2.tables b ?_
    obtain ⟨d', hd', k', hk', hchild⟩ := ht
    have haligned : t % 4096 = 0 := (frame_of_child hchild).2 ▸ frame_aligned _
    exact frameAt_eq haligned hb hb' ▸ ⟨d', hd', k', hk', hchild⟩

/-- The page map with one page, and a page of the kernel at the start of the kernel half. -/
def bothHalvesMapped : Memory :=
  (((onePageMapped.store64 0x1800 0xa003).store64 0xa000 0xb003).store64 0xb000 0xc003).store64
    0xc000 0xd003

/-- An allocator without free frames. -/
def bothHalves : Pmm := ⟨bothHalvesMapped, 0, 0, 1, false, true⟩

/-- The page map with both halves is one of a user process. -/
theorem userSpace_bothHalves : UserSpace smallCpu bothHalves 0x1000 := by
  let words := onePageWords 5 0x9007 ++ [(0x1800, 0xa003), (0xa000, 0xb003), (0xb000, 0xc003),
    (0xc000, 0xd003)]
  have huser : Surveyed child words 0x1000 (· < 256) 3 (onePageSurvey 5 0x9007) := by decide
  have hsurvey : Surveyed child words 0x1000 (fun i => 256 ≤ i ∧ i < 512) 3 [(0, 256, 0xa003),
      (1, 0x20000, 0xb003), (2, 0x4000000, 0xc003), (3, 0x800000000, 0xd003)] := by decide
  obtain ⟨htree, hnull, hlive, hclean, hleaf⟩ :=
    onePage_spec huser fun _ h => lt_trans h (by decide)
  have hkernel : ∀ t ∈ kernelTables bothHalves 0x1000, t ∈ [0xa000, 0xb000, 0xc000] := fun t ht =>
    hsurvey.live child_zero (fun _ h => h.2) ht
  have hready : Ready smallCpu 0x1000 (· < 256) bothHalves (pageMap bothHalves 0x1000)
      Set.univ := by
    refine ⟨htree, by decide, trivial, fun _ _ => trivial,
      .inr ⟨⟨rfl, ?_, trivial, hnull⟩, by decide, fun h => ?_⟩⟩
    · exact ⟨[],
        ⟨⟨by simp [DList.Adjacent, bothHalves, Pmm.list], by simp, by simp⟩, by simp, by simp,
        by simp⟩, by simp [freePages], by simp [freePages]⟩
    · have := hlive 0 h
      omega
  change ∀ page, page / 512 ^ 3 < 256 → pageMap bothHalves 0x1000 3 page = 0 ∨
    page = 5 ∧ pageMap bothHalves 0x1000 3 page = 0x9007 at hleaf
  have hpage {page : Nat} (hp : page / 512 ^ 3 < 256)
      (hne : frame (pageMap bothHalves 0x1000 3 page) ≠ 0) :=
    (hleaf page hp).resolve_left fun hzero => hne (congrArg frame hzero)
  refine ⟨by decide, pageMap bothHalves 0x1000, Set.univ, hready, by decide,
    fun d hd k hk => (hclean d hd k hk).1, fun page hp hne => ?_, fun page hp _ _ => ?_,
    fun page hp page' hp' hne heq => ?_, fun t ht => ?_⟩
  · rw [(hpage hp hne).2]
    refine ⟨trivial, by decide, by decide, fun hK => ?_, fun hl => ?_⟩
    · exact absurd (hkernel _ hK) (by decide)
    · exact absurd (hlive _ hl) (by decide)
  · rcases hleaf page hp with h | ⟨-, h⟩
    · rw [h]
      decide
    · rw [h]
      decide
  · rw [(hpage hp hne).1, (hpage hp' (heq ▸ hne)).1]
  · have hmem := hkernel t ht
    simp only [mem_cons, not_mem_nil, or_false] at hmem
    refine ⟨trivial, by omega, by omega, fun hl => ?_⟩
    have := hlive t hl
    omega

/-- A run that maps a page, stores to the one that was there, and protects it. -/
theorem reaches_bothHalves :
    ∃ s, Reaches (Call.Within smallCpu ⟨0x1000, true⟩) (Call.step smallCpu ⟨0x1000, true⟩)
        bothHalves s ∧
      pageMap s 0x1000 3 8 ≠ pageMap bothHalves 0x1000 3 8 ∧
      frame (pageMap s 0x1000 3 5) = 0x9000 := by
  have hruns : ((execute (fun s call => Call.Within smallCpu ⟨0x1000, true⟩ s call)
      (Call.run smallCpu 1 ⟨0x1000, true⟩) bothHalves
      [.alloc 0x8000 0x1000 protUserModeAccess, .write 5 16 1,
        .protect 0x5000 0x1000 protReadOnly]).map
        fun s => decide (pageMap s 0x1000 3 8 ≠ pageMap bothHalves 0x1000 3 8 ∧
          frame (pageMap s 0x1000 3 5) = 0x9000)) = some true := by
    decide +kernel
  obtain ⟨s, hrun, hchanged⟩ := map_eq_some_iff.1 hruns
  exact ⟨s, (Reaches.of_execute hrun).mono fun _ _ _ hstep => ⟨1, hstep⟩,
    of_decide_eq_true hchanged⟩

theorem kernelHalf_unchanged_bothHalves :
    ∃ s, Reaches (Call.Within smallCpu ⟨0x1000, true⟩) (Call.step smallCpu ⟨0x1000, true⟩)
        bothHalves s ∧
      pageMap s 0x1000 3 8 ≠ pageMap bothHalves 0x1000 3 8 ∧
      pageMap s 0x1000 3 0x800000000 = pageMap bothHalves 0x1000 3 0x800000000 := by
  obtain ⟨s, hreaches, hchanged, -⟩ := reaches_bothHalves
  have hspace := userSpace_bothHalves
  exact ⟨s, hreaches, hchanged,
    kernelHalf_unchanged rfl hspace hreaches 3 le_rfl 0x800000000 (by decide) (by decide)⟩

/-- The first page of the kernel half is not above its start, so a user process may protect it. -/
theorem kernelHalf_changed :
    UserSpace smallCpu bothHalves 0x1000 ∧
      ∃ s, Call.step smallCpu ⟨0x1000, true⟩ bothHalves
          (.protect 0xffff800000000000 0x1000 protUserModeAccess) s ∧
        pageMap s 0x1000 3 0x800000000 ≠ pageMap bothHalves 0x1000 3 0x800000000 := by
  refine ⟨userSpace_bothHalves, ?_⟩
  have hruns : ((Call.run smallCpu 1 ⟨0x1000, true⟩ bothHalves
      (.protect 0xffff800000000000 0x1000 protUserModeAccess)).map fun s =>
        pageMap s 0x1000 3 0x800000000 == pageMap bothHalves 0x1000 3 0x800000000) =
          some false := by
    decide +kernel
  obtain ⟨s, hrun, hchanged⟩ := map_eq_some_iff.1 hruns
  exact ⟨s, ⟨1, hrun⟩, by simpa using hchanged⟩

end Runs

end Obos.Paging
