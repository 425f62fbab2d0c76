import Obos.Paging.KernelHalf

/-!
# Taking down the user half

When a process exits, `_Impl_FreeUserProcessAddressSpace` walks its page map with
`IteratePages` and takes out every page of the user half. The walk reads the tables
while its callback gives them back, and a table that was given back holds a node of
the free list: its second word is a link, its third one the number 1, which the walk
takes for a page if it has not yet come past it. The callback also gives back the frame
of a page of a mapped file that has none yet.

`freeUserProcessAddressSpace_exact_iff` says for which page maps exactly the frames of
the process are given back. The invariant of the walk is `Passed`: the pages below the
one it has come to are taken out, and a table given back is a `Husk`.
-/

namespace Obos.Paging

open Lib Lib.TableTree Physical List Option Memory

/-! ## The program -/

/-- `IteratePages` with a callback that writes to memory and never stops the iteration. An entry is
read when the loop comes to its index, from what is in the table then. -/
def iteratePagesLive (c : Cpu) (first last : Nat)
    (callback : Unmapping → Nat → BitVec 64 → Option Unmapping) :
    Nat → Nat → Nat → Unmapping → Option Unmapping
  | 0, currentPM, virt, u =>
    if currentPM = 0 then some u
    else (List.range 512).foldlM (fun u i =>
      let entry := u.pmm.mem.load64 (currentPM + 8 * i)
      if hasBit entry 0 || hasBit entry 10 then callback u (virt ||| i <<< 12) entry else some u)
        u
  | level + 1, currentPM, virt, u =>
    let index := if level + 1 = 3 then addressToIndex first 3 else 0
    let endIndex := if level + 1 = 3 then addressToIndex last 3 + 1 else 512
    if currentPM = 0 then some u
    else (List.range' index (endIndex - index)).foldlM (fun u i =>
      let entry := u.pmm.mem.load64 (currentPM + 8 * i)
      let hole := if level + 1 = 3 && decide (0x100 ≤ i) then 0xffff800000000000 else 0
      let virt := hole ||| virt ||| i <<< (9 * (level + 1) + 12)
      if !hasBit entry 0 then some u
      else if level + 1 ≠ 3 && hasBit entry 7 then callback u virt entry
      else iteratePagesLive c first last callback level (c.rawPtr entry) virt u) u

/-- The callback of `_Impl_FreeUserProcessAddressSpace`. -/
def freeUserPage (c : Cpu) (cr3 : Nat) (u : Unmapping) (virt : Nat) (entry : BitVec 64) :
    Option Unmapping :=
  let pml2Phys := c.rawPtr (getL2PageMapEntryAt c u.pmm.mem cr3 virt)
  (if !hasBit entry 9 then u.release (c.rawPtr entry) else some u).bind fun u =>
    freePagingStructures c (u.write (pml2Phys + 8 * addressToIndex virt 0) 0) pml2Phys cr3 virt

/-- `_Impl_FreeUserProcessAddressSpace`, with `none` for a null pointer. -/
def freeUserProcessAddressSpace (c : Cpu) (s : Pmm) (proc : Option Process) :
    Option (Bool × Unmapping) :=
  match proc with
  | none => some (false, ⟨s, []⟩)
  | some proc =>
    if !proc.isUsermode then some (false, ⟨s, []⟩)
    else (iteratePagesLive c 0 0x7fffffffffff (freeUserPage c proc.cr3) 3 proc.cr3 0 ⟨s, []⟩).map
      (true, ·)

/-! ## Termination -/

section Returns

variable {c : Cpu} {cr3 virt : Nat} {u u' : Unmapping} {entry : BitVec 64}
  {callback : Unmapping → Nat → BitVec 64 → Option Unmapping}

/-- The callback does not hang if the allocator is not locked, and it is not locked afterwards. -/
theorem freeUserPage_returns (h : u.pmm.locked = false) :
    ∃ u', freeUserPage c cr3 u virt entry = some u' ∧ u'.pmm.locked = false :=
  freeEntry_returns h (rawPtr_aligned c _)

/-- What holds where nothing is left to do and of every call of the callback, and of one part after
another, holds of the iteration. -/
theorem iteratePagesLive_rec {first last : Nat} (good : Unmapping → Option Unmapping → Prop)
    (hdone : ∀ u, good u (some u)) (hcall : ∀ u virt entry, good u (callback u virt entry))
    (hbind : ∀ u r (f : Unmapping → Option Unmapping), good u r → (∀ u', good u' (f u')) →
      good u (r.bind f)) (level : Nat) :
    ∀ currentPM virt u, good u (iteratePagesLive c first last callback level currentPM virt u) := by
  have hloop (body : Unmapping → Nat → Option Unmapping) (hbody : ∀ u i, good u (body u i))
      (is : List Nat) (u : Unmapping) : good u (is.foldlM body u) := by
    induction is generalizing u with
    | nil => exact hdone u
    | cons i is ih => exact hbind u _ _ (hbody u i) ih
  induction level with
  | zero =>
    intro currentPM virt u
    rw [iteratePagesLive]
    split
    · exact hdone u
    refine hloop _ (fun u i => ?_) _ u
    simp only
    split
    · exact hcall u _ _
    · exact hdone u
  | succ level ih =>
    intro currentPM virt u
    rw [iteratePagesLive]
    simp only
    generalize (if level + 1 = 3 then addressToIndex last 3 + 1 else 512) = endIndex
    generalize (if level + 1 = 3 then addressToIndex first 3 else 0) = index
    split
    · exact hdone u
    refine hloop _ (fun u i => ?_) _ u
    generalize (if (decide (level + 1 = 3) && decide (256 ≤ i)) = true then 0xffff800000000000
      else 0) = hole
    split
    · exact hdone u
    split
    · exact hcall u _ _
    · exact ih _ _ u

/-- The walk does not hang if the allocator is not locked. -/
theorem iteratePagesLive_returns {first last level currentPM : Nat} (h : u.pmm.locked = false) :
    ∃ u', iteratePagesLive c first last (freeUserPage c cr3) level currentPM virt u = some u' ∧
      u'.pmm.locked = false := by
  refine iteratePagesLive_rec (fun u r => u.pmm.locked = false → ∃ u', r = some u' ∧
    u'.pmm.locked = false) (fun u h => ⟨u, rfl, h⟩) (fun u virt entry h => freeUserPage_returns h)
    (fun u r f hr hf h => ?_) level currentPM virt u h
  obtain ⟨u', rfl, h'⟩ := hr h
  exact hf u' h'

end Returns

/-! ## Tables that were given back -/

/-- What the walk can find in a table that was given back, once it has come past the first entry: a
link that is not present, the number 1 behind it, and zero. -/
def Residue (i : Nat) (w : BitVec 64) : Prop :=
  w = 0 ∨ (i = 1 ∧ hasBit w 0 = false ∧ hasBit w 10 = false) ∨ (i = 2 ∧ w = 1)

/-- The table was given back, or could be. -/
def Husk (m : Memory) (t : Nat) : Prop := ∀ i, 0 < i → i < 512 → Residue i (m.load64 (t + 8 * i))

/-- The step keeps husks and makes one of every table it gives back; `D` are the other frames it may
give back. The free list ends at a page. -/
structure KeepsHusks (D : Nat → Prop) (u u' : Unmapping) : Prop where
  tail : u'.pmm.memoryTail % 4096 = 0
  husk : ∀ t, t % 4096 = 0 → Husk u.pmm.mem t → Husk u'.pmm.mem t
  freed : ∀ f ∈ u'.freed, f ∈ u.freed ∨ D f ∨ (f % 4096 = 0 ∧ Husk u'.pmm.mem f)

section Husks

variable {c : Cpu} {cr3 virt addr a f t : Nat} {u u' u'' : Unmapping} {entry : BitVec 64}
  {m : Memory} {D : Nat → Prop}

theorem KeepsHusks.refl (htail : u.pmm.memoryTail % 4096 = 0) : KeepsHusks D u u :=
  ⟨htail, fun _ _ h => h, fun _ h => .inl h⟩

theorem KeepsHusks.trans (h : KeepsHusks D u u') (h' : KeepsHusks D u' u'') :
    KeepsHusks D u u'' := by
  refine ⟨h'.tail, fun t ht hh => h'.husk t ht (h.husk t ht hh), fun f hf => ?_⟩
  rcases h'.freed f hf with hold | hnew
  · exact (h.freed f hold).imp_right (Or.imp_right fun hh => ⟨hh.1, h'.husk f hh.1 hh.2⟩)
  · exact .inr hnew

theorem husk_of_isZeroPage (h : isZeroPage m t = true) : Husk m t := fun i _ hi =>
  .inl (isZeroPage_iff.1 h i hi)

/-- Clearing an entry keeps husks. -/
theorem keepsHusks_write (htail : u.pmm.memoryTail % 4096 = 0) (ha : a % 8 = 0) :
    KeepsHusks D u (u.write a 0) := by
  refine ⟨htail, fun t ht h i hpos hi => ?_, fun f hf => .inl hf⟩
  change Residue i ((u.pmm.mem.store64 a 0).load64 (t + 8 * i))
  by_cases heq : t + 8 * i = a
  · rw [heq]
    exact .inl (load64_store64_same _ _ _)
  · rw [load64_store64_other 0 (by omega)]
    exact h i hpos hi

/-- A husk stays one when a frame is given back, be it its own. -/
theorem Husk.appendNode {s : Pmm} (h : Husk s.mem t) (ht : t % 4096 = 0)
    (htail : s.memoryTail % 4096 = 0) (hf : f % 4096 = 0) : Husk (s.appendNode f 1).mem t := by
  intro i hpos hi
  by_cases hnode : t = f ∧ i < 3
  swap
  · rw [load64_congr fun x hx hx' => mem_appendNode_outside (s := s) (by omega) (by omega)]
    exact h i hpos hi
  obtain ⟨rfl, hlt⟩ := hnode
  obtain rfl | rfl : i = 1 ∨ i = 2 := by omega
  · have hlink : (s.appendNode t 1).mem.load64 (t + 8) = BitVec.ofNat 64 s.memoryTail :=
      (load64_store64_other _ (by omega)).trans (load64_store64_same _ _ _)
    have hlow : ∀ i < 12, hasBit (BitVec.ofNat 64 s.memoryTail) i = false := by
      intro i hi
      have hbit := Nat.testBit_mod_two_pow s.memoryTail 12 i
      rw [htail, Nat.zero_testBit] at hbit
      simp only [hi, decide_true, Bool.true_and] at hbit
      simp [hasBit, BitVec.getLsbD_ofNat, ← hbit]
    rw [hlink]
    exact .inr (.inl ⟨rfl, hlow 0 (by decide), hlow 10 (by decide)⟩)
  · exact .inr (.inr ⟨rfl, load64_appendNode_count _ _⟩)

/-- Giving back a frame keeps husks; the frame is one of `D`, or an empty table. -/
theorem keepsHusks_release (htail : u.pmm.memoryTail % 4096 = 0) (hf : f % 4096 = 0)
    (hD : D f ∨ isZeroPage u.pmm.mem f = true) (hret : u.release f = some u') :
    KeepsHusks D u u' := by
  obtain ⟨-, rfl⟩ := release_eq_some.1 hret
  refine ⟨hf, fun t ht h => h.appendNode ht htail hf, fun g hg => ?_⟩
  rcases mem_append.1 hg with hold | hnew
  · exact .inl hold
  · rw [mem_singleton.1 hnew]
    exact .inr (hD.imp_right fun hzero =>
      ⟨hf, (husk_of_isZeroPage hzero).appendNode hf htail hf⟩)

/-- The callback keeps husks, and the tables it gives back become some. -/
theorem keepsHusks_freeUserPage (hcr3 : cr3 % 4096 = 0) (htail : u.pmm.memoryTail % 4096 = 0)
    (hret : freeUserPage c cr3 u virt entry = some u') :
    KeepsHusks (fun f => hasBit entry 9 = false ∧ f = c.rawPtr entry) u u' := by
  have haligned := rawPtr_aligned c (getL2PageMapEntryAt c u.pmm.mem cr3 virt)
  refine freeEntry_rec (fun r => ∀ u', r = some u' →
    KeepsHusks (fun f => hasBit entry 9 = false ∧ f = c.rawPtr entry) u u') ?_
    (fun u1 f hf hzero h1 u2 hret2 => ?_) haligned (fun h9 u1 hret1 => ?_) ?_ u' hret
  · rintro u1 a ha h1 _ ⟨⟩
    exact (h1 u1 rfl).trans (keepsHusks_write (h1 u1 rfl).tail (ha hcr3))
  · exact (h1 u1 rfl).trans
      (keepsHusks_release (h1 u1 rfl).tail (hf haligned) (.inr hzero) hret2)
  · exact keepsHusks_release htail (rawPtr_aligned c entry) (.inl ⟨by simpa using h9, rfl⟩) hret1
  · rintro _ ⟨⟩
    exact .refl htail

end Husks

/-! ## The walk -/

/-- If a table of the last level maps a page, it maps one that is not among its first two. -/
def LaterPage (E : Entries) (k : Nat) : Prop :=
  (∃ p, p / 512 = k ∧ E 3 p ≠ 0) → ∃ q, q / 512 = k ∧ 2 ≤ q % 512 ∧ E 3 q ≠ 0

/-- The entry of a page of a mapped file that has no frame yet. -/
def uncommittedFile (entry : BitVec 64) : Bool := hasBit entry 10 && !hasBit entry 9

/-- The walk meets no page of a mapped file without a frame, and comes past the node in every table
before the table is given back. -/
structure Walkable (E : Entries) : Prop where
  noFiles : ∀ p < 2 ^ 35, uncommittedFile (E 3 p) = false
  later : ∀ k < 2 ^ 26, LaterPage E k

/-- What is assumed of the user half: its entries are clean, a leaf is zero, present or of a page of
a mapped file, such a page has no frame as long as it is not committed, and the frames of the others
may be given back. -/
structure Start.UserHalf (x : Start) : Prop where
  valid : x.Valid
  region : ∀ i < 256, x.region i
  clean : ∀ d < 3, ∀ k, k / 512 ^ d < 256 → Clean x.cpu d (x.contents d k)
  leaf : ∀ p < 2 ^ 35, x.contents 3 p = 0 ∨ hasBit (x.contents 3 p) 0 = true ∨
    hasBit (x.contents 3 p) 10 = true
  frames : ∀ p < 2 ^ 35, x.contents 3 p ≠ 0 → committed (x.contents 3 p) = true →
    Returnable x (x.cpu.rawPtr (x.contents 3 p))
  inj : x.sound → ∀ p < 2 ^ 35, ∀ q < 2 ^ 35, x.contents 3 p ≠ 0 → committed (x.contents 3 p) =
    true →
    committed (x.contents 3 q) = true → x.cpu.rawPtr (x.contents 3 q) = x.cpu.rawPtr
      (x.contents 3 p) →
    q = p
  uncommitted : ∀ p < 2 ^ 35, uncommittedFile (x.contents 3 p) = true → frame (x.contents 3 p) = 0

/-- The walk has come to the page `n`. A table whose third entry is still to be read and that was
given back holds the number 1 there. -/
structure Passed (x : Start) (n : Nat) (u : Unmapping) : Prop where
  closed : ∃ V, Closed x V u ∧ ∀ p, p ∈ V ↔ p < n ∧ x.contents 3 p ≠ 0
  husk : ∀ t, x.Table t → t ∈ u.freed → Husk u.pmm.mem t
  counted : ∀ k t, k < 2 ^ 26 → child (x.contents 2 k) = some t → t ∈ u.freed → n ≤ 512 * k + 2 →
    u.pmm.mem.load64 (t + 16) = 1
  noFiles : ∀ p < n, uncommittedFile (x.contents 3 p) = false
  later : ∀ k, 512 * k + 3 ≤ n → LaterPage x.contents k

/-- A frame was given back that belongs to no process. -/
def Stray (u : Unmapping) : Prop := ∃ f ∈ u.freed, f % 2 ^ 52 = 0

/-- The walk has come to the page `n`, or has gone wrong on a page map where it has to. -/
def WalkedTo (x : Start) (n : Nat) (u : Unmapping) : Prop :=
  Passed x n u ∨ (Stray u ∧ ¬ Walkable x.contents)

section Walk

variable {x : Start} {u u' : Unmapping} {V : List Nat} {n n' d level k q i t : Nat} {e : BitVec 64}

theorem Closed.mem_of_tableGone (h : Closed x V u) (ht : x.TableGone (· ∈ V) t) : t ∈ u.freed := by
  obtain ⟨tables, hperm, -, hmem⟩ := h.freed
  exact hperm.mem_iff.2 (mem_append_right _ ((hmem t).2 ht))

variable {virt cr3 first : Nat} {c : Cpu} {last : Nat}

/-- What was given back stays in the record. -/
theorem subset_of_freeUserPage (h : freeUserPage c cr3 u virt e = some u') :
    u.freed ⊆ u'.freed := by
  obtain ⟨u1, hret1, h⟩ := bind_eq_some_iff.1 h
  refine List.Subset.trans ?_ (subset_of_freePagingStructures h)
  split at hret1
  · have hsub := subset_of_release hret1
    exact hsub
  · cases hret1
    exact List.Subset.refl _

/-- The callback gives back the frame of an entry first. -/
theorem rawPtr_mem_of_freeUserPage (h9 : hasBit e 9 = false)
    (h : freeUserPage c cr3 u virt e = some u') : c.rawPtr e ∈ u'.freed := by
  obtain ⟨u1, hret1, h⟩ := bind_eq_some_iff.1 h
  refine subset_of_freePagingStructures h ?_
  rw [h9, Bool.not_false] at hret1
  obtain ⟨-, rfl⟩ := release_eq_some.1 hret1
  exact mem_append_right _ (mem_singleton_self _)

theorem Stray.mono (h : Stray u) (hsub : u.freed ⊆ u'.freed) : Stray u' :=
  h.imp fun _ hf => ⟨hsub hf.1, hf.2⟩

theorem region_of_lt (hx : x.UserHalf) {p : Nat} (hp : p < 2 ^ 35) : x.region (p / 512 ^ 3) :=
  hx.region _ (by omega)

/-- Going on over pages that are not mapped. -/
theorem Passed.skip (h : Passed x n u) (hle : n ≤ n')
    (hnone : ∀ p, n ≤ p → p < n' → x.contents 3 p = 0)
    (hlater : ∀ k, n < 512 * k + 3 → 512 * k + 3 ≤ n' → LaterPage x.contents k) :
    Passed x n' u := by
  obtain ⟨V, hclosed, hV⟩ := h.closed
  refine ⟨⟨V, hclosed, fun p => ?_⟩, h.husk, fun k t hk ht hmem hn => h.counted k t hk ht hmem
    (by omega), fun p hp => ?_, fun k hk => ?_⟩
  · rw [hV]
    refine and_congr_left fun hne => ⟨fun hp => by omega, fun hp => ?_⟩
    by_contra hge
    exact hne (hnone p (by omega) hp)
  · by_cases hlt : p < n
    · exact h.noFiles p hlt
    · rw [hnone p (by omega) hp]
      rfl
  · by_cases hlt : 512 * k + 3 ≤ n
    · exact h.later k hlt
    · exact hlater k (by omega) hk

theorem Passed.skip_tables (h : Passed x (512 * n) u) (hle : n ≤ n')
    (hnone : ∀ p, 512 * n ≤ p → p < 512 * n' → x.contents 3 p = 0) : Passed x (512 * n') u := by
  refine h.skip (by omega) hnone fun k hlo hhi => ?_
  rintro ⟨p, hp, hne⟩
  exact absurd (hnone p (by omega) (by omega)) hne

/-- A table that has gone is a husk, and all its pages have been passed. -/
theorem Passed.gone (h : Passed x n u) (hclosed : Closed x V u)
    (hV : ∀ p, p ∈ V ↔ p < n ∧ x.contents 3 p ≠ 0) (hd : d < 3) (hk : x.region (k / 512 ^ d))
    (ht : child (x.contents d k) = some t) (hempty : Emptied 3 x.contents (· ∈ V) d k) :
    t ∈ u.freed ∧ Husk u.pmm.mem t ∧ (∃ p < n, x.contents 3 p ≠ 0 ∧ p / 512 ^ (3 - d) = k) ∧
      ∀ p, p / 512 ^ (3 - d) = k → x.contents 3 p ≠ 0 → p < n := by
  have hmem := hclosed.mem_of_tableGone ⟨d, hd, k, hempty, ht⟩
  refine ⟨hmem, h.husk t ⟨d, hd, k, hk, ht⟩ hmem, ?_, fun p hp hne => ?_⟩
  · obtain ⟨p, hp, hne, hpath⟩ := hempty.1
    exact ⟨p, ((hV p).1 hp).1, hne, hpath⟩
  · obtain ⟨p', hp', -, hpath⟩ := hempty.2 3 hd le_rfl p hp hne
    rw [Nat.pow_zero, Nat.div_one] at hpath
    exact hpath ▸ ((hV p').1 hp').1

/-- In a table that has not gone the walk reads the entries of the page map it started from. -/
theorem Passed.reads (hclosed : Closed x V u) (hV : ∀ p, p ∈ V ↔ p < n ∧ x.contents 3 p ≠ 0)
    (hd : d ≤ 3) (hq : x.region (q / 512 ^ d)) (hn : n ≤ q * 512 ^ (3 - d))
    (ht : tableOf child x.cr3 x.contents d q = some t)
    (hlive : ∀ d', d = d' + 1 → ¬ Emptied 3 x.contents (· ∈ V) d' (q / 512)) :
    u.pmm.mem.load64 (t + 8 * (q % 512)) = x.contents d q := by
  have hstay : ¬ Emptied 3 x.contents (· ∈ V) d q := by
    rintro ⟨⟨p, hp, -, rfl⟩, -⟩
    have hlt := ((hV p).1 hp).1
    have hle := Nat.div_mul_le_self p (512 ^ (3 - d))
    omega
  have htable : tableOf child x.cr3 (pruned 3 x.contents (· ∈ V)) d q = some t := by
    cases d with
    | zero => exact ht
    | succ d => rwa [tableOf, pruned_of_not_emptied (hlive d rfl)]
  have hword := hclosed.held.tree.word d hd q hq
  rwa [htable, pruned_of_not_emptied hstay, wordAt, eq_comm] at hword

/-- An entry without a frame is given back as a frame that belongs to no process. -/
theorem rawPtr_of_frame_eq_zero (c : Cpu) (h : frame e = 0) : c.rawPtr e % 2 ^ 52 = 0 := by
  have hmasked : e &&& frameMask = 0 := BitVec.eq_of_toNat_eq h
  refine Nat.eq_of_testBit_eq fun i => ?_
  rw [Nat.testBit_mod_two_pow, Nat.zero_testBit, Bool.and_eq_false_iff, decide_eq_false_iff_not]
  by_cases hi : i < 52
  swap
  · exact .inl hi
  refine .inr ?_
  change hasBit (e &&& c.physAddrMask) i = false
  rw [hasBit_and, hasBit_physAddrMask]
  by_cases hlow : 12 ≤ i
  · have hbit := congrArg (hasBit · i) hmasked
    simp only [hasBit_and, hasBit_frameMask, hlow, hi, and_self, decide_true, Bool.and_true] at hbit
    simp [hbit]
  · simp [hlow]

/-- The number 1 is taken for an entry at address 0. -/
theorem rawPtr_one (c : Cpu) : c.rawPtr 1 = 0 := by
  have hmasked : bit 0 &&& c.physAddrMask = 0 := by
    refine eq_of_hasBit_eq fun i _ => ?_
    rw [hasBit_and, hasBit_physAddrMask]
    by_cases hi : 0 = i
    · simp [← hi]
    · simp [hi]
  exact congrArg BitVec.toNat hmasked

/-- For a page that is not one of an uncommitted file, the callback is the body of `VirtualFree`. -/
theorem freeUserPage_eq (hfile : uncommittedFile e = false)
    (he : u.pmm.mem.load64 (c.rawPtr (getL2PageMapEntryAt c u.pmm.mem cr3 virt) +
      8 * addressToIndex virt 0) = e) : freeUserPage c cr3 u virt e = freePage c cr3 u virt := by
  have hcommitted : committed e = !hasBit e 9 := by
    unfold uncommittedFile at hfile
    unfold committed
    cases h9 : hasBit e 9 with
    | true => rfl
    | false => simpa [h9] using hfile
  simp only [freeUserPage, freePage, he, hcommitted]

/-- The callback on a page that is mapped. -/
theorem Passed.take (hx : x.UserHalf) (h : Passed x n u) (hn : n < 2 ^ 35)
    (hmapped : x.contents 3 n ≠ 0) (hfile : uncommittedFile (x.contents 3 n) = false)
    (hlater : n % 512 = 2 → LaterPage x.contents (n / 512))
    (hret : freeUserPage x.cpu x.cr3 u (4096 * n) (x.contents 3 n) = some u') :
    Passed x (n + 1) u' := by
  have hkey : key (4096 * n) = n := by
    unfold key
    omega
  obtain ⟨V, hclosed, hV⟩ := h.closed
  have hnotin : n ∉ V := fun hin => absurd ((hV n).1 hin).1 (by omega)
  have hVregion : ∀ q ∈ V, x.region (q / 512 ^ 3) := fun q hq =>
    region_of_lt hx (lt_trans ((hV q).1 hq).1 hn)
  have hleaving : Leaving x (· ∈ V) (key (4096 * n)) := by
    rw [hkey]
    exact ⟨region_of_lt hx hn, hnotin, hmapped,
      fun d hd => hx.clean d hd _ (user_path (by omega) hd.le)⟩
  have hkept : x.sound → committed (x.contents 3 n) = true →
      x.cpu.rawPtr (x.contents 3 n) ∉ u.freed := fun hs hc =>
    hclosed.frame_kept hVregion (hx.frames n hn hmapped hc) (fun q hq hqc heq =>
      hx.inj hs n hn q (lt_trans ((hV q).1 hq).1 hn) hmapped hc hqc heq) hnotin
  obtain ⟨t, u1, ht, hcleared, hfreed1, hpage⟩ := freePage_cleared hx.valid hleaving hclosed.held
    (by rw [hkey]; exact hx.frames n hn hmapped) (by rw [hkey]; exact hkept)
  obtain ⟨htable, hentry⟩ := hleaving.entry_eq hx.valid hclosed.held ht
  have hfree : freePagingStructures x.cpu (u1.write (t + 8 * addressToIndex (4096 * n) 0) 0) t x.cr3
      (4096 * n) = some u' := by
    rw [← hpage, ← freeUserPage_eq hfile (by rw [htable, hentry, hkey])]
    exact hret
  obtain ⟨u2, hret2, hgone, hcounted⟩ := freePagingStructures_spec hx.valid hleaving ht hcleared
  cases hfree.symm.trans hret2
  rw [hkey] at hgone hfreed1
  have hclosed' := hclosed.gone hx.valid hVregion (hkey ▸ hleaving) hgone hfreed1
  have hV' : ∀ p, p ∈ V ++ [n] ↔ p < n + 1 ∧ x.contents 3 p ≠ 0 := by
    intro p
    rw [mem_append, mem_singleton, hV]
    constructor
    · rintro (⟨hlt, hne⟩ | rfl)
      · exact ⟨by omega, hne⟩
      · exact ⟨by omega, hmapped⟩
    · rintro ⟨hlt, hne⟩
      by_cases heq : p = n
      · exact .inr heq
      · exact .inl ⟨by omega, hne⟩
  have hkeeps := keepsHusks_freeUserPage hx.valid.tree.root_aligned hclosed.held.tail_aligned hret
  refine ⟨⟨V ++ [n], hclosed', hV'⟩, fun t' ht' hmem => ?_, fun k t' hk ht' hmem hle => ?_,
    fun p hp => ?_, fun k hk => ?_⟩
  · rcases hkeeps.freed t' hmem with hold | ⟨h9, rfl⟩ | ⟨-, hhusk⟩
    · exact hkeeps.husk t' (hx.valid.tree.aligned t' ht') (h.husk t' ht' hold)
    · refine absurd ht' (hx.frames n hn hmapped ?_).not_table
      unfold uncommittedFile at hfile
      simpa [committed, h9] using hfile
    · exact hhusk
  · -- the table has gone with this page, as only its first two pages have been passed
    have hregion : x.region (k / 512 ^ 2) := hx.region _ (by omega)
    rcases hclosed'.mem_freed hmem with ⟨q, hq, hqc, rfl⟩ | ⟨d, hd, k', hempty, hchild⟩
    · obtain ⟨hlt, hne⟩ := (hV' q).1 hq
      exact absurd ⟨2, by decide, k, hregion, ht'⟩ (hx.frames q (by omega) hne hqc).not_table
    · obtain ⟨p, hp, -, hpath⟩ := hempty.1
      have hplt := ((hV' p).1 hp).1
      have hregion' : x.region (k' / 512 ^ d) := by
        rw [← hpath]
        exact hx.region _ (user_path (by omega) hd.le)
      obtain ⟨rfl, rfl⟩ := hx.valid.tree.inj d hd k' hregion' 2 (by decide) k hregion t' hchild ht'
      have hk' : k' = n / 512 := by
        omega
      rw [hkey, ← hk'] at ht
      cases ht'.symm.trans ht.child_eq
      rw [← plus_mem, hk', ← hkey] at hempty
      exact (hcounted hempty).count
  · by_cases heq : p = n
    · rw [heq]
      exact hfile
    · exact h.noFiles p (by omega)
  · by_cases hlt : 512 * k + 3 ≤ n
    · exact h.later k hlt
    · rw [show k = n / 512 by omega]
      exact hlater (by omega)

/-- A table whose third entry has been reached with nothing but the node in it. -/
theorem not_walkable_of_emptied (hV : ∀ p, p ∈ V ↔ p < 512 * k + 2 ∧ x.contents 3 p ≠ 0)
    (hk : k < 2 ^ 26) (hempty : Emptied 3 x.contents (· ∈ V) 2 k) : ¬ Walkable x.contents := by
  intro hwalk
  obtain ⟨p, -, hne, hp⟩ := hempty.1
  obtain ⟨q, hq, hq2, hqne⟩ := hwalk.later k hk ⟨p, by simpa using hp, hne⟩
  obtain ⟨q', hq', -, hpath⟩ := hempty.2 3 (by decide) le_rfl q (by simpa using hq) hqne
  have hlt := ((hV q').1 hq').1
  omega

/-- A table that has been reached at its third entry and is not empty has a page from there on. -/
theorem laterPage_of_not_emptied (hV : ∀ p, p ∈ V ↔ p < 512 * k + 2 ∧ x.contents 3 p ≠ 0)
    (hlive : ¬ Emptied 3 x.contents (· ∈ V) 2 k) : LaterPage x.contents k := by
  rintro ⟨p, hp, hne⟩
  by_contra hnone
  push Not at hnone
  -- all pages of the table are among the first two
  have hin : ∀ q, q / 512 = k → x.contents 3 q ≠ 0 → q ∈ V := fun q hq hqne =>
    (hV q).2 ⟨by
      by_contra hge
      exact hqne (hnone q hq (by omega)), hqne⟩
  refine hlive ⟨⟨p, hin p hp hne, hne, by simpa using hp⟩, fun d' hlo hhi k' hk' hne' => ?_⟩
  obtain rfl : d' = 3 := by omega
  exact ⟨k', hin k' (by simpa using hk') hne', hne', by simp⟩

/-- One entry of a table of the last level. -/
theorem Passed.page (hx : x.UserHalf) (hk : k < 2 ^ 26) (hi : i < 512)
    (ht : child (x.contents 2 k) = some t) (h : Passed x (512 * k + i) u)
    (he : u.pmm.mem.load64 (t + 8 * i) = e) (hret : (if hasBit e 0 || hasBit e 10 then
      freeUserPage x.cpu x.cr3 u (4096 * (512 * k + i)) e else some u) = some u') :
    WalkedTo x (512 * k + (i + 1)) u' := by
  obtain ⟨V, hclosed, hV⟩ := h.closed
  have hn : 512 * k + i < 2 ^ 35 := by omega
  by_cases hempty : Emptied 3 x.contents (· ∈ V) 2 k
  · -- the table has gone, and what is read is what the allocator left in it
    obtain ⟨hmem, hhusk, ⟨p, hp, -, hpath⟩, hall⟩ := h.gone hclosed hV (by decide)
      (hx.region _ (by omega)) ht hempty
    have hnone : ∀ p, 512 * k + i ≤ p → p < 512 * k + (i + 1) → x.contents 3 p = 0 := by
      intro p hlo hhi
      by_contra hne
      have hlt := hall p (by change p / 512 ^ 1 = k; omega) hne
      omega
    have hskip (hbits : hasBit e 0 = false ∧ hasBit e 10 = false) (hi2 : i ≠ 2) :
        WalkedTo x (512 * k + (i + 1)) u' := by
      rw [hbits.1, hbits.2] at hret
      cases hret
      exact .inl (h.skip (by omega) hnone fun k' hlo hhi => by omega)
    by_cases hi2 : i = 2
    · -- the number of pages of the node is taken for a page
      subst hi2
      obtain rfl : 1 = e := (h.counted k t hk ht hmem le_rfl).symm.trans he
      refine .inr ⟨⟨_, rawPtr_mem_of_freeUserPage (by decide) hret, ?_⟩,
        not_walkable_of_emptied hV hk hempty⟩
      exact rawPtr_of_frame_eq_zero _ (by decide)
    · rcases he ▸ hhusk i (by omega) hi with rfl | ⟨-, hbits⟩ | ⟨heq, -⟩
      · exact hskip ⟨rfl, rfl⟩ hi2
      · exact hskip hbits hi2
      · exact absurd heq hi2
  have hread := Passed.reads (q := 512 * k + i) hclosed hV le_rfl (region_of_lt hx hn) (by simp)
    (by rw [tableOf, show (512 * k + i) / 512 = k by omega]; exact ht) (by
      rintro d' ⟨⟩
      rwa [show (512 * k + i) / 512 = k by omega])
  rw [show (512 * k + i) % 512 = i by omega, he] at hread
  have hlater : (512 * k + i) % 512 = 2 → LaterPage x.contents ((512 * k + i) / 512) := by
    intro hi2
    obtain rfl : i = 2 := by omega
    rw [show (512 * k + 2) / 512 = k by omega]
    exact laterPage_of_not_emptied hV hempty
  by_cases hzero : x.contents 3 (512 * k + i) = 0
  · rw [hread, hzero] at hret
    cases hret
    refine .inl (h.skip (by omega) (fun p hlo hhi => ?_) fun k' hlo hhi => ?_)
    · rw [show p = 512 * k + i by omega]
      exact hzero
    · rw [show k' = (512 * k + i) / 512 by omega]
      exact hlater (by omega)
  have hbits : (hasBit e 0 || hasBit e 10) = true := by
    rw [hread, Bool.or_eq_true]
    exact (hx.leaf _ hn).resolve_left hzero
  rw [if_pos hbits, hread] at hret
  cases hfile : uncommittedFile (x.contents 3 (512 * k + i)) with
  | false => exact .inl (h.take hx hn hzero hfile hlater hret)
  | true =>
    have h9 : hasBit (x.contents 3 (512 * k + i)) 9 = false := by
      simpa using (Bool.and_eq_true_iff.1 hfile).2
    refine .inr ⟨⟨_, rawPtr_mem_of_freeUserPage h9 hret,
      rawPtr_of_frame_eq_zero _ (hx.uncommitted _ hn hfile)⟩, fun hwalk => ?_⟩
    rw [hwalk.noFiles _ hn] at hfile
    cases hfile

theorem pow_level (q level : Nat) : q * 512 ^ (level + 1) = 512 * (q * 512 ^ level) := by
  rw [Nat.pow_succ, Nat.mul_comm _ 512, ← Nat.mul_assoc, Nat.mul_comm q 512, Nat.mul_assoc]

/-- One entry of a table above the last level. -/
theorem Passed.entry (hx : x.UserHalf) (hd : d + level = 2) (hq : q / 512 ^ d < 256)
    (ht : tableOf child x.cr3 x.contents d q = some t) (h : Passed x (q * 512 ^ (level + 1)) u)
    (he : u.pmm.mem.load64 (t + 8 * (q % 512)) = e)
    (hrec : ∀ t', PointsTo x.cpu (x.contents d q) t' →
      iteratePagesLive x.cpu first last (freeUserPage x.cpu x.cr3) level t' virt u = some u' →
      WalkedTo x ((q + 1) * 512 ^ (level + 1)) u') (hret : (if !hasBit e 0 then some u
      else if level + 1 ≠ 3 && hasBit e 7 then freeUserPage x.cpu x.cr3 u virt e
      else iteratePagesLive x.cpu first last (freeUserPage x.cpu x.cr3) level (x.cpu.rawPtr e) virt
        u) = some u') : WalkedTo x ((q + 1) * 512 ^ (level + 1)) u' := by
  obtain ⟨V, hclosed, hV⟩ := h.closed
  have hdepth : 3 - d = level + 1 := by omega
  -- pages below the entry
  have hbelow : ∀ p, q * 512 ^ (level + 1) ≤ p → p < (q + 1) * 512 ^ (level + 1) →
      p / 512 ^ (3 - d) = q := by
    intro p hlo hhi
    rw [hdepth]
    exact Nat.div_eq_of_lt_le hlo hhi
  have hskip (hnone : ∀ p, q * 512 ^ (level + 1) ≤ p → p < (q + 1) * 512 ^ (level + 1) →
      x.contents 3 p = 0) (hret : some u = some u') : WalkedTo x ((q + 1) * 512 ^ (level + 1))
        u' := by
    cases hret
    rw [pow_level] at h hnone ⊢
    rw [pow_level] at hnone
    exact .inl (h.skip_tables (Nat.mul_le_mul_right _ (Nat.le_succ q)) hnone)
  by_cases hgone : ∃ d', d = d' + 1 ∧ Emptied 3 x.contents (· ∈ V) d' (q / 512)
  · obtain ⟨d', rfl, hempty⟩ := hgone
    have hregion : x.region (q / 512 / 512 ^ d') := by
      rw [div_path]
      exact hx.region _ hq
    obtain ⟨-, hhusk, ⟨p, hp, -, hpath⟩, hall⟩ := h.gone hclosed hV (by omega) hregion ht hempty
    have hdepth' : 3 - d' = level + 2 := by omega
    rw [hdepth'] at hpath hall
    have hnone : ∀ p, q * 512 ^ (level + 1) ≤ p → p < (q + 1) * 512 ^ (level + 1) →
        x.contents 3 p = 0 := by
      intro p hlo hhi
      by_contra hne
      refine absurd (hall p ?_ hne) (by omega)
      have hp := hbelow p hlo hhi
      rw [hdepth] at hp
      rw [Nat.pow_succ, ← Nat.div_div_eq_div_mul, hp]
    -- the first entry has been passed, as a page below it was there
    have hfirst : q % 512 ≠ 0 := by
      intro hzero
      have hle := Nat.div_mul_le_self p (512 ^ (level + 2))
      rw [hpath, pow_level, ← Nat.mul_assoc, Nat.mul_div_cancel' (Nat.dvd_of_mod_eq_zero hzero)]
        at hle
      omega
    have hnot (h0 : hasBit e 0 = false) : WalkedTo x ((q + 1) * 512 ^ (level + 1)) u' := by
      rw [h0] at hret
      exact hskip hnone hret
    rcases he ▸ hhusk _ (by omega) (Nat.mod_lt q (by decide)) with rfl | ⟨-, h0, -⟩ | ⟨-, rfl⟩
    · exact hnot rfl
    · exact hnot h0
    · -- the number of pages of the node is taken for an entry of a table at address 0
      rw [if_neg (by decide), if_neg (by simp [hasBit]), rawPtr_one] at hret
      refine hskip hnone ?_
      cases level with
      | zero => exact hret
      | succ level => exact hret
  push Not at hgone
  have hread := Passed.reads hclosed hV (by omega) (hx.region _ hq) (by rw [hdepth]) ht
    (fun d' hd' => hgone d' hd')
  rw [he] at hread
  subst hread
  rcases hx.clean d (by omega) q hq with hzero | ⟨t', ht', -⟩
  · rw [hzero] at hret
    refine hskip (fun p hlo hhi => ?_) hret
    refine (hx.valid.tree.hereditary child_zero).below (d := d) (by omega) le_rfl ?_ ?_
    · rw [show p / 512 ^ 3 = q / 512 ^ d by rw [← hbelow p hlo hhi, Nat.div_div_eq_div_mul,
        ← Nat.pow_add, Nat.sub_add_cancel (by omega)]]
      exact hx.region _ hq
    · rw [hbelow p hlo hhi, hzero]
  · have hbits : hasBit (x.contents d q) 0 = true ∧ hasBit (x.contents d q) 7 = false := by
      have hchild := ht'.child_eq
      unfold child at hchild
      split at hchild
      · rename_i hb
        simpa using hb
      · cases hchild
    rw [hbits.1, hbits.2, ht'.rawPtr_eq] at hret
    simp only [Bool.not_true, Bool.false_eq_true, if_false, Bool.and_false] at hret
    exact hrec t' ht' hret

theorem WalkedTo.step (h : WalkedTo x n u) (hsub : u.freed ⊆ u'.freed)
    (hstep : Passed x n u → WalkedTo x n' u') : WalkedTo x n' u' := by
  rcases h with hpassed | ⟨hstray, hnot⟩
  · exact hstep hpassed
  · exact .inr ⟨hstray.mono hsub, hnot⟩

/-- What was given back stays in the record. -/
theorem subset_of_iteratePagesLive {currentPM : Nat}
    (h : iteratePagesLive c first last (freeUserPage c cr3) level currentPM virt u = some u') :
    u.freed ⊆ u'.freed := by
  refine iteratePagesLive_rec (fun u r => ∀ u', r = some u' → u.freed ⊆ u'.freed) ?_
    (fun u virt entry u' => subset_of_freeUserPage) (fun u r f hr hf u'' h => ?_) level currentPM
    virt u u' h
  · rintro u u' ⟨⟩
    exact List.Subset.refl _
  · obtain ⟨u', hu', h⟩ := bind_eq_some_iff.1 h
    exact List.Subset.trans (hr u' hu') (hf u' u'' h)

@[inherit_doc subset_of_iteratePagesLive]
theorem subset_of_visit {huge : Bool}
    (h : (if !hasBit e 0 then some u else if huge && hasBit e 7 then freeUserPage c cr3 u virt e
      else iteratePagesLive c first last (freeUserPage c cr3) level (c.rawPtr e) virt u) =
        some u') : u.freed ⊆ u'.freed := by
  split at h
  · cases h
    exact List.Subset.refl _
  split at h
  · exact subset_of_freeUserPage h
  · exact subset_of_iteratePagesLive h

/-- The walk below an entry for a table. -/
theorem walkedTo_level (hx : x.UserHalf) : ∀ level d k t u u', d + level = 2 →
    k / 512 ^ d < 256 → PointsTo x.cpu (x.contents d k) t → Passed x (k * 512 ^ (level + 1)) u →
    iteratePagesLive x.cpu first last (freeUserPage x.cpu x.cr3) level t
      (k * 2 ^ (9 * (level + 1) + 12)) u = some u' →
    WalkedTo x ((k + 1) * 512 ^ (level + 1)) u' := by
  intro level
  induction level with
  | zero =>
    intro d k t u u' hd hk ht h hret
    obtain rfl : d = 2 := by omega
    have hne : t ≠ 0 := by
      rintro rfl
      exact hx.valid.table_ne ⟨2, by decide, k, hx.region _ hk, ht.child_eq⟩
    rw [iteratePagesLive, if_neg hne] at hret
    have hloop := foldlM_range_invariant hret (fun i u => WalkedTo x (512 * k + i) u)
      (.inl (by simpa [Nat.mul_comm] using h)) ?_
    · rwa [show (k + 1) * 512 ^ (0 + 1) = 512 * k + 512 by omega]
    intro i hi u1 u2 h1 hbody
    have hvirt := virt_or_index 0 k hi
    simp only [hvirt, Nat.mul_comm _ (2 ^ (9 * 0 + 12))] at hbody
    have hsub : u1.freed ⊆ u2.freed := by
      split at hbody
      · exact subset_of_freeUserPage hbody
      · cases hbody
        exact List.Subset.refl _
    exact h1.step hsub fun hpassed => hpassed.page hx (by omega) hi ht.child_eq rfl hbody
  | succ level ih =>
    intro d k t u u' hd hk ht h hret
    have hne : t ≠ 0 := by
      rintro rfl
      exact hx.valid.table_ne ⟨d, by omega, k, hx.region _ hk, ht.child_eq⟩
    have hlevel : level + 1 ≠ 3 := by omega
    rw [iteratePagesLive] at hret
    dsimp only at hret
    rw [if_neg hne, if_neg hlevel, if_neg hlevel, ← range_eq_range'] at hret
    have hloop := foldlM_range_invariant hret
      (fun i u => WalkedTo x ((512 * k + i) * 512 ^ (level + 1)) u) (.inl ?_) ?_
    · rwa [show (k + 1) * 512 ^ (level + 1 + 1) = (512 * k + 512) * 512 ^ (level + 1) by ring]
    · rwa [show (512 * k + 0) * 512 ^ (level + 1) = k * 512 ^ (level + 1 + 1) by ring]
    intro i hi u1 u2 h1 hbody
    have hhole : (if (decide (level + 1 = 3) && decide (256 ≤ i)) = true then 0xffff800000000000
        else 0) = 0 := by
      simp [hlevel]
    have hpath : (512 * k + i) / 512 = k := by omega
    rw [hhole, Nat.zero_or, virt_or_index (level + 1) k hi] at hbody
    refine h1.step (subset_of_visit hbody) fun hpassed => ?_
    refine hpassed.entry hx (d := d + 1) (q := 512 * k + i) (by omega) ?_ (by rw [tableOf, hpath,
      ht.child_eq]) (by rw [show (512 * k + i) % 512 = i by omega]) (fun t' ht' hrec => ?_) hbody
    · rwa [← div_path, hpath]
    · exact ih (d + 1) (512 * k + i) t' u1 u2 (by omega) (by rwa [← div_path, hpath]) ht' hpassed
        hrec

theorem Passed.zero (hheld : Held x u x.contents) (hfreed : u.freed = []) : Passed x 0 u := by
  have hnone (t : Nat) : t ∉ u.freed := by
    rw [hfreed]
    exact not_mem_nil
  exact ⟨⟨[], .nil hheld hfreed, fun p => by simp⟩, fun t _ hmem => absurd hmem (hnone t),
    fun _ t _ _ hmem => absurd hmem (hnone t), fun p hp => by omega, fun k hk => by omega⟩

/-- The whole walk. -/
theorem walkedTo_end (hx : x.UserHalf) (hheld : Held x u x.contents) (hfreed : u.freed = [])
    (hret : iteratePagesLive x.cpu 0 0x7fffffffffff (freeUserPage x.cpu x.cr3) 3 x.cr3 0 u =
      some u') : WalkedTo x (2 ^ 35) u' := by
  have hfirst : addressToIndex 0 3 = 0 := by decide
  have hlast : addressToIndex 0x7fffffffffff 3 + 1 - 0 = 256 := by decide
  rw [iteratePagesLive] at hret
  dsimp only at hret
  rw [if_neg hx.valid.cr3_ne, if_pos rfl, if_pos rfl, hfirst, hlast, ← range_eq_range'] at hret
  refine foldlM_range_invariant hret (fun i u => WalkedTo x (i * 512 ^ 3) u)
    (.inl (by simpa using Passed.zero hheld hfreed)) ?_
  intro i hi u1 u2 h1 hbody
  have hhole : (if (decide (2 + 1 = 3) && decide (256 ≤ i)) = true then 0xffff800000000000
      else 0) = 0 := by
    rw [if_neg (by simp; omega)]
  have hvirt := virt_or_index 3 0 (show i < 512 by omega)
  rw [Nat.zero_mul, Nat.zero_add] at hvirt
  rw [hhole, Nat.zero_or, hvirt] at hbody
  refine h1.step (subset_of_visit hbody) fun hpassed => ?_
  refine hpassed.entry hx (show 0 + 2 = 2 from rfl) (by simpa using hi) rfl
    (by rw [Nat.mod_eq_of_lt (show i < 512 by omega)]) (fun t' ht' hrec => ?_) hbody
  exact walkedTo_level hx 2 0 i t' u1 u2 rfl (by simpa using hi) ht' hpassed hrec

/-- Below every table of the user half a page is mapped. -/
def Occupied (E : Entries) : Prop :=
  ∀ d < 3, ∀ k, k / 512 ^ d < 256 → child (E d k) ≠ none → ∃ p, p / 512 ^ (3 - d) = k ∧ E 3 p ≠ 0

/-- When all pages are taken out, so are all entries above them. -/
theorem Start.UserHalf.emptied (hx : x.UserHalf) (hoccupied : Occupied x.contents)
    (hV : ∀ p, p ∈ V ↔ p < 2 ^ 35 ∧ x.contents 3 p ≠ 0) (hd : d ≤ 3) (hk : k / 512 ^ d < 256)
    (hne : x.contents d k ≠ 0) : Emptied 3 x.contents (· ∈ V) d k := by
  have hpath : ∀ d ≤ 3, ∀ k, k / 512 ^ d < 256 → x.contents d k ≠ 0 →
      OnPath 3 x.contents (· ∈ V) d k := by
    intro d hd k hk hne
    by_cases hleaf : d = 3
    · subst hleaf
      exact ⟨k, (hV k).2 ⟨by omega, hne⟩, hne, by simp⟩
    obtain ⟨t, ht, -⟩ := (hx.clean d (by omega) k hk).resolve_left hne
    obtain ⟨p, hp, hpne⟩ := hoccupied d (by omega) k hk (by simp [ht.child_eq])
    refine ⟨p, (hV p).2 ⟨?_, hpne⟩, hpne, hp⟩
    rw [← hp, Nat.div_div_eq_div_mul, ← Nat.pow_add, Nat.sub_add_cancel hd] at hk
    omega
  refine ⟨hpath d hd k hk hne, fun d' hlt hle k' hk' hne' => hpath d' hle k' ?_ hne'⟩
  rw [← hk', Nat.div_div_eq_div_mul, ← Nat.pow_add, Nat.sub_add_cancel hlt.le] at hk
  exact hk

end Walk

/-! ## The contract -/

/-- The frames given back are those of the committed pages of the user half and of its tables, each
once, no page of the user half is mapped any more, and the slots of the kernel are as before. -/
structure FreesUserHalf (s : Pmm) (cr3 : Nat) (u : Unmapping) : Prop where
  once : u.freed.Nodup
  frames : ∀ f, f ∈ u.freed ↔
    (∃ page < 2 ^ 35, pageMap s cr3 3 page ≠ 0 ∧ committed (pageMap s cr3 3 page) = true ∧
      frame (pageMap s cr3 3 page) = f) ∨ Live child (· < 256) 3 (pageMap s cr3) f
  unmapped : ∀ page < 2 ^ 35, pageMap u.pmm cr3 3 page = 0 ∧ walk (pageMap u.pmm cr3) page = none
  kernel : ∀ i, 256 ≤ i → i < 512 → u.pmm.mem.load64 (cr3 + 8 * i) = s.mem.load64 (cr3 + 8 * i)

/-- The page maps the statement is about: those whose user half can be unmapped, in which a page of
a mapped file has no frame before it is committed. -/
structure UserPageMap (c : Cpu) (s : Pmm) (cr3 : Nat) : Prop where
  unmappable : ∀ addrs : List Nat, (∀ a ∈ addrs, a < 2 ^ 47) → Unmappable c s cr3 addrs
  uncommitted : ∀ page < 2 ^ 35, uncommittedFile (pageMap s cr3 3 page) = true →
    frame (pageMap s cr3 3 page) = 0

/-- The condition on the page map: the walk does not go wrong, there are no empty tables, and no two
committed pages have the same frame. -/
structure Clearable (E : Entries) : Prop extends Walkable E where
  occupied : Occupied E
  distinct : ∀ p < 2 ^ 35, ∀ q < 2 ^ 35, E 3 p ≠ 0 → E 3 q ≠ 0 → committed (E 3 p) = true →
    committed (E 3 q) = true → frame (E 3 p) = frame (E 3 q) → p = q

section Contract

variable {c : Cpu} {s : Pmm} {cr3 page f : Nat} {u : Unmapping} {proc : Process} {V : List Nat}

theorem key_page (hpage : page < 512 ^ 4) : key (4096 * page) = page := by
  unfold key
  omega

section

variable (h : UserPageMap c s cr3)
include h

theorem UserPageMap.single (hpage : page < 2 ^ 35) : Unmappable c s cr3 [4096 * page] := by
  refine h.unmappable _ fun a ha => ?_
  rw [mem_singleton.1 ha]
  omega

/-- The frame of a committed page. -/
theorem UserPageMap.frames (hpage : page < 2 ^ 35) (hne : pageMap s cr3 3 page ≠ 0)
    (hcommitted : committed (pageMap s cr3 3 page) = true) :
    c.rawPtr (pageMap s cr3 3 page) = frame (pageMap s cr3 3 page) ∧
      Returnable (start c s cr3) (c.rawPtr (pageMap s cr3 3 page)) := by
  have hkey := key_page (show page < 512 ^ 4 by omega)
  have hframes := (h.single hpage).frames _ (mem_singleton_self _)
  have hreturnable := (h.single hpage).returnable (mem_singleton_self _)
  rw [hkey] at hframes hreturnable
  exact ⟨(hframes hne hcommitted).1, hreturnable hne hcommitted⟩

theorem UserPageMap.userHalf : (start c s cr3).UserHalf := by
  refine ⟨(h.unmappable [] (by simp)).valid, fun i hi => lt_trans hi (by decide),
    fun d hd k hk => ?_,
    fun p hp => ?_, fun p hp hne hcommitted => (h.frames hp hne hcommitted).2, False.elim,
    h.uncommitted⟩
  · have hlt : k * 512 ^ (3 - d) < 2 ^ 35 := by
      rw [Nat.div_lt_iff_lt_mul (Nat.pow_pos (by decide))] at hk
      calc k * 512 ^ (3 - d) < 256 * 512 ^ d * 512 ^ (3 - d) :=
            Nat.mul_lt_mul_of_pos_right hk (Nat.pow_pos (by decide))
        _ = 256 * 512 ^ 3 := by rw [Nat.mul_assoc, ← Nat.pow_add, show d + (3 - d) = 3 by omega]
        _ = 2 ^ 35 := by decide
    have hclean := (h.single hlt).clean _ (mem_singleton_self _) d hd
    rwa [key_page (by omega), Nat.mul_div_cancel _ (Nat.pow_pos (by decide))] at hclean
  · have hleaf := (h.single hp).leaf _ (mem_singleton_self _)
    rwa [key_page (by omega)] at hleaf

theorem UserPageMap.walk :
    ∃ u, iteratePagesLive c 0 0x7fffffffffff (freeUserPage c cr3) 3 cr3 0 ⟨s, []⟩ = some u ∧
      WalkedTo (start c s cr3) (2 ^ 35) u := by
  have hmap := h.unmappable [] (by simp)
  obtain ⟨u, hret, -⟩ : ∃ u, iteratePagesLive c 0 0x7fffffffffff (freeUserPage c cr3) 3 cr3 0
      ⟨s, []⟩ = some u ∧ u.pmm.locked = false := iteratePagesLive_returns hmap.unlocked
  exact ⟨u, hret, walkedTo_end h.userHalf hmap.held rfl hret⟩

/-- A walk that has gone wrong has given back a frame that is not one of the process. -/
theorem FreesUserHalf.not_stray (hfrees : FreesUserHalf s cr3 u) : ¬ Stray u := by
  rintro ⟨f, hf, hmod⟩
  rcases (hfrees.frames f).1 hf with ⟨page, hpage, hne, hcommitted, rfl⟩ | hlive
  · obtain ⟨hraw, hret⟩ := h.frames hpage hne hcommitted
    rw [Nat.mod_eq_of_lt (frame_lt _), ← hraw] at hmod
    exact hret.ne_null hmod
  · obtain ⟨d, hd, k, hk, hchild⟩ := hlive
    rw [← (frame_of_child hchild).2, Nat.mod_eq_of_lt (frame_lt _), (frame_of_child hchild).2]
      at hmod
    subst hmod
    exact (h.unmappable [] (by simp)).null_dead ⟨d, hd, k, lt_trans hk (by decide), hchild⟩

/-- If exactly the frames of the process are given back, its page map meets the condition. -/
theorem clearable_of_freesUserHalf (hwalked : WalkedTo (start c s cr3) (2 ^ 35) u)
    (hfrees : FreesUserHalf s cr3 u) : Clearable (pageMap s cr3) := by
  have hpassed := hwalked.resolve_right fun hbad => hfrees.not_stray h hbad.1
  obtain ⟨V, hclosed, hV⟩ := hpassed.closed
  refine ⟨⟨hpassed.noFiles, fun k hk => hpassed.later k (by omega)⟩, fun d hd k hk hchild => ?_,
    fun p hp q hq hpne hqne hcp hcq heq => ?_⟩
  · obtain ⟨t, ht⟩ := ne_none_iff_exists'.1 hchild
    have hmem := (hfrees.frames t).2 (.inr ⟨d, hd, k, hk, ht⟩)
    have htable : (start c s cr3).Table t := ⟨d, hd, k, lt_trans hk (by decide), ht⟩
    rcases hclosed.mem_freed hmem with ⟨q, hq, hcq, rfl⟩ | ⟨d', hd', k', hempty, hchild'⟩
    · obtain ⟨hlt, hne⟩ := (hV q).1 hq
      exact absurd htable (h.frames hlt hne hcq).2.not_table
    · obtain ⟨p, hp, hne, hpath⟩ := hempty.1
      have hregion : k' / 512 ^ d' < 512 := by
        have hlt := ((hV p).1 hp).1
        rw [← hpath]
        exact lt_trans (user_path (by omega) hd'.le) (by decide)
      obtain ⟨rfl, rfl⟩ :=
        h.userHalf.valid.tree.inj d' hd' k' hregion d hd k (lt_trans hk (by decide)) t
        hchild' ht
      exact ⟨p, hpath, hne⟩
  · by_contra hpq
    obtain ⟨tables, hperm, -, -⟩ := hclosed.freed
    have hnodup := (nodup_append.1 (hperm.nodup_iff.1 hfrees.once)).1
    have : Std.Symm (Function.onFun List.Disjoint fun p => c.frames (pageMap s cr3 3 p)) :=
      ⟨fun _ _ hpq => List.Disjoint.symm hpq⟩
    have hdisjoint := (nodup_flatMap.1 hnodup).2.forall ((hV p).2 ⟨hp, hpne⟩)
      ((hV q).2 ⟨hq, hqne⟩) hpq
    rw [← (h.frames hp hpne hcp).1, ← (h.frames hq hqne hcq).1] at heq
    exact hdisjoint (mem_frames.2 ⟨hcp, heq⟩) (mem_frames.2 ⟨hcq, rfl⟩)

/-- On a page map that meets the condition exactly the frames of the process are given back. -/
theorem freesUserHalf_of_clearable (hwalked : WalkedTo (start c s cr3) (2 ^ 35) u)
    (hclear : Clearable (pageMap s cr3)) : FreesUserHalf s cr3 u := by
  have hpassed := hwalked.resolve_right fun hbad => hbad.2 hclear.toWalkable
  have hhalf := h.userHalf
  obtain ⟨V, hclosed, hV⟩ := hpassed.closed
  obtain ⟨tables, hperm, htables, hmem⟩ := hclosed.freed
  have hempty {d k : Nat} (hd : d ≤ 3) (hk : k / 512 ^ d < 256) (hne : pageMap s cr3 d k ≠ 0) :
      Emptied 3 (pageMap s cr3) (· ∈ V) d k := hhalf.emptied hclear.occupied hV hd hk hne
  have hzero {d k : Nat} (hd : d ≤ 3) (hk : k / 512 ^ d < 256) : pageMap u.pmm cr3 d k = 0 := by
    rw [hclosed.pageMap_eq hd (lt_trans hk (by decide)), pruned_eq_zero_iff]
    by_cases hne : pageMap s cr3 d k = 0
    · exact .inl hne
    · exact .inr (hempty hd hk hne)
  -- the frames and the tables given back
  have hframe : ∀ f, f ∈ V.flatMap (fun p => c.frames (pageMap s cr3 3 p)) ↔
      ∃ page < 2 ^ 35, pageMap s cr3 3 page ≠ 0 ∧ committed (pageMap s cr3 3 page) = true ∧
        frame (pageMap s cr3 3 page) = f := by
    intro f
    simp only [mem_flatMap, mem_frames, hV]
    constructor
    · rintro ⟨p, ⟨hp, hne⟩, hcommitted, rfl⟩
      exact ⟨p, hp, hne, hcommitted, (h.frames hp hne hcommitted).1.symm⟩
    · rintro ⟨p, hp, hne, hcommitted, rfl⟩
      exact ⟨p, ⟨hp, hne⟩, hcommitted, (h.frames hp hne hcommitted).1⟩
  have htable : ∀ t, t ∈ tables ↔ Live child (· < 256) 3 (pageMap s cr3) t := by
    intro t
    rw [hmem]
    constructor
    · rintro ⟨d, hd, k, ⟨⟨p, hp, -, rfl⟩, -⟩, hchild⟩
      have hlt := ((hV p).1 hp).1
      exact ⟨d, hd, _, user_path (by omega) hd.le, hchild⟩
    · rintro ⟨d, hd, k, hk, hchild⟩
      refine ⟨d, hd, k, hempty hd.le hk ?_, hchild⟩
      intro hzero
      rw [hzero] at hchild
      cases hchild
  refine ⟨hperm.nodup_iff.2 (nodup_append.2 ⟨?_, htables, ?_⟩), fun f => ?_,
    fun page hpage => ?_, fun i hlo hhi => ?_⟩
  · refine nodup_flatMap.2 ⟨fun p _ => ?_, hclosed.nodup.pairwise_of_forall_ne
      fun p hp q hq hpq f hfp hfq => ?_⟩
    · unfold Cpu.frames
      split
      · exact nodup_singleton _
      · exact nodup_nil
    · obtain ⟨hp, hpne⟩ := (hV p).1 hp
      obtain ⟨hq, hqne⟩ := (hV q).1 hq
      obtain ⟨hcp, hfp⟩ := mem_frames.1 hfp
      obtain ⟨hcq, hfq⟩ := mem_frames.1 hfq
      refine hpq (hclear.distinct p hp q hq hpne hqne hcp hcq ?_)
      exact (h.frames hp hpne hcp).1.symm.trans
        (hfp.trans (hfq.symm.trans (h.frames hq hqne hcq).1))
  · rintro f hf t ht rfl
    obtain ⟨p, hp, hne, hcommitted, rfl⟩ := (hframe f).1 hf
    obtain ⟨hraw, hret⟩ := h.frames hp hne hcommitted
    obtain ⟨d, hd, k, hk, hchild⟩ := (htable _).1 ht
    rw [hraw] at hret
    exact hret.not_table ⟨d, hd, k, lt_trans hk (by decide), hchild⟩
  · rw [hperm.mem_iff, mem_append, ← htable, ← hframe]
  · have hroot : pageMap u.pmm cr3 0 (page / 512 ^ 3) = 0 := hzero (by decide) (by simp; omega)
    refine ⟨hzero le_rfl (by omega), ?_⟩
    rw [Paging.walk, hroot, child_zero]
  · -- the slots of the kernel have no pages that were taken out
    have hslot := hclosed.pageMap_eq (d := 0) (k := i) (by decide) (by simpa using hhi)
    rw [pruned_of_not_emptied] at hslot
    · simpa [pageMap, entries, wordAt, Nat.mod_eq_of_lt hhi] using hslot
    · rintro ⟨⟨p, hp, -, hpath⟩, -⟩
      have hlt := ((hV p).1 hp).1
      omega

end

/-- The address space of a user process is taken down exactly, each of its committed frames and
tables once, nothing else, with no user page left and the kernel half untouched, if and only if no
page of a mapped file is without a frame, every table of the last level maps a page that is not
among its first two, no table is empty, and no two committed pages share a frame. -/
theorem freeUserProcessAddressSpace_exact_iff (huser : proc.isUsermode = true)
    (hmap : UserPageMap c s proc.cr3) :
    (∃ u, freeUserProcessAddressSpace c s (some proc) = some (true, u) ∧
      FreesUserHalf s proc.cr3 u) ↔ Clearable (pageMap s proc.cr3) := by
  obtain ⟨u, hret, hwalked⟩ := hmap.walk
  have hcall : freeUserProcessAddressSpace c s (some proc) = some (true, u) := by
    simp [freeUserProcessAddressSpace, huser, hret]
  constructor
  · rintro ⟨u', hret', hfrees⟩
    cases hcall.symm.trans hret'
    exact clearable_of_freesUserHalf hmap hwalked hfrees
  · intro hclear
    exact ⟨u, hcall, freesUserHalf_of_clearable hmap hwalked hclear⟩

/-- The page map with one page in the first table, at the given place in it. -/
def onePageAt (page : Nat) : Pmm :=
  ⟨threeTables.store64 (0x4000 + 8 * page) 0x9007, 0, 0, 1, false, true⟩

variable {page : Nat}

theorem surveyed_onePageAt (hpage : page = 1 ∨ page = 5) :
    Surveyed child (onePageWords page 0x9007) 0x1000 (· < 512) 3 (onePageSurvey page 0x9007) := by
  rcases hpage with rfl | rfl <;> decide

theorem leaf_onePageAt (hpage : page = 1 ∨ page = 5) {p : Nat} (hp : p < 2 ^ 35) :
    pageMap (onePageAt page) 0x1000 3 p = if p = page then 0x9007 else 0 := by
  obtain ⟨-, -, -, -, hleaf⟩ := onePage_spec (surveyed_onePageAt hpage) fun _ h => h
  split
  · rename_i heq
    subst heq
    rcases hpage with rfl | rfl <;> decide
  · rename_i hne
    exact (hleaf p (by omega)).resolve_right fun h => hne h.1

theorem userPageMap_onePageAt (hpage : page = 1 ∨ page = 5) :
    UserPageMap smallCpu (onePageAt page) 0x1000 := by
  obtain ⟨htree, hnull, hlive, hclean, -⟩ := onePage_spec (surveyed_onePageAt hpage) fun _ h => h
  have hdead : ¬ Live child (· < 512) 3 (pageMap (onePageAt page) 0x1000) 0 := fun ht => by
    have := hlive 0 ht
    omega
  refine ⟨fun addrs haddrs => ⟨by decide, htree, by decide, by decide, hnull, hdead, rfl, rfl,
    nofun, hdead, fun a ha d hd => (hclean d hd _ (key_path a hd.le)).1, fun a ha => ?_,
    fun a ha hne _ => ?_⟩, fun p hp => ?_⟩
  · have hkey := key_user (haddrs a ha)
    rw [leaf_onePageAt hpage (by omega)]
    split
    · exact .inr (.inl (by decide))
    · exact .inl rfl
  · have hkey := key_user (haddrs a ha)
    rw [leaf_onePageAt hpage (by omega)] at hne ⊢
    split at hne
    · rename_i heq
      rw [if_pos heq]
      exact ⟨by decide, by decide, by decide, fun ht => absurd (hlive _ ht) (by decide)⟩
    · exact absurd rfl hne
  · rw [leaf_onePageAt hpage hp]
    split
    · decide
    · decide

theorem leaf_onePageAt_ne (hpage : page = 1 ∨ page = 5) {p : Nat} (hp : p < 2 ^ 35) :
    pageMap (onePageAt page) 0x1000 3 p ≠ 0 ↔ p = page := by
  rw [leaf_onePageAt hpage hp]
  split
  · simp [*]
  · simp [*]

/-- The page map with the sixth page meets the condition. -/
theorem clearable_onePageAt : Clearable (pageMap (onePageAt 5) 0x1000) := by
  obtain ⟨-, -, -, hclean, -⟩ := onePage_spec (surveyed_onePageAt (.inr rfl)) fun _ h => h
  have hleaf {p : Nat} (hp : p < 2 ^ 35) := leaf_onePageAt_ne (.inr rfl) hp
  have hmapped := (hleaf (p := 5) (by decide)).2 rfl
  refine ⟨⟨fun p hp => ?_, fun k hk => ?_⟩, fun d hd k hk hchild => ⟨5, ?_, hmapped⟩,
    fun p hp q hq hpne hqne _ _ _ => ((hleaf hp).1 hpne).trans ((hleaf hq).1 hqne).symm⟩
  · rw [leaf_onePageAt (.inr rfl) hp]
    split
    · decide
    · decide
  · rintro ⟨p, hp, hne⟩
    rw [hleaf (by omega)] at hne
    exact ⟨5, hne ▸ hp, by decide, hmapped⟩
  · rw [(hclean d hd k (lt_trans hk (by decide))).2 fun hzero => ?_]
    · exact Nat.div_eq_of_lt (lt_of_lt_of_le (by decide) (Nat.le_self_pow (by omega) 512))
    · exact hchild ((congrArg child hzero).trans child_zero)

/-- A process with one page, the sixth of its table. -/
theorem freeUserProcessAddressSpace_exact_iff_onePageAt :
    Clearable (pageMap (onePageAt 5) 0x1000) ∧
      ∃ u, freeUserProcessAddressSpace smallCpu (onePageAt 5) (some ⟨0x1000, true⟩) =
        some (true, u) ∧
        FreesUserHalf (onePageAt 5) 0x1000 u := by
  have hmap := userPageMap_onePageAt (.inr rfl)
  exact ⟨clearable_onePageAt,
    (freeUserProcessAddressSpace_exact_iff rfl hmap).2 clearable_onePageAt⟩

/-- A process whose only page is the second of its table: the walk gives back a frame that is not
one of its own. -/
theorem freeUserProcessAddressSpace_frees_stray :
    UserPageMap smallCpu (onePageAt 1) 0x1000 ∧
      ∃ u, freeUserProcessAddressSpace smallCpu (onePageAt 1) (some ⟨0x1000, true⟩) =
        some (true, u) ∧
        Stray u ∧ ¬ FreesUserHalf (onePageAt 1) 0x1000 u := by
  have hmap := userPageMap_onePageAt (.inl rfl)
  obtain ⟨u, hret, hwalked⟩ := hmap.walk
  have hwalk : ¬ Walkable (pageMap (onePageAt 1) 0x1000) := by
    intro hwalk
    obtain ⟨q, hq, hq2, hne⟩ := hwalk.later 0 (by decide)
      ⟨1, rfl, (leaf_onePageAt_ne (.inl rfl) (by decide)).2 rfl⟩
    rw [leaf_onePageAt_ne (.inl rfl) (by omega)] at hne
    omega
  refine ⟨hmap, u, by simp [freeUserProcessAddressSpace, hret], ?_, fun hfrees =>
    hwalk (clearable_of_freesUserHalf hmap hwalked hfrees).toWalkable⟩
  rcases hwalked with hpassed | hbad
  · exact absurd ⟨hpassed.noFiles, fun k hk => hpassed.later k (by omega)⟩ hwalk
  · exact hbad.1

end Contract

end Obos.Paging
