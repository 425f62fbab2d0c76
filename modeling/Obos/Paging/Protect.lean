import Obos.Lib.Run
import Obos.Paging.Structures

/-!
# Changing the protection of pages

`VirtualProtect` accepts a range if one of its pages is mapped, and then writes
the entry of every page the loop visits: it keeps the frame, makes the entry
present, and replaces the protection flags. `Preserved` is what its callers
rely on, that translations and the entries of other pages stay as they are.
Since the loop does not ask whether the page it is at is mapped, and counts
addresses modulo `2 ^ 64`, this holds for some ranges only;
`virtualProtect_preserves_iff` says for which.
-/

namespace Obos.Paging

open Lib Lib.TableTree Physical Option

/-! ## The program -/

/-- The entry `_Impl_ProcVirtualProtect` writes for a page with the given entry. -/
def protectEntry (c : Cpu) (flags entry : BitVec 64) : BitVec 64 :=
  if hasBit entry 9 then bit 0 ||| flags <<< 52 ||| bit 9 ||| bit 63
  else (entry &&& c.physAddrMask) ||| decodeProtectionFlags c flags ||| bit 0

/-- The body of the loop of `_Impl_ProcVirtualProtect`. -/
def protectPage (c : Cpu) (fuel cr3 : Nat) (flags : BitVec 64) (s : Pmm) (addr : Nat) :
    Option Pmm := do
  let pageMapPhys := c.rawPtr (getL2PageMapEntryAt c s.mem cr3 addr)
  let entry := s.mem.load64 (pageMapPhys + 8 * addressToIndex addr 0)
  let newEntry := protectEntry c flags entry
  let (pageMap, s) ← allocatePagingStructures c fuel s cr3 addr
    (decodeProtectionFlags c flags ||| bit 0)
  some { s with mem := s.mem.store64 (pageMap + 8 * addressToIndex addr 0) newEntry }

/-- `_Impl_ProcVirtualProtect`. -/
def procVirtualProtect (c : Cpu) (fuel : Nat) (s : Pmm) (proc : Process) (base nPages : Nat)
    (flags : BitVec 64) : Option (Except Error Pmm) :=
  if !isValidAddress base then some (.error .invalidParameter)
  else if 0xffff800000000000 < base && proc.isUsermode then some (.error .accessDenied)
  else if canAllocatePages c s.mem proc.cr3 base nPages then some (.error .addressUnmapped)
  else ((pagesFrom (pageOf base) nPages).foldlM
    (protectPage c fuel proc.cr3 (flags &&& protAllBitsSet)) s).map .ok

/-- `VirtualAllocator::VirtualProtect`. -/
def virtualProtect (c : Cpu) (fuel : Nat) (s : Pmm) (proc : Process) (base size : Nat)
    (flags : BitVec 64) : Option (Except Error Pmm) :=
  if pageOf base = 0 then some (.error .invalidParameter)
  else procVirtualProtect c fuel s proc (pageOf base) (sizeToPages size) flags

/-! ## The entries that are written -/

section Entry

variable {c : Cpu} {flags entry : BitVec 64}

theorem tableFlags_decode (c : Cpu) (flags : BitVec 64) :
    TableFlags (decodeProtectionFlags c flags ||| bit 0) := by
  refine ⟨by simp, fun i hlo hhi => ?_⟩
  have h (j : Nat) (hj : j < 6 ∨ j = 63) : ¬ j = i := by omega
  simp [decodeProtectionFlags, h 0, h 1, h 2, h 4, h 63]

theorem hasBit_protectEntry_zero : hasBit (protectEntry c flags entry) 0 = true := by
  unfold protectEntry
  split <;> simp

/-- The entry written is demand-paged if the old one was. -/
theorem hasBit_protectEntry_nine : hasBit (protectEntry c flags entry) 9 = hasBit entry 9 := by
  unfold protectEntry
  split
  · rename_i h
    simp [h]
  · rename_i h
    simp [h, decodeProtectionFlags, hasBit_physAddrMask]

/-- The address in an entry is kept. -/
theorem protectEntry_and_physAddrMask (hc : c.physAddrBits ≤ 51) (h9 : ¬ hasBit entry 9 = true) :
    protectEntry c flags entry &&& c.physAddrMask = entry &&& c.physAddrMask := by
  refine eq_of_hasBit_eq fun i hi => ?_
  have hclear := (tableFlags_decode c flags).clear i
  simp only [hasBit_or] at hclear
  rw [protectEntry, if_neg h9]
  simp only [hasBit_or, hasBit_and, hasBit_physAddrMask, hi, decide_true, Bool.true_and]
  by_cases hmask : 12 ≤ i ∧ i < c.physAddrBits + 12
  · have hflags := hclear (by omega) (by omega)
    rw [Bool.or_eq_false_iff] at hflags
    simp [hmask, hflags.1, hflags.2]
  · simp [hmask]

/-- Protecting a page twice with the same flags is protecting it once. -/
theorem protectEntry_idem :
    protectEntry c flags (protectEntry c flags entry) = protectEntry c flags entry := by
  have h9' : hasBit (protectEntry c flags entry) 9 = hasBit entry 9 := hasBit_protectEntry_nine
  by_cases h9 : hasBit entry 9 = true
  · rw [protectEntry, h9', if_pos h9, protectEntry, if_pos h9]
  · rw [protectEntry, h9', if_neg h9, protectEntry, if_neg h9]
    -- a flag in the range of the mask is there already
    refine eq_of_hasBit_eq fun i hi => ?_
    simp only [hasBit_or, hasBit_and]
    cases hasBit (decodeProtectionFlags c flags) i <;> cases hasBit (bit 0) i <;>
      cases hasBit c.physAddrMask i <;> simp

/-- Bits of an entry for a frame below the limit of physical memory. -/
theorem hasBit_of_frame_lt (hlt : frame entry < 2 ^ c.physAddrBits) {i : Nat} (hlo : 12 ≤ i)
    (hhi : i < 52) (hset : hasBit entry i = true) : i < c.physAddrBits := by
  by_contra hge
  have hfalse : (entry &&& frameMask).toNat.testBit i = false :=
    Nat.testBit_lt_two_pow (lt_of_lt_of_le hlt (Nat.pow_le_pow_right (by decide) (by omega)))
  have htrue : hasBit (entry &&& frameMask) i = true := by
    simp [hset, hasBit_frameMask, hlo, hhi]
  rw [BitVec.testBit_toNat] at hfalse
  rw [hasBit] at htrue
  rw [hfalse] at htrue
  cases htrue

/-- A page that is not demand-paged keeps its frame, and a demand-paged one is left with none. -/
theorem frame_protectEntry (hlt : frame entry < 2 ^ c.physAddrBits) :
    frame (protectEntry c flags entry) = if hasBit entry 9 then 0 else frame entry := by
  have hdecode := (tableFlags_decode c flags).clear
  simp only [hasBit_or, Bool.or_eq_false_iff] at hdecode
  split
  · rename_i h9
    have hzero : protectEntry c flags entry &&& frameMask = 0 := by
      refine eq_of_hasBit_eq fun i hi => ?_
      rw [hasBit_and, hasBit_frameMask, show (0 : BitVec 64) = 0#64 from rfl]
      by_cases hin : 12 ≤ i ∧ i < 52
      · have h0 : ¬ 0 = i := by omega
        have h9' : ¬ 9 = i := by omega
        have h63 : ¬ 63 = i := by omega
        simp [protectEntry, h9, h0, h9', h63, hin.2]
      · simp [hin]
    rw [frame, hzero]
    rfl
  · rename_i h9
    have hsame : protectEntry c flags entry &&& frameMask = entry &&& frameMask := by
      refine eq_of_hasBit_eq fun i hi => ?_
      rw [hasBit_and, hasBit_and, hasBit_frameMask]
      by_cases hin : 12 ≤ i ∧ i < 52
      · obtain ⟨hd, h0⟩ := hdecode i (by omega) (by omega)
        have hmask : hasBit entry i = true → i < c.physAddrBits + 12 := fun hset => by
          have := hasBit_of_frame_lt hlt hin.1 hin.2 hset
          omega
        cases hset : hasBit entry i with
        | true => simp [protectEntry, h9, hset, hasBit_physAddrMask, hi, hin, hmask hset]
        | false => simp [protectEntry, h9, hset, hd, h0]
      · simp [hin]
    rw [frame, frame, hsame]

end Entry

/-! ## The loop -/

/-- What the loop has done to a page map after it visited the given pages: it wrote their leaf
entries, and made or widened the entries above them. -/
structure Protected (c : Cpu) (flags : BitVec 64) (E E' : Entries) (visited : List Nat) : Prop where
  leaf_other : ∀ k, k ∉ visited → E' 3 k = E 3 k
  leaf : ∀ k ∈ visited, E' 3 k = protectEntry c flags (E 3 k)
  table_other : ∀ d < 3, ∀ k, (∀ p ∈ visited, k ≠ p / 512 ^ (3 - d)) → E' d k = E d k
  table : ∀ d < 3, ∀ p ∈ visited,
    KeepsTable c d (E d (p / 512 ^ (3 - d))) (E' d (p / 512 ^ (3 - d)))

section Loop

variable {c : Cpu} {cr3 fuel : Nat} {R : Nat → Prop} {s s' : Pmm} {E E1 E2 : Entries}
  {used : Set Nat} {flags : BitVec 64} {visited : List Nat}

theorem Protected.refl (c : Cpu) (flags : BitVec 64) (E : Entries) : Protected c flags E E [] :=
  ⟨fun _ _ => rfl, by simp, fun _ _ _ _ => rfl, by simp⟩

section

variable (h : Protected c flags E E1 visited)
include h

/-- An entry above the leaves keeps its table. -/
theorem Protected.keep {d k : Nat} (hd : d < 3) :
    E1 d k = E d k ∨ KeepsTable c d (E d k) (E1 d k) := by
  by_cases hpath : ∀ p ∈ visited, k ≠ p / 512 ^ (3 - d)
  · exact .inl (h.table_other d hd k hpath)
  · push Not at hpath
    obtain ⟨p, hp, rfl⟩ := hpath
    exact .inr (h.table d hd p hp)

/-- One more page. -/
theorem Protected.visit {page : Nat} (hwalk : Walked c E1 E2 page) :
    Protected c flags E (set E2 3 page (protectEntry c flags (E 3 page))) (visited ++ [page]) := by
  refine ⟨fun k hk => ?_, fun k hk => ?_, fun d hd k hk => ?_, fun d hd p hp => ?_⟩
  · simp only [List.mem_append, List.mem_singleton, not_or] at hk
    rw [set_other (fun hn => hk.2 hn.2), hwalk.leaf, h.leaf_other k hk.1]
  · by_cases hkp : k = page
    · subst hkp
      rw [set_same]
    · simp only [List.mem_append, List.mem_singleton, hkp, or_false] at hk
      rw [set_other (fun hn => hkp hn.2), hwalk.leaf, h.leaf k hk]
  · rw [set_other (fun hn => by omega), hwalk.other d hd k (hk page (by simp)),
      h.table_other d hd k fun p hp => hk p (by simp [hp])]
  · rw [set_other (fun hn => by omega)]
    by_cases hnode : p / 512 ^ (3 - d) = page / 512 ^ (3 - d)
    · -- the entry was passed: the walk kept the table it had after the pages before
      rw [hnode]
      obtain ⟨t, hpoints, hnull, hkeep⟩ := hwalk.path d hd
      refine ⟨t, hpoints, hnull, fun hne => ?_⟩
      obtain ⟨hne', hchild⟩ := child_eq_of_keepsTable (h.keep hd) hne
      rw [← hchild, hkeep hne']
    · have hpage : p ≠ page := fun he => hnode (by rw [he])
      simp only [List.mem_append, List.mem_singleton, hpage, or_false] at hp
      rw [hwalk.other d hd _ hnode]
      exact h.table d hd p hp

end

/-- What one round of the loop does. -/
theorem protectPage_spec (hc : c.physAddrBits ≤ 52) {addr : Nat} (hR : R (key addr / 512 ^ 3))
    (hclean : CleanPath c E (key addr))
    (hready : Ready c cr3 R s E1 used) (hprot : Protected c flags E E1 visited)
    (hret : protectPage c fuel cr3 flags s addr = some s') :
    ∃ E2 used2, Ready c cr3 R s' E2 used2 ∧ Grown cr3 R s E1 used s' E2 used2 ∧
      Protected c flags E E2 (visited ++ [key addr]) := by
  have hclean1 : CleanPath c E1 (key addr) := fun d hd =>
    clean_of_keepsTable (hprot.keep hd) (hclean d hd)
  have hget := getL2PageMapEntryAt_eq hready.tree hready.cr3_le hR (hclean1 0 (by decide))
      (hclean1 1 (by decide))
  unfold protectPage at hret
  rw [addressToIndex_zero, hget] at hret
  simp only [bind, bind_eq_some_iff, some.injEq, Prod.exists] at hret
  obtain ⟨table, s1, hwalk, rfl⟩ := hret
  obtain ⟨E2, used2, hready2, hgrown, hwalked, htable, hlocked⟩ :=
    allocatePagingStructures_spec hc hready hR hclean1 (tableFlags_decode c flags) hwalk
  have hread : s.mem.load64 (c.rawPtr (E1 2 (key addr / 512)) + 8 * (key addr % 512)) =
      E1 3 (key addr) := by
    have hclean2 : Clean c 2 (E1 2 (key addr / 512)) := by simpa using hclean1 2 (by decide)
    rw [hready.tree.word 3 le_rfl _ hR, tableOf]
    rcases hclean2 with hzero | ⟨t, hpoints, -⟩
    · -- there was no table; the entry is read from physical page 0
      have hpool := hready.pool.resolve_left fun hlock => hlocked hlock hzero
      have hraw : c.rawPtr 0 = 0 := by simp [Cpu.rawPtr]
      rw [hzero, child_zero, wordAt]
      exact Memory.load64_eq_zero fun x _ hx => hpool.1.null x (by omega)
    · rw [hpoints.child_eq, wordAt, hpoints.rawPtr_eq]
  have hentry : protectEntry c flags (E1 3 (key addr)) = protectEntry c flags (E 3 (key addr)) := by
    by_cases hseen : key addr ∈ visited
    · rw [hprot.leaf _ hseen, protectEntry_idem]
    · rw [hprot.leaf_other _ hseen]
  rw [hread, hentry]
  obtain ⟨hstored, hleaf⟩ := hready2.storeLeaf hR htable (protectEntry c flags (E 3 (key addr)))
  exact ⟨_, used2, hstored, hgrown.trans hleaf, hprot.visit hwalked.toWalked⟩

/-- What the loop does. -/
theorem protectLoop_spec (hc : c.physAddrBits ≤ 52) {addrs : List Nat}
    (hR : ∀ a ∈ addrs, R (key a / 512 ^ 3)) (hclean : ∀ a ∈ addrs, CleanPath c E (key a))
    (hready : Ready c cr3 R s E used)
    (hret : addrs.foldlM (protectPage c fuel cr3 flags) s = some s') :
    ∃ E' used', Ready c cr3 R s' E' used' ∧ Grown cr3 R s E used s' E' used' ∧
      Protected c flags E E' (addrs.map key) := by
  refine foldlM_invariant hret (fun done s1 => ∃ E1 used1, Ready c cr3 R s1 E1 used1 ∧
    Grown cr3 R s E used s1 E1 used1 ∧ Protected c flags E E1 (done.map key))
    ⟨E, used, hready, .refl, .refl c flags E⟩ ?_
  rintro done a rest s1 s2 rfl ⟨E1, used1, hready1, hgrown1, hprot1⟩ hbody
  obtain ⟨E2, used2, hready2, hgrown2, hprot2⟩ := protectPage_spec hc (hR a (by simp))
    (hclean a (by simp)) hready1 hprot1 hbody
  exact ⟨E2, used2, hready2, hgrown1.trans hgrown2, by simpa using hprot2⟩

end Loop

/-! ## What the callers rely on -/

/-- The contents of the page map of a process. -/
abbrev pageMap (s : Pmm) (cr3 : Nat) : Entries := entries child s.mem cr3

/-- Pages keep their frames, no page becomes present, and the leaf entries of the pages outside the
range stay as they are. -/
structure Preserved (E E' : Entries) (base nPages : Nat) : Prop where
  translation : ∀ page < 512 ^ 4, ∀ f, translate E page = some f → translate E' page = some f
  absent : ∀ page < 512 ^ 4, translate E page = none → translate E' page = none
  outside : ∀ page < 512 ^ 4, ¬ InRange base nPages page →
    E' 3 page = E 3 page ∧ walk E' page = walk E page

/-- The page maps the statement is about: the tables are in use and not shared, the allocator is
locked or has other frames, and the entries above the pages visited are clean and their frames
within the physical address space. -/
structure WellFormed (c : Cpu) (s : Pmm) (cr3 : Nat) (addrs : List Nat) : Prop where
  cpu : c.physAddrBits ≤ 51
  ready : ∃ used, Ready c cr3 (· < 512) s (pageMap s cr3) used
  clean : ∀ a ∈ addrs, ∀ d < 3, Clean c d (pageMap s cr3 d (key a / 512 ^ (3 - d)))
  frames : ∀ a ∈ addrs, hasBit (pageMap s cr3 3 (key a)) 0 = true →
    frame (pageMap s cr3 3 (key a)) < 2 ^ c.physAddrBits

/-- A page that may be visited: it is present, without a frame if it is demand-paged, and if it is
not in the range its entry is already the one that would be written. -/
def Protectable (c : Cpu) (flags : BitVec 64) (E : Entries) (base nPages page : Nat) : Prop :=
  translate E page ≠ none ∧ (hasBit (E 3 page) 9 = true → frame (E 3 page) = 0) ∧
    (¬ InRange base nPages page → protectEntry c flags (E 3 page) = E 3 page)

section Preservation

variable {c : Cpu} {flags : BitVec 64} {E E' : Entries} {base nPages : Nat} {visited : List Nat}

theorem translate_of_tables {page : Nat} (h : ∀ d < 3, child (E d (page / 512 ^ (3 - d))) ≠ none) :
    translate E page = if hasBit (E 3 page) 0 then some (frame (E 3 page)) else none := by
  rw [translate, walk_of_tables h]
  split <;> rfl

section

variable (h : Protected c flags E E' visited)
include h

theorem Protected.tables {page : Nat} (hp : page ∈ visited) :
    ∀ d < 3, child (E' d (page / 512 ^ (3 - d))) ≠ none := by
  intro d hd
  obtain ⟨t, hpoints, -, -⟩ := h.table d hd page hp
  simp [hpoints.child_eq]

theorem Protected.translate_visited {page : Nat} (hp : page ∈ visited) :
    translate E' page = some (frame (protectEntry c flags (E 3 page))) := by
  rw [translate_of_tables (h.tables hp), h.leaf page hp, hasBit_protectEntry_zero, if_pos rfl]

/-- If all pages visited had tables, the walk for a page depends on its leaf as before. -/
theorem Protected.walk_eq (htables : ∀ p ∈ visited, ∀ d < 3, child (E d (p / 512 ^ (3 - d))) ≠ none)
    {page : Nat} (hleaf : E' 3 page = E 3 page) : walk E' page = walk E page := by
  refine walk_congr (fun d hd => ?_) hleaf
  by_cases hpath : ∀ p ∈ visited, page / 512 ^ (3 - d) ≠ p / 512 ^ (3 - d)
  · exact .inl (h.table_other d hd _ hpath)
  · push Not at hpath
    obtain ⟨p, hp, heq⟩ := hpath
    rw [heq]
    exact .inr ⟨h.tables hp d hd, htables p hp d hd⟩

/-- What the loop does is harmless exactly when every page visited is protectable. -/
theorem Protected.preserved_iff (hlt : ∀ p ∈ visited, p < 512 ^ 4)
    (hclean : ∀ p ∈ visited, CleanPath c E p)
    (hframes : ∀ p ∈ visited, hasBit (E 3 p) 0 = true → frame (E 3 p) < 2 ^ c.physAddrBits) :
    Preserved E E' base nPages ↔ ∀ p ∈ visited, Protectable c flags E base nPages p := by
  constructor
  · intro hpres p hp
    have hnow := h.translate_visited hp
    have hpresent : translate E p ≠ none := by
      intro hnone
      rw [hpres.absent p (hlt p hp) hnone] at hnow
      cases hnow
    have hwalk : walk E p ≠ none :=
      fun hnone => hpresent (by rw [translate, hnone, map_none])
    obtain ⟨htables, hbit⟩ := tables_of_walk (hclean p hp) hwalk
    refine ⟨hpresent, fun h9 => ?_, fun hout => ?_⟩
    · have hbefore := translate_of_tables htables
      rw [hbit] at hbefore
      have hsame := hpres.translation p (hlt p hp) _ hbefore
      rw [hnow, frame_protectEntry (hframes p hp hbit), if_pos h9] at hsame
      exact (some_inj.1 hsame).symm
    · rw [← h.leaf p hp]
      exact (hpres.outside p (hlt p hp) hout).1
  · intro hall
    have htables : ∀ p ∈ visited, (∀ d < 3, child (E d (p / 512 ^ (3 - d))) ≠ none) ∧
        hasBit (E 3 p) 0 = true := fun p hp =>
      tables_of_walk (hclean p hp) fun hnone =>
        (hall p hp).1 (by rw [translate, hnone, map_none])
    have htranslate : ∀ page, translate E' page = translate E page := by
      intro page
      by_cases hp : page ∈ visited
      · obtain ⟨htab, hbit⟩ := htables page hp
        rw [h.translate_visited hp, translate_of_tables htab, hbit, if_pos rfl,
          frame_protectEntry (hframes page hp hbit)]
        split
        · rename_i h9
          rw [(hall page hp).2.1 h9]
        · rfl
      · rw [translate, translate, h.walk_eq (fun p hp => (htables p hp).1) (h.leaf_other page hp)]
    refine ⟨fun page _ f hf => by rw [htranslate, hf],
      fun page _ hnone => by rw [htranslate, hnone], fun page _ hout => ?_⟩
    have hleaf : E' 3 page = E 3 page := by
      by_cases hp : page ∈ visited
      · rw [h.leaf page hp, (hall page hp).2.2 hout]
      · exact h.leaf_other page hp
    exact ⟨hleaf, h.walk_eq (fun p hp => (htables p hp).1) hleaf⟩

end

/-- Contents that agree on the paths of pages are preserved alike. -/
theorem Preserved.congr {E'' : Entries} (heq : ∀ d ≤ 3, ∀ k, k / 512 ^ d < 512 → E'' d k = E' d k)
    (h : Preserved E E' base nPages) : Preserved E E'' base nPages := by
  have hpath {page : Nat} (hlt : page < 512 ^ 4) (d : Nat) (hd : d ≤ 3) :
      E'' d (page / 512 ^ (3 - d)) = E' d (page / 512 ^ (3 - d)) :=
    heq d hd _ (page_path hlt hd)
  have hwalk {page : Nat} (hlt : page < 512 ^ 4) : walk E'' page = walk E' page :=
    walk_congr (fun d hd => .inl (hpath hlt d (by omega))) (by simpa using hpath hlt 3 le_rfl)
  refine ⟨fun page hlt f hf => ?_, fun page hlt hnone => ?_, fun page hlt hout => ?_⟩
  · rw [translate, hwalk hlt]
    exact h.translation page hlt f hf
  · rw [translate, hwalk hlt]
    exact h.absent page hlt hnone
  · rw [hwalk hlt, show E'' 3 page = E' 3 page by simpa using hpath hlt 3 le_rfl]
    exact h.outside page hlt hout

/-- A call succeeds if it passes the checks and its loop ends. -/
theorem virtualProtect_eq_ok {fuel size : Nat} {s s' : Pmm} {proc : Process} :
    virtualProtect c fuel s proc base size flags = some (.ok s') ↔
      pageOf base ≠ 0 ∧ isValidAddress (pageOf base) = true ∧
        ¬ (decide (0xffff800000000000 < pageOf base) && proc.isUsermode) = true ∧
        ¬ canAllocatePages c s.mem proc.cr3 (pageOf base) (sizeToPages size) = true ∧
        (pagesFrom (pageOf base) (sizeToPages size)).foldlM
          (protectPage c fuel proc.cr3 (flags &&& protAllBitsSet)) s = some s' := by
  have hpage : pageOf (pageOf base) = pageOf base := pageOf_of_aligned (Nat.mul_mod_left _ _)
  simp only [virtualProtect, procVirtualProtect, ite_error_eq_ok, hpage, map_eq_some_iff,
    Except.ok.injEq, exists_eq_right, Bool.not_eq_true', Bool.not_eq_false, ne_eq]

/-- An accepted call of `VirtualProtect` keeps all translations, makes no page present and changes
no leaf entry outside its range exactly if every page it visits is protectable. -/
theorem virtualProtect_preserves_iff {fuel size : Nat} {s s' : Pmm} {proc : Process}
    (hwf : WellFormed c s proc.cr3 (pagesFrom (pageOf base) (sizeToPages size)))
    (hret : virtualProtect c fuel s proc base size flags = some (.ok s')) :
    Preserved (pageMap s proc.cr3) (pageMap s' proc.cr3) (pageOf base) (sizeToPages size) ↔
      ∀ a ∈ pagesFrom (pageOf base) (sizeToPages size),
        Protectable c (flags &&& protAllBitsSet) (pageMap s proc.cr3) (pageOf base)
          (sizeToPages size) (key a) := by
  obtain ⟨used, hready⟩ := hwf.ready
  have hR : ∀ a ∈ pagesFrom (pageOf base) (sizeToPages size), key a / 512 ^ 3 < 512 := fun a _ => by
    have := key_lt a
    omega
  obtain ⟨E', used', hready', -, hprot⟩ :=
    protectLoop_spec (hwf.cpu.trans (by decide)) hR hwf.clean hready
    (virtualProtect_eq_ok.1 hret).2.2.2.2
  have heq : ∀ d ≤ 3, ∀ k, k / 512 ^ d < 512 → pageMap s' proc.cr3 d k = E' d k :=
    fun d hd k hk => (hready'.tree.eq_entries d hd k hk).symm
  have hiff : Preserved (pageMap s proc.cr3) (pageMap s' proc.cr3) (pageOf base)
      (sizeToPages size) ↔ Preserved (pageMap s proc.cr3) E' (pageOf base) (sizeToPages size) :=
    ⟨Preserved.congr fun d hd k hk => (heq d hd k hk).symm, Preserved.congr heq⟩
  rw [hiff, hprot.preserved_iff (by simpa using fun a _ => key_lt a)
    (by simpa [CleanPath] using hwf.clean) (by simpa using hwf.frames)]
  simp

theorem clean_onePage (a : Nat) {d : Nat} (hd : d < 3) :
    Clean smallCpu d (pageMap onePage 0x1000 d (key a / 512 ^ (3 - d))) := by
  obtain ⟨-, -, -, hclean, -⟩ := onePage_spec surveyed_onePageMapped fun _ h => h
  exact (hclean d hd _ (key_path a hd.le)).1

/-- The page map with one page is well formed for the pages around it. -/
theorem wellFormed_onePage :
    WellFormed smallCpu onePage 0x1000 (pagesFrom (pageOf 0x5000) (sizeToPages 0x1000)) := by
  refine ⟨by decide, ⟨_, ready_onePage⟩, fun a _ d hd => clean_onePage a hd, ?_⟩
  rintro a ha -
  rw [List.mem_singleton.1 ha]
  decide

/-- Making the one page read-only. -/
theorem virtualProtect_preserves_iff_onePage :
    WellFormed smallCpu onePage 0x1000 (pagesFrom (pageOf 0x5000) (sizeToPages 0x1000)) ∧
      ∃ s', virtualProtect smallCpu 1 onePage ⟨0x1000, true⟩ 0x5000 0x1000 protReadOnly =
          some (.ok s') ∧
        (Preserved (pageMap onePage 0x1000) (pageMap s' 0x1000) (pageOf 0x5000)
            (sizeToPages 0x1000) ↔
          ∀ a ∈ pagesFrom (pageOf 0x5000) (sizeToPages 0x1000),
            Protectable smallCpu (protReadOnly &&& protAllBitsSet) (pageMap onePage 0x1000)
              (pageOf 0x5000) (sizeToPages 0x1000) (key a)) := by
  refine ⟨wellFormed_onePage, ?_⟩
  have hreturns : ((virtualProtect smallCpu 1 onePage ⟨0x1000, true⟩ 0x5000 0x1000
      protReadOnly).map fun r => r.toOption.isSome) = some true := by decide +kernel
  obtain ⟨r, hr, hok⟩ := map_eq_some_iff.1 hreturns
  cases r with
  | error e => cases hok
  | ok s' =>
    have hwf := wellFormed_onePage
    exact ⟨s', hr, virtualProtect_preserves_iff hwf hr⟩

/-- The page after the mapped one becomes present if it is protected with it. -/
theorem virtualProtect_maps_hole :
    ∃ s', virtualProtect smallCpu 1 onePage ⟨0x1000, true⟩ 0x5000 0x2000 protUserModeAccess =
        some (.ok s') ∧
      ¬ Preserved (pageMap onePage 0x1000) (pageMap s' 0x1000) (pageOf 0x5000)
        (sizeToPages 0x2000) := by
  have hbefore : translate (pageMap onePage 0x1000) 6 = none := by decide +kernel
  have hafter : ((virtualProtect smallCpu 1 onePage ⟨0x1000, true⟩ 0x5000 0x2000
      protUserModeAccess).map fun r => r.toOption.map fun s' =>
        translate (pageMap s' 0x1000) 6) = some (some (some 0)) := by decide +kernel
  obtain ⟨r, hr, hok⟩ := map_eq_some_iff.1 hafter
  cases r with
  | error e => cases hok
  | ok s' =>
    refine ⟨s', hr, fun hpres => ?_⟩
    have hnone := hpres.absent 6 (by decide) hbefore
    have hsome : some (translate (pageMap s' 0x1000) 6) = some (some 0) := hok
    rw [hnone] at hsome
    cases hsome

end Preservation

end Obos.Paging
