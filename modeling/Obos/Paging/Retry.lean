import Obos.Paging.DemandPaging

/-!
# Accesses that are retried

The CPU repeats an access that faulted once the handler has returned. `Settles` says that
the access then goes through or the handler stops returning to it, after finitely many
faults. `exception14` returns without a change where it takes the entry for one that was
changed since the fault; nothing has changed then if the fault comes from the entry itself
or from one above it, and the access is repeated for ever. `exception14_settles_iff` says
when that does not happen.
-/

namespace Obos.Paging

open Lib Lib.TableTree Physical

/-- An access that is repeated whenever `exception14` returns to it ends: it goes through, or the
handler signals the process or panics. -/
inductive Settles (c : Cpu) (fuel : Nat) (proc : Process) (a : Nat) (k : AccessKind) : Space → Prop
  | permitted {x : Space} {p : Nat} (hok : access c x.pmm.mem proc.cr3 k a = .ok p) :
      Settles c fuel proc a k x
  | signalled {x : Space} {fault : PageFault}
      (hfault : access c x.pmm.mem proc.cr3 k a = .error fault)
      (hret : exception14 c fuel x proc a k fault = some none) : Settles c fuel proc a k x
  | retried {x x' : Space} {fault : PageFault}
      (hfault : access c x.pmm.mem proc.cr3 k a = .error fault)
      (hret : exception14 c fuel x proc a k fault = some (some x'))
      (hrest : Settles c fuel proc a k x') : Settles c fuel proc a k x

/-- `exception14` takes the entry for one that was changed since the access faulted. -/
def AccessKind.ignores (k : AccessKind) (entry : BitVec 64) : Bool :=
  hasBit entry 1 && k.write || hasBit entry 63 && k.execute

/-- The access goes through at once, or the entry of the page is not taken for one that was changed;
for a demand-paged page, it can be committed and the entry it then gets is such. -/
def FaultEnds (c : Cpu) (x : Space) (proc : Process) (a : Nat) (k : AccessKind) : Prop :=
  (∃ p, access c x.pmm.mem proc.cr3 k a = .ok p) ∨
    let entry := getL1PageMapEntryAt c x.pmm.mem proc.cr3 (pageOf a)
    if hasBit entry 9 then
      c.executeDisable = true ∧
        (x.pmm.memoryHead ≠ 0 ∨ SharesTable (pageMap x.pmm proc.cr3) (key a)) ∧
        (k.permits (decodeProtectionFlags c (entry >>> 52)) ∨
          ¬ k.ignores (decodeProtectionFlags c (entry >>> 52)))
    else ¬ k.ignores entry

section Settles

variable {c : Cpu} {fuel a : Nat} {proc : Process} {k : AccessKind} {x : Space}

/-- A fault: it is for the handler to end it, or for the access that is repeated. -/
theorem settles_iff_of_fault {fault : PageFault}
    (hfault : access c x.pmm.mem proc.cr3 k a = .error fault) :
    Settles c fuel proc a k x ↔ exception14 c fuel x proc a k fault = some none ∨
      ∃ x', exception14 c fuel x proc a k fault = some (some x') ∧ Settles c fuel proc a k x' := by
  constructor
  · intro h
    cases h with
    | permitted hok => cases hfault.symm.trans hok
    | signalled hfault' hret =>
      cases hfault.symm.trans hfault'
      exact .inl hret
    | retried hfault' hret hrest =>
      cases hfault.symm.trans hfault'
      exact .inr ⟨_, hret, hrest⟩
  · rintro (hret | ⟨x', hret, hrest⟩)
    · exact .signalled hfault hret
    · exact .retried hfault hret hrest

/-- A fault after which the handler returns without a change comes again and again. -/
theorem not_settles_of_unchanged {fault : PageFault}
    (hfault : access c x.pmm.mem proc.cr3 k a = .error fault)
    (hret : exception14 c fuel x proc a k fault = some (some x)) : ¬ Settles c fuel proc a k x := by
  intro h
  induction h with
  | permitted hok => cases hfault.symm.trans hok
  | signalled hfault' hret' =>
    cases hfault.symm.trans hfault'
    cases hret.symm.trans hret'
  | retried hfault' hret' _ ih =>
    cases hfault.symm.trans hfault'
    cases hret.symm.trans hret'
    exact ih hfault hret

/-- A page that is not demand-paged, in any page map. -/
theorem settles_iff_of_committed (hpresent : access c x.pmm.mem proc.cr3 k a ≠ .error .notPresent)
    (h9 : hasBit (getL1PageMapEntryAt c x.pmm.mem proc.cr3 (pageOf a)) 9 = false) :
    Settles c fuel proc a k x ↔ (∃ p, access c x.pmm.mem proc.cr3 k a = .ok p) ∨
      ¬ k.ignores (getL1PageMapEntryAt c x.pmm.mem proc.cr3 (pageOf a)) := by
  cases hfault : access c x.pmm.mem proc.cr3 k a with
  | ok p => exact ⟨fun _ => .inl ⟨p, rfl⟩, fun _ => .permitted hfault⟩
  | error fault =>
    cases fault with
    | notPresent => exact absurd hfault hpresent
    | protection =>
      have hret : exception14 c fuel x proc a k .protection =
          if k.ignores (getL1PageMapEntryAt c x.pmm.mem proc.cr3 (pageOf a)) then some (some x)
          else some none := by
        simp only [exception14, h9, Bool.false_eq_true, if_false]
        rfl
      cases hignored : k.ignores (getL1PageMapEntryAt c x.pmm.mem proc.cr3 (pageOf a)) with
      | true =>
        rw [hignored] at hret
        simpa using not_settles_of_unchanged hfault hret
      | false =>
        rw [hignored] at hret
        simpa using Settles.signalled hfault hret

end Settles

section Demand

variable {c : Cpu} {fuel cr3 a : Nat} {proc : Process} {k : AccessKind} {x : Space} {s' : Pmm}
  {R : Nat → Prop} {m' : Memory} {E E' : Entries} {v : BitVec 64} {flags : BitVec 64}
  {xs : List Nat}

/-- The entries above a page that was mapped again permit what its leaf does. -/
theorem Replaced.allows {page : Nat} (h : Replaced c cr3 R E page m' E' v)
    (hexec : c.executeDisable = true) : c.allows k E' page = k.permits v := by
  have habove : ∀ d < 3, k.permits v = true → k.permits (E' d (page / 512 ^ (3 - d))) = true := by
    intro d hd hv
    obtain ⟨hwrite, huser, hexecute⟩ := h.rights d hd
    have hmask {i : Nat} (hi : i = 1 ∨ i = 2 ∨ i = 63) :
        hasBit (v &&& 0x800000000000003F) i = hasBit v i := by
      have hset : hasBit (0x800000000000003F : BitVec 64) i = true := by
        rcases hi with rfl | rfl | rfl <;> decide
      rw [hasBit_and, hset, Bool.and_true]
    rw [hmask (by simp)] at hwrite huser hexecute
    simp only [AccessKind.permits, Bool.and_eq_true, Bool.or_eq_true, Bool.not_eq_true'] at hv ⊢
    exact ⟨⟨hv.1.1.imp_right hwrite, hv.1.2.imp_right huser⟩, hv.2.imp_right hexecute⟩
  have hreserves (e : BitVec 64) : c.reserves e = false := by simp [Cpu.reserves, hexec]
  simp only [Cpu.allows, path, List.all_cons, List.all_nil, hreserves, h.leaf, Bool.not_false,
    Bool.and_true]
  cases hv : k.permits v with
  | false => simp
  | true =>
    have h0 := habove 0 (by decide) hv
    have h1 := habove 1 (by decide) hv
    have h2 := habove 2 (by decide) hv
    simp_all

/-- The bits of the entry of a committed page that are not those of its frame. -/
theorem hasBit_committed {f i : Nat} (haligned : f % 4096 = 0) (hf : f < 2 ^ 51) (g : BitVec 64)
    (hi : 0 < i ∧ i < 12 ∨ i = 63) :
    hasBit (BitVec.ofNat 64 f ||| (decodeProtectionFlags c g ||| bit 0)) i =
      hasBit (decodeProtectionFlags c g) i := by
  have hframe : hasBit (BitVec.ofNat 64 f) i = false := by
    by_contra hset
    have := hasBit_ofNat_frame haligned hf (Bool.eq_true_of_not_eq_false hset)
    omega
  rw [hasBit_or, hasBit_or, hframe, hasBit_bit]
  simp [show ¬ 0 = i by omega]

/-- An access to a page that was committed. -/
theorem Replaced.settles_iff {f : Nat} {g : BitVec 64} (hexec : c.executeDisable = true)
    (haligned : f % 4096 = 0) (hf : f < 2 ^ 51)
    (h : Replaced c proc.cr3 (· < 512) E (key a) s'.mem E'
      (BitVec.ofNat 64 f ||| (decodeProtectionFlags c g ||| bit 0))) :
    Settles c fuel proc a k { x with pmm := s' } ↔
      k.permits (decodeProtectionFlags c g) ∨ ¬ k.ignores (decodeProtectionFlags c g) := by
  have hbit {i : Nat} (hi : 0 < i ∧ i < 12 ∨ i = 63) :=
    hasBit_committed (c := c) haligned hf g hi
  have hpermits : k.permits (BitVec.ofNat 64 f ||| (decodeProtectionFlags c g ||| bit 0)) =
      k.permits (decodeProtectionFlags c g) := by
    simp only [AccessKind.permits, hbit (i := 1) (by simp), hbit (i := 2) (by simp),
      hbit (i := 63) (by simp)]
  have hignores : k.ignores (BitVec.ofNat 64 f ||| (decodeProtectionFlags c g ||| bit 0)) =
      k.ignores (decodeProtectionFlags c g) := by
    simp only [AccessKind.ignores, hbit (i := 1) (by simp), hbit (i := 63) (by simp)]
  have haccess := h.found.access k
  rw [h.allows hexec, hpermits] at haccess
  have hentry : getL1PageMapEntryAt c s'.mem proc.cr3 (pageOf a) =
      BitVec.ofNat 64 f ||| (decodeProtectionFlags c g ||| bit 0) := by
    rw [← key_pageOf a] at h
    rw [h.found.getL1, h.leaf]
  have h9 : hasBit (getL1PageMapEntryAt c s'.mem proc.cr3 (pageOf a)) 9 = false := by
    rw [hentry, hbit (i := 9) (by simp)]
    simp [decodeProtectionFlags]
  have hpresent : access c s'.mem proc.cr3 k a ≠ .error .notPresent := by
    rw [haccess]
    split
    · intro hok
      cases hok
    · intro herror
      cases herror
  have hsettles : Settles c fuel proc a k { x with pmm := s' } ↔
      (∃ p, access c s'.mem proc.cr3 k a = .ok p) ∨
        ¬ k.ignores (getL1PageMapEntryAt c s'.mem proc.cr3 (pageOf a)) :=
    settles_iff_of_committed (x := { x with pmm := s' }) hpresent h9
  rw [hsettles, hentry, hignores, haccess]
  split
  · rename_i hp
    simp [hp]
  · rename_i hp
    simp [hp]

/-- A fault on a demand-paged page. -/
theorem DemandPage.settles_iff (hfuel : 0 < fuel) (ha : a < 2 ^ 64)
    (h : DemandPage c x.pmm proc.cr3 a flags xs)
    (hfault : access c x.pmm.mem proc.cr3 k a = .error .protection) :
    Settles c fuel proc a k x ↔ c.executeDisable = true ∧
      (x.pmm.memoryHead ≠ 0 ∨ SharesTable (pageMap x.pmm proc.cr3) (key a)) ∧
      (k.permits (decodeProtectionFlags c ((flags ||| protNoCowOnAllocate) &&& protAllBitsSet)) ∨
        ¬ k.ignores
          (decodeProtectionFlags c ((flags ||| protNoCowOnAllocate) &&& protAllBitsSet))) := by
  have haligned : Paging.pageOf a % 4096 = 0 := by
    unfold Paging.pageOf
    omega
  have hlt : Paging.pageOf a < 2 ^ 64 := by
    unfold Paging.pageOf
    omega
  have hhead : x.pmm.memoryHead = 0 ↔ xs = [] := h.list.list.head_eq_null_iff
  have hhang (hnone : commitDemandPage c fuel x.pmm proc.cr3 (Paging.pageOf a)
      (demandPagingEntry (flags &&& protAllBitsSet)) = none) : ¬ Settles c fuel proc a k x := by
    rw [settles_iff_of_fault hfault, h.exception14_eq, hnone]
    simp
  have hretry {s' : Pmm} (hret : commitDemandPage c fuel x.pmm proc.cr3 (Paging.pageOf a)
      (demandPagingEntry (flags &&& protAllBitsSet)) = some s') :
      Settles c fuel proc a k x ↔ Settles c fuel proc a k { x with pmm := s' } := by
    rw [settles_iff_of_fault hfault, h.exception14_eq, hret]
    simp
  cases hexec : c.executeDisable with
  | false =>
    have hnone := hhang (h.pageOf.commits_reserved fuel hlt hexec)
    simp [hnone]
  | true =>
    by_cases hfree : xs = []
    · subst hfree
      by_cases hshared : SharesTable (pageMap x.pmm proc.cr3) (key a)
      · obtain ⟨s', E', hret, hreplaced⟩ := h.pageOf.commits_null haligned hlt hexec hfuel
          (by rwa [key_pageOf])
        rw [key_pageOf] at hreplaced
        rw [hretry hret, hreplaced.settles_iff hexec (by decide) (by decide)]
        simp [hshared]
      · have hnone := hhang (h.pageOf.commits_none haligned hlt hexec hfuel (by rwa [key_pageOf]))
        simp [hnone, hshared, hhead]
    · obtain ⟨f, s1, s', E', halloc, hf, hret, hreplaced, -⟩ :=
        h.pageOf.commits haligned hlt hexec hfree hfuel
      have hbound : f < 2 ^ 51 :=
        (h.free f hf).1.trans_le (Nat.pow_le_pow_right (by decide) h.cpu)
      rw [key_pageOf] at hreplaced
      rw [hretry hret, hreplaced.settles_iff hexec (h.ready.allocate halloc).aligned hbound]
      simp [hhead, hfree]

/-- An access to a present page that is repeated whenever `exception14` returns ends after finitely
many faults exactly if it goes through at once, or the entry it meets is not one the handler takes
for changed. -/
theorem exception14_settles_iff (x : Space) (proc : Process) (k : AccessKind) (hfuel : 0 < fuel)
    (ha : a < 2 ^ 64) (hpresent : access c x.pmm.mem proc.cr3 k a ≠ .error .notPresent)
    (hdemand : hasBit (getL1PageMapEntryAt c x.pmm.mem proc.cr3 (pageOf a)) 9 = true →
      ∃ flags xs, DemandPage c x.pmm proc.cr3 a flags xs) :
    Settles c fuel proc a k x ↔ FaultEnds c x proc a k := by
  unfold FaultEnds
  cases h9 : hasBit (getL1PageMapEntryAt c x.pmm.mem proc.cr3 (pageOf a)) 9 with
  | false => simpa [h9] using settles_iff_of_committed hpresent h9
  | true =>
    obtain ⟨flags, xs, h⟩ := hdemand h9
    have hentry : getL1PageMapEntryAt c x.pmm.mem proc.cr3 (pageOf a) =
        demandPagingEntry (flags &&& protAllBitsSet) := by
      rw [h.pageOf.found.getL1, h.pageOf.leaf]
    simp only [hentry, decodeProtectionFlags_demandPagingEntry, hasBit_demandPagingEntry_nine,
      if_true]
    cases hfault : access c x.pmm.mem proc.cr3 k a with
    | ok p => exact ⟨fun _ => .inl ⟨p, rfl⟩, fun _ => .permitted hfault⟩
    | error fault =>
      cases fault with
      | notPresent => exact absurd hfault hpresent
      | protection =>
        rw [h.settles_iff hfuel ha hfault]
        simp

/-- A write to the only page of a page map, which is demand-paged, with one free frame. -/
theorem exception14_settles_iff_oneFrame :
    (0 < 1 ∧ 0x5000 < 2 ^ 64 ∧
      access smallCpu (demandPaged 0x10000).mem 0x1000 kernelWrite 0x5000 ≠ .error .notPresent ∧
      ∃ flags xs, DemandPage smallCpu (demandPaged 0x10000) 0x1000 0x5000 flags xs) ∧
      Settles smallCpu 1 ⟨0x1000, true⟩ 0x5000 kernelWrite ⟨demandPaged 0x10000, []⟩ := by
  have hdemand : ∃ flags xs, DemandPage smallCpu (demandPaged 0x10000) 0x1000 0x5000 flags xs :=
    ⟨0, _, demandPage_oneFrame⟩
  have hpresent : access smallCpu (demandPaged 0x10000).mem 0x1000 kernelWrite 0x5000 ≠
      .error .notPresent := by
    rw [demandPage_oneFrame.found.access]
    split
    · exact nofun
    · exact nofun
  refine ⟨⟨by decide, by decide, hpresent, hdemand⟩,
    (exception14_settles_iff ⟨demandPaged 0x10000, []⟩ ⟨0x1000, true⟩ kernelWrite (by decide)
      (by decide) hpresent fun _ => hdemand).2 (.inr ?_)⟩
  exact ⟨rfl, .inl (by decide), .inl (by decide)⟩

/-- The page map with one page that may not be executed. -/
def executeDisabledPage : Pmm :=
  ⟨threeTables.store64 (0x4000 + 8 * 5) 0x8000000000009007, 0, 0, 1, false, true⟩

/-- A user program that jumps to a page that may not be executed faults for ever. -/
theorem execute_faults_forever :
    access smallCpu executeDisabledPage.mem 0x1000 ⟨false, true, true⟩ 0x5000 ≠ .error .notPresent ∧
      ¬ Settles smallCpu 1 ⟨0x1000, true⟩ 0x5000 ⟨false, true, true⟩ ⟨executeDisabledPage, []⟩ := by
  have hpresent : access smallCpu executeDisabledPage.mem 0x1000 ⟨false, true, true⟩ 0x5000 ≠
      .error .notPresent := by
    exact nofun
  have hentry : getL1PageMapEntryAt smallCpu executeDisabledPage.mem 0x1000 (pageOf 0x5000) =
      0x8000000000009007 := by decide +kernel
  refine ⟨hpresent, fun h => ?_⟩
  rcases (settles_iff_of_committed hpresent (by rw [hentry]; decide)).1 h with ⟨p, hok⟩ | hignored
  · cases hok
  · exact hignored (by decide)

end Demand

end Obos.Paging
