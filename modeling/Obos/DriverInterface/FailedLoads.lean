import Obos.DriverInterface.Segments
import Obos.Paging.FreedFrames

/-!
# Drivers that cannot be relocated

Where a record cannot be applied, `LoadModuleAndRelocate` gives the pages of the image back and
fails. `VirtualFree` takes a size in bytes, and is given the number of pages.
-/

namespace Obos.DriverInterface

open Lib Lib.TableTree Loader Paging Physical
open Ehdr (ePhnum ePhoff)

/-- The pages the driver has got. -/
def imagePages (env : Environment) (file : File) : Nat :=
  if (env.virtualAlloc (nPagesTotal file * 4096)).isSome then nPagesTotal file else 0

/-- The memory of the kernel after `LoadModuleAndRelocate`, and the frames it gave back at its exit.
The exits for a record that cannot be applied call `VirtualFree(baseAddress, nPagesTotal)`. -/
def exitMemory (c : Cpu) (s : Pmm) (proc : Process) (env : Environment) (file : File) :
    Load Unmapping := do
  let (_, size, _) ← loadSegments env file
  match (loadModuleAndRelocate env file).run with
  | some (.ok _) => return ⟨s, []⟩
  | some (.error .fault) => throw .fault
  | some (.error _) =>
    match virtualFree c s proc (env.baseAddress size) (size / 4096) with
    | some (.ok u) => return u
    | some (.error _) => return ⟨s, []⟩
    | none => within False ⟨s, []⟩
  | none => within False ⟨s, []⟩

/-- The pages of a region are mapped in the page map of the kernel. -/
structure RegionMapped (c : Cpu) (s : Pmm) (proc : Process) (base nPages : Nat) : Prop where
  kernel : proc.isUsermode = false
  unmappable : Unmappable c s proc.cr3 (pagesFrom base nPages)
  freeable : Freeable c s.mem proc.cr3 base nPages

/-- The pages of the driver are unmapped, exactly their frames and those of the tables that became
empty are given back, and the other pages are mapped as before. -/
def Restored (env : Environment) (file : File) (s : Pmm) (cr3 : Nat) (u : Unmapping) : Prop :=
  (∀ page, PageIn (imageBase env file) (imagePages env file) page → pageMap u.pmm cr3 3 page = 0) ∧
    FreesExactly (pageMap s cr3) (pageMap u.pmm cr3) u.freed (imageBase env file)
      (imagePages env file)

section Restored

variable {c : Cpu} {s : Pmm} {proc : Process} {env : Environment} {file : File} {base n : Nat}

/-- The first pages of a region are mapped. -/
theorem RegionMapped.take {k : Nat} (h : RegionMapped c s proc base n) (hn : n < 2 ^ 52)
    (hk : k ≤ n) : RegionMapped c s proc base k := by
  have hsub : ∀ a ∈ pagesFrom base k, a ∈ pagesFrom base n := by
    intro a ha
    obtain ⟨i, hi, rfl⟩ := List.mem_map.1 ha
    rw [Nat.mod_eq_of_lt (by omega), List.mem_range] at hi
    exact mem_pagesFrom hn (by omega)
  have hall := h.unmappable
  have hpages := h.freeable
  exact ⟨h.kernel,
    { hall with
      clean := fun a ha => hall.clean a (hsub a ha)
      leaf := fun a ha => hall.leaf a (hsub a ha)
      frames := fun a ha => hall.frames a (hsub a ha) },
    ⟨fun i hi => hpages.mapped i (by omega),
      fun i hi j hj => hpages.distinct i (by omega) j (by omega)⟩⟩

/-- `VirtualFree` for pages of the kernel that are all mapped. -/
theorem RegionMapped.virtualFree {size : Nat} (h : RegionMapped c s proc base (sizeToPages size))
    (hpos : 0 < base) (hbase : base % 4096 = 0) (hn : sizeToPages size < 2 ^ 52)
    (hsize : size ≠ 0) :
    ∃ u, virtualFree c s proc base size = some (.ok u) ∧
      Closed (start c s proc.cr3) ((pagesFrom base (sizeToPages size)).map key) u := by
  have hpage := pageOf_of_aligned hbase
  have hne : 0 < sizeToPages size := by
    unfold sizeToPages
    split <;> omega
  obtain ⟨u, hloop, hclosed⟩ := h.freeable.loop hbase hn h.unmappable
  obtain ⟨hlt, hvalid, hmapped⟩ := h.freeable.mapped 0 hne
  refine ⟨u, virtualFree_eq_ok.2 ?_, hclosed⟩
  rw [hpage]
  refine ⟨hpos.ne', hvalid, by simp [h.kernel], fun hcan => ?_, hloop⟩
  -- the first page is mapped
  rw [canAllocatePages, hpage, List.all_eq_true] at hcan
  have hfirst := hcan _ (mem_pagesFrom hn hne)
  rw [Nat.mod_eq_of_lt hlt, pagesAllocated_one (by omega) hlt, hmapped] at hfirst
  cases hfirst

/-- The first half of a load that is defined returns, and asks for the pages that are counted. -/
theorem returns_loadSegments_of_defined (hlen : file.length < 2 ^ 64)
    (h : Defined (loadModuleAndRelocate env file)) :
    ∃ r, Returns (loadSegments env file) r ∧ r.2.1 = nPagesTotal file * 4096 := by
  simp only [loadModuleAndRelocate, readHeader, readField, defined_within_bind] at h
  obtain ⟨hphoff, hphnum, -, h⟩ := h
  have hload := (defined_bind.1 h).1
  simp only [loadSegments, readHeader, readField, defined_within_bind] at hload
  obtain ⟨-, -, hload⟩ := hload
  simp only [loadSegments, readHeader, readField, returns_within_bind, hphoff, hphnum, true_and]
  by_cases hzero : field file 0 ePhnum = 0
  · simp [hzero, forHeaders, nPagesTotal, countedPages]
  · have hpos := Nat.pos_of_ne_zero hzero
    have htable := tableInside_of_defined exists_returns_countPages (defined_bind.1 hload).1
    simp only [forHeaders_countPages hlen htable (ePhnum_le file) hpos, pure_bind,
      forHeaders_copySegment hlen htable (ePhnum_le file) hpos, defined_within_bind, returns_pure,
      returns_within_bind] at hload ⊢
    exact ⟨_, ⟨hload.1, rfl⟩, rfl⟩

/-- If there are pages, `VirtualFree` takes out all of them exactly if there is one. -/
theorem RegionMapped.restored_iff (h : RegionMapped c s proc base n) (hpos : 0 < base)
    (hbase : base % 4096 = 0) (hn : n < 2 ^ 52) (hne : n ≠ 0) :
    ∃ u, Paging.virtualFree c s proc base n = some (.ok u) ∧
      ((∀ page, PageIn base n page → pageMap u.pmm proc.cr3 3 page = 0) ∧
        FreesExactly (pageMap s proc.cr3) (pageMap u.pmm proc.cr3) u.freed base n ↔ n ≤ 1) := by
  have hle : sizeToPages n ≤ n ∧ (1 < n → sizeToPages n < n) := by
    unfold sizeToPages
    split <;> omega
  have htaken := h.take hn hle.1
  obtain ⟨u, hfree, hclosed⟩ := htaken.virtualFree hpos hbase (by omega) hne
  have hexact := hclosed.exact hbase (by omega) htaken.unmappable htaken.freeable
  refine ⟨u, hfree, fun ⟨hunmapped, _⟩ => ?_, fun hone => ?_⟩
  · by_contra hlarge
    -- the last page is not among those that are taken out
    obtain ⟨hlt, hvalid, hmapped⟩ := h.freeable.mapped (n - 1) (by omega)
    have hcanonical := canonical_key (a := base + 4096 * (n - 1)) (by omega) hvalid
    have hmem : _ ∈ pagesFrom base n := mem_pagesFrom hn (show n - 1 < n by omega)
    rw [Nat.mod_eq_of_lt hlt] at hmem
    have hkept := (hexact.outside (key (base + 4096 * (n - 1))) (key_lt _)
      fun ⟨i, hi, heq⟩ => by omega).1
    rw [hunmapped _ ⟨key_lt _, n - 1, by omega, hcanonical⟩] at hkept
    exact (h.unmappable.pageAllocated_iff hmem).1 hmapped hkept.symm
  · obtain rfl : n = 1 := by omega
    have hkeys := (htaken.freeable.keys hbase (by decide)).2
    refine ⟨fun page hpage => ?_, hexact⟩
    have hvisited := (hkeys page).2 hpage
    rw [hclosed.pageMap_eq le_rfl (by have := hpage.1; omega)]
    exact pruned_of_emptied (emptied_leaf_iff.2 ⟨hvisited, hclosed.mapped page hvisited⟩)

/-- `VirtualFree` rejects a call for no address or no page. -/
theorem virtualFree_eq_error (h : base = 0 ∨ n = 0) :
    ∃ e, Paging.virtualFree c s proc base n = some (.error e) := by
  unfold Paging.virtualFree procVirtualFree
  split_ifs with hzero hvalid huser hcan
  case neg =>
    rcases h with rfl | rfl
    · exact absurd rfl hzero
    · exact absurd rfl hcan
  all_goals exact ⟨_, rfl⟩

/-- **A load that fails** gives the pages of the driver back exactly if it has got one page at
most. -/
theorem failedLoad_restores_iff (hlen : file.length < 2 ^ 64) {e : LoaderError}
    (hfail : (loadModuleAndRelocate env file).run = some (.error e)) (hexit : e ≠ .fault)
    (hmapped : RegionMapped c s proc (imageBase env file) (imagePages env file)) :
    ∃ u, Returns (exitMemory c s proc env file) u ∧
      (Restored env file s proc.cr3 u ↔ imagePages env file ≤ 1) := by
  obtain ⟨⟨file', size, segments⟩, hload, hsize⟩ := returns_loadSegments_of_defined hlen
    (show Defined (loadModuleAndRelocate env file) by simp [Defined, hfail])
  obtain rfl : size = nPagesTotal file * 4096 := hsize
  have hpages : nPagesTotal file * 4096 / 4096 = nPagesTotal file :=
    Nat.mul_div_cancel _ (by decide)
  simp only [exitMemory, returns_bind]
  by_cases hzero : imagePages env file = 0
  · -- no pages: the call is rejected
    obtain ⟨e', hfree⟩ := @virtualFree_eq_error c s proc (imageBase env file)
        (nPagesTotal file) <| by
      unfold imagePages at hzero
      split at hzero
      · exact .inr hzero
      · exact .inl (by simp_all [imageBase, Environment.baseAddress])
    refine ⟨⟨s, []⟩, ⟨_, hload, ?_⟩, iff_of_true ⟨?_, List.nodup_nil, fun f => ?_,
      fun _ _ _ => ⟨rfl, rfl⟩⟩ (by omega)⟩
    · simp only [hfail, hpages]
      rw [← imageBase, hfree]
      exact returns_pure.2 rfl
    · rintro page ⟨-, i, hi, -⟩
      omega
    · refine iff_of_false List.not_mem_nil ?_
      rintro (⟨page, -, ⟨-, i, hi, -⟩, -⟩ | ⟨_, _, _, ⟨⟨page, ⟨-, i, hi, -⟩, -⟩, -⟩, -⟩) <;> omega
  · obtain ⟨hn, region, hregion⟩ : imagePages env file = nPagesTotal file ∧
        ∃ region, env.virtualAlloc (nPagesTotal file * 4096) = some region := by
      unfold imagePages at hzero ⊢
      split at hzero
      · rename_i hsome
        exact ⟨if_pos hsome, Option.isSome_iff_exists.1 hsome⟩
      · exact absurd rfl hzero
    have hbase : imageBase env file = region.base := baseAddress_of_some hregion
    obtain ⟨base, hpos, haligned, hfits⟩ := region
    obtain ⟨u, hfree, hiff⟩ := hmapped.restored_iff (hbase ▸ hpos) (hbase ▸ haligned) (by omega)
      hzero
    refine ⟨u, ⟨_, hload, ?_⟩, hiff⟩
    simp only [hfail, hpages]
    rw [← imageBase, ← hn, hfree]
    exact returns_pure.2 rfl

end Restored

/-- A driver with program headers of the given types, a dynamic table, and a record of the type
`R_AMD64_GOT32`, which is not supported. -/
def gotDriver (first second : BitVec 64) : File :=
  smallEhdr 64 0 3 0 ++ smallPhdr first 232 0 16 ++ smallPhdr second 232 0 16 ++
    smallPhdr 2 232 0 16 ++ toBytes 8 8 ++ toBytes 8 24 ++ toBytes 8 7 ++ toBytes 8 280 ++
    List.replicate 24 0 ++ toBytes 8 3 ++ List.replicate 16 0

/-- The kernel gives the driver pages from `0x5000` on. -/
def lowEnvironment : Environment :=
  { smallEnvironment with
    virtualAlloc := fun size =>
      if h : size ≤ 2 ^ 20 then some ⟨0x5000, by decide, by decide, by omega⟩ else none }

/-- The second header asks for one page. -/
theorem failedLoad_restores_iff_one_page :
    ∃ u, Returns (exitMemory smallCpu onePage ⟨0x1000, false⟩ lowEnvironment (gotDriver 2 1)) u ∧
      Restored lowEnvironment (gotDriver 2 1) onePage 0x1000 u := by
  have hone : imagePages lowEnvironment (gotDriver 2 1) = 1 := by decide +kernel
  have hbase : imageBase lowEnvironment (gotDriver 2 1) = 0x5000 := by decide +kernel
  have herror : (loadModuleAndRelocate lowEnvironment (gotDriver 2 1)).run.map
      (fun | .error e => some e | .ok _ => none) = some (some .unimplementedFeature) := by
    decide +kernel
  obtain ⟨r, hr, he⟩ := Option.map_eq_some_iff.1 herror
  cases r with
  | ok m => cases he
  | error e =>
    obtain rfl := Option.some.inj he
    obtain ⟨u, hu, hiff⟩ := @failedLoad_restores_iff smallCpu onePage ⟨0x1000, false⟩ _ _
      (by decide +kernel) _ hr (by decide) <| by
        rw [hbase, hone]
        exact ⟨rfl, unmappable_onePage fun a ha => .inl (by simpa [pagesFrom] using ha),
          freeable_onePage⟩
    exact ⟨u, hu, hiff.2 hone.le⟩

/-- Two pages of the kernel, from `0x5000` on. -/
def twoPages : Pmm := { onePage with mem := onePage.mem.store64 0x4030 0xa007 }

/-- The first header is counted twice. Its second page stays mapped. -/
theorem failedLoad_keeps_page :
    isOk (loadModuleAndRelocate lowEnvironment (gotDriver 1 2)) = false ∧
    imagePages lowEnvironment (gotDriver 1 2) = 2 ∧
    ∃ u, Returns (exitMemory smallCpu twoPages ⟨0x1000, false⟩ lowEnvironment (gotDriver 1 2)) u ∧
      pageMap u.pmm 0x1000 3 6 = 0xa007 ∧
      ¬ Restored lowEnvironment (gotDriver 1 2) twoPages 0x1000 u := by
  have htwo : imagePages lowEnvironment (gotDriver 1 2) = 2 := by decide +kernel
  refine ⟨by decide +kernel, htwo, ?_⟩
  have hkept : (exitMemory smallCpu twoPages ⟨0x1000, false⟩ lowEnvironment (gotDriver 1 2)).run.map
      (fun r => r.toOption.map fun u => pageMap u.pmm 0x1000 3 6) = some (some 0xa007) := by
    decide +kernel
  obtain ⟨r, hr, hmap⟩ := Option.map_eq_some_iff.1 hkept
  cases r with
  | error e => cases hmap
  | ok u =>
    have hsix : pageMap u.pmm 0x1000 3 6 = 0xa007 := Option.some.inj hmap
    refine ⟨u, hr, hsix, fun hrestored => ?_⟩
    have hunmapped := hrestored.1 6 ⟨by decide, 1, by rw [htwo]; decide, rfl⟩
    rw [hsix] at hunmapped
    cases hunmapped

end Obos.DriverInterface
