import Mathlib.Data.BitVec
import Mathlib.Tactic

/-!
# Choosing the drivers of PCI devices

A driver header has one bit for each subclass and each programming interface it is for.
`ScanPCIBus` takes the bits of such a field from the lowest one on with `bsf`, until it finds the
number of the device. For the upper half of the field `bsf` returns the place in that half, and
for an empty field 64 or zero, so that numbers from 64 on are not found and others are found by
mistake. An empty field is not taken for all programming interfaces either.
-/

namespace Obos.DriverInterface

open Option

/-- The lowest bit that is set in the 64 bits from `start` on. -/
def lowestBit (field : BitVec 128) (start : Nat) : Option Nat :=
  (List.range 64).find? fun i => field.getLsbD (start + i)

/-- `bsf` for an empty lower half. A processor without `tzcnt` leaves the zero in `rax`. -/
def bsfUpper (tzcnt : Bool) (field : BitVec 128) : Nat :=
  (lowestBit field 64).getD (if tzcnt then 64 else 0)

/-- `bsf` of 128 bits. -/
def bsf (tzcnt : Bool) (field : BitVec 128) : Nat :=
  (lowestBit field 0).getD (bsfUpper tzcnt field)

/-- The loop that looks for a number in a field; `none` without enough fuel. -/
def findBit (tzcnt : Bool) (number : Nat) : Nat → BitVec 128 → Option Bool
  | 0, _ => none
  | fuel + 1, field =>
    let c := bsf tzcnt field
    if c = number then some true
    else if field.getLsbD c then findBit tzcnt number fuel (field &&& ~~~BitVec.twoPow 128 c)
    else some false

/-- `pciInfo` of a driver header. -/
structure PciInfo where
  classCode : BitVec 32
  subclass : BitVec 128
  progIf : BitVec 128

/-- `pciDevice`. -/
structure PciDevice where
  classCode : BitVec 8
  subclass : BitVec 8
  progIF : BitVec 8

/-- Whether `ScanPCIBus` selects a driver for a device. -/
def selects (tzcnt : Bool) (fuel : Nat) (info : PciInfo) (dev : PciDevice) : Option Bool := do
  if info.classCode ≠ dev.classCode.setWidth 32 then return false
  if !(← findBit tzcnt dev.subclass.toNat fuel info.subclass) then return false
  findBit tzcnt dev.progIF.toNat fuel info.progIf

/-- The documented choice. -/
def Documented (info : PciInfo) (dev : PciDevice) : Prop :=
  info.classCode = dev.classCode.setWidth 32 ∧ info.subclass.getLsbD dev.subclass.toNat = true ∧
    (info.progIf = 0 ∨ info.progIf.getLsbD dev.progIF.toNat = true)

section Search

variable {tzcnt : Bool} {number : Nat} {field : BitVec 128}

theorem lowestBit_eq_some_iff {start c : Nat} : lowestBit field start = some c ↔
    c < 64 ∧ field.getLsbD (start + c) = true ∧ ∀ j < c, field.getLsbD (start + j) = false := by
  simp [lowestBit, List.find?_range_eq_some]
  tauto

theorem lowestBit_eq_none_iff {start : Nat} : lowestBit field start = none ↔
    ∀ j < 64, field.getLsbD (start + j) = false := by
  simp [lowestBit]

/-- What `bsf` returns last is not the place of a bit. -/
theorem getLsbD_bsfUpper (hlow : ∀ j < 64, field.getLsbD j = false) :
    field.getLsbD (bsfUpper tzcnt field) = false := by
  rw [bsfUpper]
  cases hupper : lowestBit field 64 with
  | some c => exact hlow c (lowestBit_eq_some_iff.1 hupper).1
  | none =>
    cases tzcnt with
    | true => exact lowestBit_eq_none_iff.1 hupper 0 (by decide)
    | false => exact hlow 0 (by decide)

/-- The loop ends, and finds the bits of the lower half and what `bsf` returns after them. -/
theorem findBit_eq {fuel k : Nat} (hk : k ≤ 64) (hbelow : ∀ i < k, field.getLsbD i = false)
    (hfuel : 64 < fuel + k) : findBit tzcnt number fuel field = some (decide
      (number < 64 ∧ field.getLsbD number = true ∨ bsfUpper tzcnt field = number)) := by
  induction fuel generalizing field k with
  | zero => omega
  | succ fuel ih =>
    rw [findBit]
    cases hlow : lowestBit field 0 with
    | none =>
      have hnone j (hj : j < 64) : field.getLsbD j = false := by
        simpa using lowestBit_eq_none_iff.1 hlow j hj
      have hnumber : ¬ (number < 64 ∧ field.getLsbD number = true) := fun h => by
        rw [hnone number h.1] at h
        exact absurd h.2 (by decide)
      simp only [bsf, hlow, getD_none, getLsbD_bsfUpper hnone, hnumber, false_or]
      split <;> simp_all
    | some c =>
      obtain ⟨hc, hbit, hfirst⟩ := lowestBit_eq_some_iff.1 hlow
      simp only [Nat.zero_add] at hbit hfirst
      have hle : k ≤ c := by
        by_contra hlt
        rw [hbelow c (by omega)] at hbit
        cases hbit
      simp only [bsf, hlow, getD_some, hbit, if_true]
      split
      · rename_i heq
        subst heq
        simp [hc, hbit]
      · rename_i hne
        -- the bit is cleared, and nothing else changes
        have hcleared i : (field &&& ~~~BitVec.twoPow 128 c).getLsbD i =
            (field.getLsbD i && !decide (i = c)) := by
          by_cases hi : i < 128
          · simp [hi]
          · simp [BitVec.getLsbD_of_ge field i (by omega)]
        rw [ih (k := c + 1) (by omega) (fun i hi => ?_) (by omega)]
        · have hupper :
              bsfUpper tzcnt (field &&& ~~~BitVec.twoPow 128 c) = bsfUpper tzcnt field := by
            have hsame j : (field &&& ~~~BitVec.twoPow 128 c).getLsbD (64 + j) =
                field.getLsbD (64 + j) := by
              simp [hcleared, show 64 + j ≠ c by omega]
            simp only [bsfUpper, lowestBit, hsame]
          rw [hupper, hcleared]
          simp [Ne.symm hne]
        · by_cases hi' : i = c
          · simp [hcleared, hi']
          · simp [hcleared, hfirst i (by omega)]

/-- What the loop takes for a bit: those of the lower half, and what `bsf` returns at last. -/
def Finds (tzcnt : Bool) (field : BitVec 128) (number : Nat) : Prop :=
  number < 64 ∧ field.getLsbD number = true ∨ bsfUpper tzcnt field = number

instance (tzcnt : Bool) (field : BitVec 128) (number : Nat) :
    Decidable (Finds tzcnt field number) :=
  inferInstanceAs (Decidable (_ ∧ _ ∨ _))

/-- A number whose bit is set is found if it is below 64. -/
theorem finds_iff_lt (hbit : field.getLsbD number = true) :
    Finds tzcnt field number ↔ number < 64 := by
  refine ⟨fun h => h.elim And.left fun hupper => ?_, fun h => .inl ⟨h, hbit⟩⟩
  by_contra hge
  -- the upper half is not empty
  have hlt : number < 128 := by
    by_contra hlarge
    rw [BitVec.getLsbD_of_ge field number (by omega)] at hbit
    cases hbit
  cases hfirst : lowestBit field 64 with
  | none =>
    have hzero := lowestBit_eq_none_iff.1 hfirst (number - 64) (by omega)
    rw [show 64 + (number - 64) = number by omega, hbit] at hzero
    cases hzero
  | some c =>
    have hc := (lowestBit_eq_some_iff.1 hfirst).1
    rw [bsfUpper, hfirst, getD_some] at hupper
    omega

/-- A number whose bit is not set is found if it is what `bsf` returns for the upper half. -/
theorem finds_iff_upper (hbit : field.getLsbD number = false) :
    Finds tzcnt field number ↔ bsfUpper tzcnt field = number := by
  simp [Finds, hbit]

end Search

/-- The number of an interface is not overlooked or found by mistake. An empty field, which stands
for all numbers, is taken for what `bsf` returns for it. -/
def InterfaceRight (tzcnt : Bool) (field : BitVec 128) (number : Nat) : Prop :=
  if field = 0 then number = if tzcnt then 64 else 0
  else if field.getLsbD number then number < 64 else bsfUpper tzcnt field ≠ number

/-- When the choice is the documented one. A subclass that is overlooked does no harm if the
interface is not one of the driver's, and one found by mistake does none if the interface is not
found. -/
def ChosenRight (tzcnt : Bool) (info : PciInfo) (dev : PciDevice) : Prop :=
  let subclass := dev.subclass.toNat
  let progIF := dev.progIF.toNat
  info.classCode ≠ dev.classCode.setWidth 32 ∨
  if info.subclass.getLsbD subclass then
    if subclass < 64 then InterfaceRight tzcnt info.progIf progIF
    else info.progIf ≠ 0 ∧ info.progIf.getLsbD progIF = false
  else bsfUpper tzcnt info.subclass = subclass → ¬ Finds tzcnt info.progIf progIF

theorem finds_iff_of_interface (tzcnt : Bool) (field : BitVec 128) (number : Nat) :
    (Finds tzcnt field number ↔ field = 0 ∨ field.getLsbD number = true) ↔
      InterfaceRight tzcnt field number := by
  rw [InterfaceRight]
  by_cases hzero : field = 0
  · have hempty : bsfUpper tzcnt 0 = if tzcnt then 64 else 0 := by
      rw [bsfUpper, lowestBit_eq_none_iff.2 (by simp), getD_none]
    subst hzero
    rw [finds_iff_upper (by simp), hempty]
    simp [eq_comm]
  · cases hbit : field.getLsbD number with
    | true => simp only [hzero, finds_iff_lt hbit, or_true, iff_true, if_true, if_false]
    | false =>
      simp only [hzero, finds_iff_upper hbit, Bool.false_eq_true, or_false, iff_false, if_false]

/-- The loops end, and the driver is selected as documented exactly in these cases. -/
theorem scan_selects_iff (tzcnt : Bool) (info : PciInfo) (dev : PciDevice) :
    ∃ r, selects tzcnt 65 info dev = some r ∧
      ((r = true ↔ Documented info dev) ↔ ChosenRight tzcnt info dev) := by
  have hfind field number :
      findBit tzcnt number 65 field = some (decide (Finds tzcnt field number)) :=
    findBit_eq (Nat.zero_le 64) (by simp) (by decide)
  by_cases hclass : info.classCode = dev.classCode.setWidth 32
  · have hselects : selects tzcnt 65 info dev =
        some (decide (Finds tzcnt info.subclass dev.subclass.toNat) &&
          decide (Finds tzcnt info.progIf dev.progIF.toNat)) := by
      by_cases hsub : Finds tzcnt info.subclass dev.subclass.toNat <;>
        simp [selects, hclass, hfind, hsub]
    refine ⟨_, hselects, ?_⟩
    have hinterface := finds_iff_of_interface tzcnt info.progIf dev.progIF.toNat
    simp only [Documented, ChosenRight, hclass, Bool.and_eq_true, decide_eq_true_eq, true_and,
      ne_eq, not_true, false_or]
    cases hbit : info.subclass.getLsbD dev.subclass.toNat with
    | true =>
      rw [finds_iff_lt hbit]
      by_cases hlow : dev.subclass.toNat < 64
      · simpa [hlow] using hinterface
      · simp [hlow]
    | false =>
      rw [finds_iff_upper hbit]
      simp
  · exact ⟨false, by simp [selects, hclass], by simp [Documented, ChosenRight, hclass]⟩

/-- A driver for every programming interface of the subclass 6 of the class 1. -/
def anyInterface : PciInfo := ⟨1, BitVec.twoPow 128 6, 0⟩

theorem anyInterface_not_selected : Documented anyInterface ⟨1, 6, 1⟩ ∧
    selects true 65 anyInterface ⟨1, 6, 1⟩ = some false ∧
    selects false 65 anyInterface ⟨1, 6, 1⟩ = some false := by
  refine ⟨⟨rfl, ?_, .inl rfl⟩, ?_, ?_⟩ <;> decide

end Obos.DriverInterface
