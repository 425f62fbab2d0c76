import Obos.DriverInterface.Load

/-!
# Relocations against the ABI

The ABI gives a relocation type the width of the field it changes and a formula for the value the
field gets. `relocate_right_iff` compares a pass of the loop over the relocations with that: fields
of 32 bits are written with the lower half of their value only, and `R_AMD64_GOTPC32` has another
formula and another width.
-/

namespace Obos.DriverInterface

open Lib Vfs Loader List Option
open RelocationEffect (apply)

/-! ## The ABI -/

/-- The types of relocations the loader supports. -/
inductive RelocationType where
  | none
  | abs64
  | pc32
  | copy
  | globDat
  | jumpSlot
  | relative
  | abs32
  | abs32S
  | abs16
  | pc16
  | abs8
  | pc8
  | pc64
  | gotOff64
  | gotPc32
  | size32
  | size64
  deriving DecidableEq

/-- What the formulas are about: `S`, `Z`, `A`, `P`, `B` and `GOT`. -/
structure Operands where
  symbolValue : BitVec 64
  symbolSize : BitVec 64
  addend : BitVec 64
  place : BitVec 64
  base : BitVec 64
  got : BitVec 64

namespace RelocationType

/-- The number of a type in a relocation record. -/
def number : RelocationType → Nat
  | none => 0
  | abs64 => 1
  | pc32 => 2
  | copy => 5
  | globDat => 6
  | jumpSlot => 7
  | relative => 8
  | abs32 => 10
  | abs32S => 11
  | abs16 => 12
  | pc16 => 13
  | abs8 => 14
  | pc8 => 15
  | pc64 => 24
  | gotOff64 => 25
  | gotPc32 => 26
  | size32 => 32
  | size64 => 33

/-- The bytes of the field. -/
def width : RelocationType → Nat
  | none | copy => 0
  | abs8 | pc8 => 1
  | abs16 | pc16 => 2
  | pc32 | abs32 | abs32S | gotPc32 | size32 => 4
  | abs64 | globDat | jumpSlot | relative | pc64 | gotOff64 | size64 => 8

/-- The formula of a type. -/
def value (t : RelocationType) (v : Operands) : Int :=
  match t with
  | none | copy => 0
  | abs64 | abs32 | abs32S | abs16 | abs8 => v.symbolValue.toNat + v.addend.toInt
  | pc64 | pc32 | pc16 | pc8 => v.symbolValue.toNat + v.addend.toInt - v.place.toNat
  | globDat | jumpSlot => v.symbolValue.toNat
  | relative => v.base.toNat + v.addend.toInt
  | gotOff64 => v.symbolValue.toNat + v.addend.toInt - v.got.toNat
  | gotPc32 => v.got.toNat + v.addend.toInt - v.place.toNat
  | size32 | size64 => v.symbolSize.toNat + v.addend.toInt

/-- The object that is copied to the place, for the type that has no field. -/
def copies (t : RelocationType) (v : Operands) : List CopyRelocation :=
  match t with
  | copy => [⟨v.place, v.symbolValue, v.symbolSize⟩]
  | _ => []

/-- The loader uses the symbol for a relocation of the type. -/
def usesSymbol : RelocationType → Bool
  | none | relative | gotPc32 => false
  | _ => true

end RelocationType

/-- What a record does to memory and to the copies still to be made is what the ABI asks for: the
field holds the value, and nothing else changes. -/
structure AppliedRight (t : RelocationType) (v : Operands) (st st' : Memory × List CopyRelocation) :
    Prop where
  field : (memoryNumber st'.1 v.place.toNat t.width : Int) = t.value v % 2 ^ (8 * t.width)
  frame : ∀ x < 2 ^ 64, t.width ≤ (x + 2 ^ 64 - v.place.toNat) % 2 ^ 64 → st'.1 x = st.1 x
  copies : st'.2 = st.2 ++ t.copies v

/-- The operands of a record whose symbol has been looked up. A record without a symbol has one
with the value zero. -/
def operands (symbol : Option KernelSymbol) (base : BitVec 64) (d : Dynamic) (r : Relocation) :
    Operands where
  symbolValue := (symbol.map (·.value)).getD 0
  symbolSize := (symbol.map (·.size)).getD 0
  addend := r.addend
  place := base + r.virtualAddress
  base := base
  got := d.got

/-- The loader applies a record as the ABI asks for. -/
def RecordRight (symbols : List KernelSymbol) (base : BitVec 64) (d : Dynamic) (t : RelocationType)
    (v : Operands) (st : Memory × List CopyRelocation) (r : Relocation) : Prop :=
  ∃ st', Returns (relocate symbols base d st r) st' ∧ AppliedRight t v st st'

/-- The records the loader applies as the ABI asks for: a symbol is there if it is used, a value of
32 bits has no upper half, and for `R_AMD64_GOTPC32` the place may as well be added as subtracted
and the four bytes behind the field are what is written there. -/
structure RecordFits (t : RelocationType) (symbol : Option KernelSymbol) (v : Operands)
    (m : Memory) : Prop where
  symbol : t.usesSymbol = true → symbol.isSome = true
  word32 : t.width = 4 → t ≠ .gotPc32 → t.value v % 2 ^ 32 < 2 ^ 16
  gotPc32 : t = .gotPc32 → 2 * v.place.toNat % 2 ^ 32 = 0 ∧
    memoryNumber m (v.place.toNat + 4) 4 = (v.got + v.addend + v.place).toNat / 2 ^ 32

/-! ## Numbers in memory -/

section Numbers

variable {m m' : Memory} {address width : Nat}

theorem length_toBytes (n : Nat) (v : BitVec 64) : (toBytes n v).length = n := by
  induction n generalizing v with
  | zero => rfl
  | succ n ih => rw [toBytes, length_cons, ih]

theorem ofBytes_toBytes (n : Nat) (v : BitVec 64) :
    ofBytes (toBytes n v) = v.toNat % 2 ^ (8 * n) := by
  induction n generalizing v with
  | zero => simp [toBytes, ofBytes, Nat.mod_one]
  | succ n ih =>
    rw [toBytes, ofBytes, ih, BitVec.toNat_setWidth, BitVec.toNat_ushiftRight,
      Nat.shiftRight_eq_div_pow, Nat.mul_succ, Nat.pow_add', Nat.mod_mul]

/-- A byte of the bytes that are written. -/
theorem writeBytes_inside {bs : List (BitVec 8)} {i : Nat} (hi : i < bs.length)
    (hlength : bs.length ≤ 2 ^ 64) (haddress : address < 2 ^ 64) :
    bs[i]? = some (writeBytes m address bs ((address + i) % 2 ^ 64)) := by
  have hoffset : ((address + i) % 2 ^ 64 + 2 ^ 64 - address) % 2 ^ 64 = i := by omega
  rw [writeBytes, hoffset, getD_eq_getElem?_getD, getElem?_eq_getElem hi,
    getD_some]

/-- A byte apart from the bytes that are written. -/
theorem writeBytes_outside {bs : List (BitVec 8)} {x : Nat}
    (h : bs.length ≤ (x + 2 ^ 64 - address) % 2 ^ 64) : writeBytes m address bs x = m x := by
  rw [writeBytes, getD_eq_getElem?_getD, getElem?_eq_none h, getD_none]

/-- Some of the bytes of a number. -/
theorem ofBytes_toBytes_part {n k : Nat} (v : BitVec 64) (hwidth : k + width ≤ n) :
    ofBytes (((toBytes n v).drop k).take width) = v.toNat / 2 ^ (8 * k) % 2 ^ (8 * width) := by
  induction k generalizing n v with
  | zero =>
    rw [drop_zero, Nat.mul_zero, Nat.pow_zero, Nat.div_one, ← ofBytes_toBytes]
    congr 1
    induction width generalizing n v with
    | zero => rfl
    | succ width ih =>
      obtain ⟨n, rfl⟩ := Nat.exists_eq_add_one_of_ne_zero (show n ≠ 0 by omega)
      rw [toBytes, toBytes, take_succ_cons, ih _ (by omega)]
  | succ k ih =>
    obtain ⟨n, rfl⟩ := Nat.exists_eq_add_one_of_ne_zero (show n ≠ 0 by omega)
    rw [toBytes, drop_succ_cons, ih _ (by omega), BitVec.toNat_ushiftRight,
      Nat.shiftRight_eq_div_pow, Nat.div_div_eq_div_mul, ← Nat.pow_add, Nat.mul_succ,
      Nat.add_comm]

/-- A part of the number that has been written. -/
theorem memoryNumber_writeBytes {v : BitVec 64} {n k : Nat} (haddress : address < 2 ^ 64)
    (hwidth : k + width ≤ n) (hn : n ≤ 8) :
    memoryNumber (writeBytes m address (toBytes n v)) (address + k) width =
      v.toNat / 2 ^ (8 * k) % 2 ^ (8 * width) := by
  rw [← ofBytes_toBytes_part v hwidth, memoryNumber]
  congr 1
  refine ext_getElem? fun i => ?_
  have hlength := length_toBytes n v
  by_cases hi : i < width
  · have hbyte : (toBytes n v)[k + i]? = _ :=
      writeBytes_inside (m := m) (by omega) (by omega) haddress
    rw [getElem?_take_of_lt hi, getElem?_drop, hbyte, getElem?_map,
      getElem?_range hi, ← Nat.add_assoc]
    rfl
  · rw [getElem?_eq_none (by simp; omega), getElem?_eq_none (by simp; omega)]

theorem ofBytes_injective {bs cs : List (BitVec 8)} (hlength : bs.length = cs.length)
    (h : ofBytes bs = ofBytes cs) : bs = cs := by
  induction bs generalizing cs with
  | nil => exact (length_eq_zero_iff.1 hlength.symm).symm
  | cons b bs ih =>
    obtain ⟨c, cs, rfl⟩ := exists_cons_of_length_eq_add_one hlength.symm
    rw [ofBytes, ofBytes] at h
    rw [ih (by simpa using hlength) (by omega),
      BitVec.eq_of_toNat_eq (show b.toNat = c.toNat by omega)]

/-- Numbers are the same if their bytes are. -/
theorem memoryNumber_eq_iff :
    memoryNumber m address width = memoryNumber m' address width ↔
      ∀ i < width, m ((address + i) % 2 ^ 64) = m' ((address + i) % 2 ^ 64) := by
  constructor
  · intro h i hi
    have hbytes := ofBytes_injective (by simp) h
    exact map_inj_left.1 hbytes i (mem_range.2 hi)
  · intro h
    rw [memoryNumber, memoryNumber, map_congr_left fun i hi => h i (mem_range.1 hi)]

end Numbers

/-! ## A pass of the loop -/

/-- The effect of a record of a type, if the symbol is there when it is used. -/
def RelocationType.effect (t : RelocationType) (v : Operands) : RelocationEffect :=
  match t with
  | .none => .nothing
  | .copy => .copy v.symbolValue v.symbolSize
  | .gotPc32 => .write 8 (v.got + v.addend + v.place)
  | t => .write t.width (BitVec.ofInt 64 (t.value v))

open RelocationType (copies effect number usesSymbol value width)

section Pass

variable {symbols : List KernelSymbol} {base : BitVec 64} {d : Dynamic} {t : RelocationType}
  {symbol : Option KernelSymbol} {st : Memory × List CopyRelocation} {r : Relocation}
  {v : Operands}

theorem ofInt_add_toInt (i : Int) (a : BitVec 64) :
    BitVec.ofInt 64 (i + a.toInt) = BitVec.ofInt 64 i + a := by
  rw [BitVec.ofInt_add, BitVec.ofInt_toInt]

theorem ofInt_sub_toNat (i : Int) (p : BitVec 64) :
    BitVec.ofInt 64 (i - p.toNat) = BitVec.ofInt 64 i - p := by
  rw [Int.sub_eq_add_neg, BitVec.ofInt_add, BitVec.ofInt_neg, BitVec.ofInt_natCast,
    BitVec.ofNat_toNat, BitVec.setWidth_eq, BitVec.sub_eq_add_neg]

theorem ofInt_toNat (a : BitVec 64) : BitVec.ofInt 64 a.toNat = a := by
  rw [BitVec.ofInt_natCast, BitVec.ofNat_toNat, BitVec.setWidth_eq]

theorem relocationEffect_eq (htype : r.relocationType = t.number)
    (hsymbol : t.usesSymbol = true → symbol.isSome = true) :
    relocationEffect symbol base d.got (base + r.virtualAddress) r =
      pure (t.effect (operands symbol base d r)) := by
  unfold relocationEffect
  rw [htype]
  cases symbol with
  | none =>
    cases t <;> simp only [usesSymbol, isSome_none, Bool.false_eq_true,
      imp_false, not_true_eq_false] at hsymbol <;>
      simp only [number, effect, width,
        value, operands, ofInt_add_toInt, ofInt_toNat]
  | some s =>
    cases t <;>
      simp only [number, effect, width,
        value, operands, withSymbol, ofInt_add_toInt, ofInt_sub_toNat,
        ofInt_toNat, map_some, getD_some]

/-- A record whose symbol is used and not there makes the loader use a null pointer. -/
theorem not_returns_relocationEffect (htype : r.relocationType = t.number)
    (huses : t.usesSymbol = true) {effect : RelocationEffect} {got place : BitVec 64} :
    ¬ Returns (relocationEffect none base got place r) effect := by
  unfold relocationEffect
  rw [htype]
  cases t <;> simp [usesSymbol, number, withSymbol] at huses ⊢

/-- A record is applied as its type says, if the symbol is there when it is used. -/
theorem returns_relocate_iff (htype : r.relocationType = t.number)
    (hsymbol : Returns (resolveSymbol symbols base d st.1 r) symbol)
    {st' : Memory × List CopyRelocation} :
    Returns (relocate symbols base d st r) st' ↔
      (t.usesSymbol = true → symbol.isSome = true) ∧
        st' = (t.effect (operands symbol base d r)).apply (base + r.virtualAddress) st := by
  rw [relocate, returns_bind]
  constructor
  · rintro ⟨symbol', hsymbol', h⟩
    obtain rfl := hsymbol.unique hsymbol'
    rw [returns_bind] at h
    obtain ⟨effect, heffect, h⟩ := h
    have hthere : t.usesSymbol = true → symbol.isSome = true := by
      intro huses
      cases symbol with
      | none => exact absurd heffect (not_returns_relocationEffect htype huses)
      | some s => rfl
    rw [relocationEffect_eq htype hthere, returns_pure] at heffect
    exact ⟨hthere, heffect ▸ returns_pure.1 h⟩
  · rintro ⟨hthere, rfl⟩
    refine ⟨symbol, hsymbol, ?_⟩
    show Returns (relocationEffect symbol base d.got (base + r.virtualAddress) r >>= _) _
    rw [relocationEffect_eq htype hthere, pure_bind, returns_pure]

theorem RelocationType.width_le (t : RelocationType) : t.width ≤ 8 := by
  cases t <;> decide

/-- A type with a field writes the lower bytes of its value there, but for one. -/
theorem effect_eq_write (hwidth : t.width ≠ 0) (hother : t ≠ .gotPc32) :
    t.effect v = .write t.width (BitVec.ofInt 64 (t.value v)) := by
  cases t <;> first | rfl | contradiction

/-- The value of a formula modulo the width of a field. -/
theorem toNat_ofInt_mod (value : Int) (width : Nat) (hwidth : width ≤ 8) :
    (((BitVec.ofInt 64 value).toNat % 2 ^ (8 * width) : Nat) : Int) = value % 2 ^ (8 * width) := by
  have hdvd : (2 ^ (8 * width) : Int) ∣ 2 ^ 64 := pow_dvd_pow 2 (by omega)
  have hpos : 0 ≤ value % 2 ^ 64 := Int.emod_nonneg _ (by norm_num)
  rw [BitVec.toNat_ofInt, Int.natCast_emod, Int.toNat_of_nonneg (by exact_mod_cast hpos)]
  push_cast
  exact Int.emod_emod_of_dvd value hdvd

/-- A field into which a number is written. -/
theorem appliedRight_writeBytes_iff (hcopies : t.copies v = []) {x : BitVec 64} :
    AppliedRight t v st (writeBytes st.1 v.place.toNat (toBytes t.width x), st.2) ↔
      ((x.toNat % 2 ^ (8 * t.width) : Nat) : Int) = t.value v % 2 ^ (8 * t.width) := by
  have hnumber : memoryNumber (writeBytes st.1 v.place.toNat (toBytes t.width x)) v.place.toNat
      t.width = x.toNat % 2 ^ (8 * t.width) := by
    have h := memoryNumber_writeBytes (m := st.1) (v := x) (k := 0) v.place.isLt
      (Nat.zero_add _).le t.width_le
    rwa [Nat.mul_zero, Nat.pow_zero, Nat.div_one] at h
  constructor
  · intro h
    rw [← h.field, hnumber]
  · intro h
    refine ⟨?_, fun y _ hy => ?_, by rw [hcopies, append_nil]⟩
    · rw [hnumber, h]
    · exact writeBytes_outside (by rwa [length_toBytes])

/-- A record without a field of 32 bits is applied right. -/
theorem appliedRight_of_width_ne (hwidth : t.width ≠ 4) :
    AppliedRight t v st ((t.effect v).apply v.place st) := by
  by_cases hfield : t.width = 0
  · refine ⟨?_, fun x _ _ => ?_, ?_⟩ <;> cases t <;>
      simp_all [width, effect, apply,
        copies, value, memoryNumber, ofBytes]
  · have hother : t ≠ .gotPc32 := fun h => hwidth (h ▸ rfl)
    have hcopies : t.copies v = [] := by cases t <;> first | rfl | contradiction
    rw [effect_eq_write hfield hother, apply, writeResult, if_neg hwidth]
    exact (appliedRight_writeBytes_iff hcopies).2 (toNat_ofInt_mod _ _ t.width_le)

/-- A field of 32 bits is right if its value has no upper half. -/
theorem appliedRight_word32_iff (hwidth : t.width = 4) (hother : t ≠ .gotPc32) :
    AppliedRight t v st ((t.effect v).apply v.place st) ↔ t.value v % 2 ^ 32 < 2 ^ 16 := by
  have hcopies : t.copies v = [] := by cases t <;> first | rfl | contradiction
  have hvalue := toNat_ofInt_mod (t.value v) t.width t.width_le
  rw [effect_eq_write (by omega) hother, apply, writeResult, if_pos hwidth,
    appliedRight_writeBytes_iff hcopies, ← hvalue, hwidth, BitVec.toNat_setWidth,
    BitVec.toNat_setWidth]
  generalize (BitVec.ofInt 64 (t.value v)).toNat = n at hvalue ⊢
  rw [hwidth] at hvalue
  rw [show (2 ^ 32 : Int) = 2 ^ (8 * 4) by norm_num, ← hvalue]
  norm_cast
  omega

/-- `R_AMD64_GOTPC32` is written with eight bytes, and with the sum for the difference. -/
theorem appliedRight_gotPc32_iff :
    AppliedRight .gotPc32 v st ((RelocationType.effect .gotPc32 v).apply v.place st) ↔
      2 * v.place.toNat % 2 ^ 32 = 0 ∧
        memoryNumber st.1 (v.place.toNat + 4) 4 = (v.got + v.addend + v.place).toNat / 2 ^ 32 := by
  show AppliedRight .gotPc32 v st
    (writeBytes st.1 v.place.toNat (toBytes 8 (v.got + v.addend + v.place)), st.2) ↔ _
  have hplace := v.place.isLt
  generalize hsum : v.got + v.addend + v.place = sum
  have hlow : memoryNumber (writeBytes st.1 v.place.toNat (toBytes 8 sum)) v.place.toNat 4 =
      sum.toNat % 2 ^ 32 := by
    have h : memoryNumber _ (v.place.toNat + 0) 4 = _ :=
      memoryNumber_writeBytes (m := st.1) (v := sum) (n := 8) v.place.isLt (by decide) le_rfl
    rwa [Nat.mul_zero, Nat.pow_zero, Nat.div_one] at h
  have hhigh : memoryNumber (writeBytes st.1 v.place.toNat (toBytes 8 sum)) (v.place.toNat + 4) 4 =
      sum.toNat / 2 ^ 32 := by
    rw [memoryNumber_writeBytes v.place.isLt (by decide) le_rfl]
    exact Nat.mod_eq_of_lt (by have := sum.isLt; omega)
  have hvalue : ((sum.toNat % 2 ^ 32 : Nat) : Int) = value .gotPc32 v % 2 ^ 32 ↔
      2 * v.place.toNat % 2 ^ 32 = 0 := by
    have hmod := toNat_ofInt_mod (v.got.toNat + v.addend.toInt + v.place.toNat) 4 (by decide)
    rw [BitVec.ofInt_add, ofInt_add_toInt, ofInt_toNat, ofInt_toNat, hsum] at hmod
    show _ = (v.got.toNat + v.addend.toInt - v.place.toNat : Int) % 2 ^ 32 ↔ _
    rw [hmod]
    omega
  -- the frame of the field is broken exactly in the four bytes behind it
  have hbehind : memoryNumber st.1 (v.place.toNat + 4) 4 = sum.toNat / 2 ^ 32 ↔
      ∀ i < 4, st.1 ((v.place.toNat + 4 + i) % 2 ^ 64) =
        writeBytes st.1 v.place.toNat (toBytes 8 sum) ((v.place.toNat + 4 + i) % 2 ^ 64) := by
    rw [← hhigh, memoryNumber_eq_iff]
  rw [hbehind, ← hvalue, ← hlow]
  constructor
  · rintro ⟨hfield, hframe, -⟩
    refine ⟨hfield, fun i hi => (hframe _ (Nat.mod_lt _ (by decide)) ?_).symm⟩
    show 4 ≤ _
    omega
  · rintro ⟨hfield, hsame⟩
    refine ⟨hfield, fun x hx hoffset => ?_, (append_nil _).symm⟩
    replace hoffset : 4 ≤ (x + 2 ^ 64 - v.place.toNat) % 2 ^ 64 := hoffset
    by_cases hwritten : (x + 2 ^ 64 - v.place.toNat) % 2 ^ 64 < 8
    · have hx : (v.place.toNat + 4 + ((x + 2 ^ 64 - v.place.toNat) % 2 ^ 64 - 4)) % 2 ^ 64 = x := by
        omega
      have hbyte := hsame ((x + 2 ^ 64 - v.place.toNat) % 2 ^ 64 - 4) (by omega)
      rw [hx] at hbyte
      exact hbyte.symm
    · exact writeBytes_outside (by rw [length_toBytes]; omega)

end Pass

/-- The loader applies a record of a type it supports as the ABI asks for exactly if the record
fits. -/
theorem relocate_right_iff {symbols : List KernelSymbol} {base : BitVec 64} {d : Dynamic}
    {st : Memory × List CopyRelocation} {r : Relocation} {t : RelocationType}
    (htype : r.relocationType = t.number) {symbol : Option KernelSymbol}
    (hsymbol : Returns (resolveSymbol symbols base d st.1 r) symbol) :
    RecordRight symbols base d t (operands symbol base d r) st r ↔
      RecordFits t symbol (operands symbol base d r) st.1 := by
  have hright : RecordRight symbols base d t (operands symbol base d r) st r ↔
      (t.usesSymbol = true → symbol.isSome = true) ∧
        AppliedRight t (operands symbol base d r) st
          ((t.effect (operands symbol base d r)).apply (base + r.virtualAddress) st) := by
    simp only [RecordRight, returns_relocate_iff htype hsymbol]
    constructor
    · rintro ⟨_, ⟨hthere, rfl⟩, happlied⟩
      exact ⟨hthere, happlied⟩
    · rintro ⟨hthere, happlied⟩
      exact ⟨_, ⟨hthere, rfl⟩, happlied⟩
  have hplace : (operands symbol base d r).place = base + r.virtualAddress := rfl
  rw [hright, ← hplace]
  by_cases hgot : t = .gotPc32
  · subst hgot
    rw [appliedRight_gotPc32_iff]
    constructor
    · rintro ⟨hthere, hfits⟩
      exact ⟨hthere, fun _ h => absurd rfl h, fun _ => hfits⟩
    · intro h
      exact ⟨h.symbol, h.gotPc32 rfl⟩
  · by_cases hwidth : t.width = 4
    · rw [appliedRight_word32_iff hwidth hgot]
      constructor
      · rintro ⟨hthere, hvalue⟩
        exact ⟨hthere, fun _ _ => hvalue, fun h => absurd h hgot⟩
      · intro h
        exact ⟨h.symbol, h.word32 hwidth hgot⟩
    · constructor
      · rintro ⟨hthere, -⟩
        exact ⟨hthere, fun h => absurd h hwidth, fun h => absurd h hgot⟩
      · intro h
        exact ⟨h.symbol, appliedRight_of_width_ne hwidth⟩

/-- A symbol of a kernel. -/
def smallSymbol : KernelSymbol := ⟨bytes "tick", 1, 0x12345678, 8⟩

/-- The dynamic table of a driver at `0x10000`. -/
def smallDynamic : Dynamic := { Dynamic.initial with symbolTable := 0x11000, stringTable := 0x2000 }

/-- The memory of the driver, which names the symbol. -/
def smallState : Memory × List CopyRelocation :=
  (writeBytes (fun _ => 0) 0x12000 (bytes "tick"), [])

theorem resolveSymbol_smallState {type : Nat} (htype : type ≠ 5) :
    Returns (resolveSymbol [smallSymbol] 0x10000#64 smallDynamic smallState.1 ⟨1, 0x100, type, 0⟩)
      (some smallSymbol) := by
  have hfound : getSymbolFromTable [smallSymbol] smallState.1
      (BitVec.toNat 0x10000#64 + smallDynamic.stringTable.toNat +
        memoryNumber smallState.1 (smallDynamic.symbolTable.toNat + 24 * 1) 4) =
      some smallSymbol := by
    decide +kernel
  simp only [resolveSymbol, Nat.one_ne_zero, if_false, htype, and_false]
  rw [hfound]
  exact returns_pure.2 rfl

theorem relocate_right_iff_abs64 :
    RecordRight [smallSymbol] 0x10000#64 smallDynamic .abs64
      (operands (some smallSymbol) 0x10000#64 smallDynamic ⟨1, 0x100, 1, 0⟩) smallState
      ⟨1, 0x100, 1, 0⟩ := by
  refine (relocate_right_iff rfl (resolveSymbol_smallState (by decide))).2
    ⟨fun _ => rfl, fun h => ?_, fun h => ?_⟩
  · exact absurd h (by decide)
  · exact absurd h (by decide)

theorem relocate_abs32_not_right :
    ¬ RecordRight [smallSymbol] 0x10000#64 smallDynamic .abs32
      (operands (some smallSymbol) 0x10000#64 smallDynamic ⟨1, 0x100, 10, 0⟩) smallState
      ⟨1, 0x100, 10, 0⟩ := by
  rintro ⟨st', hst', hright⟩
  obtain ⟨-, rfl⟩ := (returns_relocate_iff (t := .abs32) rfl
    (resolveSymbol_smallState (by decide))).1 hst'
  exact absurd ((appliedRight_word32_iff rfl (by decide)).1 hright) (by decide +kernel)

end Obos.DriverInterface
