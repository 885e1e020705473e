import Mathlib.Data.Nat.Bitwise
import PackedEdges.Attribute.Access

/-! The numbers of a defined attribute: its range fits into its bits, so a value of the range and
the number that a slot holds for it determine each other without overflow. -/

namespace PackedEdges.Attribute

/-- What the definition of an attribute promises about its numbers. -/
structure Sound (a : Attribute) : Prop where
  bits_pos : 1 ≤ a.bits.toNat
  bits_le : a.bits.toNat ≤ 32
  range_eq : a.maximum.toInt - a.minimum.toInt + (if a.negates then 2 else 1) = 2 ^ a.bits.toNat
  neverWritten_lt : neverWritten.toInt < a.minimum.toInt
  symmetric : a.negates = true → a.minimum.toInt = -a.maximum.toInt
  oneDirection : a.negates = true → a.twoDirections = false

/-- The attribute comes from a definition that was accepted. -/
def Defined (a : Attribute) : Prop :=
  ∃ rules name settings, define? rules name settings = .ok a

theorem greatestOfBits_eq (bits : UInt32) : greatestOfBits bits = 2 ^ bits.toNat - 1 := by
  have hpos : 1 ≤ 2 ^ bits.toNat := Nat.one_le_two_pow
  rw [greatestOfBits, Nat.one_shiftLeft, Int.ofNat_sub hpos, Int.natCast_pow]
  rfl

theorem defined_cases {a : Attribute} (h : a.Defined) :
    ∃ name settings, settingsFault? settings = none ∧ a = ofSettings name settings := by
  obtain ⟨rules, name, settings, hdef⟩ := h
  by_cases hname : rules.accepts name = true
  · simp only [define?, hname, Bool.not_true, Bool.false_eq_true, if_false] at hdef
    cases hfault : settingsFault? settings with
    | some fault => simp [hfault] at hdef
    | none => exact ⟨name, settings, hfault, by simpa [hfault] using hdef.symm⟩
  · simp [define?, hname] at hdef

theorem bits_bounds {bits : UInt32} (hzero : ¬ bits = 0) (hmany : ¬ maxBits < bits) :
    1 ≤ bits.toNat ∧ bits.toNat ≤ 31 := by
  have hpos : bits.toNat ≠ 0 := fun hz => hzero (UInt32.toNat_inj.mp hz)
  have hmax : maxBits.toNat = 31 := rfl
  rw [UInt32.lt_iff_toNat_lt, hmax] at hmany
  omega

theorem bounds_of_settingsFault? {settings : Settings} (h : settingsFault? settings = none) :
    (1 ≤ settings.bits.toNat ∧ settings.bits.toNat ≤ 31) ∧
      (settings.negates = true → settings.minimum = 0 ∧ settings.twoDirections = false) ∧
      neverWritten.toInt < settings.minimum.toInt ∧
      settings.minimum.toInt + greatestOfBits settings.bits < 2 ^ 31 := by
  simp only [settingsFault?] at h
  split_ifs at h with hzero hmany hnegates hmin hrange
  have hlow := settings.minimum.le_toInt
  have hne : settings.minimum.toInt ≠ neverWritten.toInt := fun he => hmin (Int32.toInt_inj.mp he)
  have hnever : neverWritten.toInt = -2 ^ 31 := by decide
  have htop : Int32.maxValue.toInt = 2 ^ 31 - 1 := by decide
  refine ⟨bits_bounds hzero hmany, ?_, by omega, by omega⟩
  intro hn
  have hboth : ¬ (settings.minimum ≠ 0 ∨ settings.twoDirections = true) :=
    fun hc => hnegates ⟨hn, hc⟩
  rw [not_or, not_not] at hboth
  exact ⟨hboth.1, by simpa using hboth.2⟩

theorem greatestOfBits_bounds {bits : UInt32} (hpos : 1 ≤ bits.toNat) (hle : bits.toNat ≤ 31) :
    1 ≤ greatestOfBits bits ∧ greatestOfBits bits < 2 ^ 31 := by
  have hlow : (2 : Int) ^ 1 ≤ 2 ^ bits.toNat := by
    exact_mod_cast Nat.pow_le_pow_right Nat.two_pos hpos
  have hhigh : (2 : Int) ^ bits.toNat ≤ 2 ^ 31 := by
    exact_mod_cast Nat.pow_le_pow_right Nat.two_pos hle
  rw [greatestOfBits_eq]
  omega

theorem toInt_maximum_ofSettings (name : String) {settings : Settings}
    (h : settingsFault? settings = none) : (ofSettings name settings).maximum.toInt =
      settings.minimum.toInt + greatestOfBits settings.bits := by
  obtain ⟨⟨hpos, hle⟩, _, _, hmax⟩ := bounds_of_settingsFault? h
  have hbounds := greatestOfBits_bounds hpos hle
  have hlow := settings.minimum.le_toInt
  exact Int32.toInt_ofInt_of_le (by omega) hmax

theorem sound_of_plain (name : String) {settings : Settings}
    (h : settingsFault? settings = none) (hn : settings.negates = false) :
    (ofSettings name settings).Sound := by
  obtain ⟨⟨hpos, hle⟩, _, hmin, _⟩ := bounds_of_settingsFault? h
  have hneg : (ofSettings name settings).negates = false := hn
  have hminimum : (ofSettings name settings).minimum = settings.minimum := by
    simp [ofSettings, hn]
  have hbits : (ofSettings name settings).bits = settings.bits := by
    simp [ofSettings, hn]
  refine ⟨by rwa [hbits], by rw [hbits]; omega, ?_, by rwa [hminimum], ?_, ?_⟩
  · rw [toInt_maximum_ofSettings name h, hminimum, hbits, hneg, greatestOfBits_eq]
    simp
  · simp [hneg]
  · simp [hneg]

/-- A sign bit doubles the range, and one of its numbers stays unused. -/
theorem sound_of_negates (name : String) {settings : Settings}
    (h : settingsFault? settings = none) (hn : settings.negates = true) :
    (ofSettings name settings).Sound := by
  obtain ⟨⟨hpos, hle⟩, hnegates, _, _⟩ := bounds_of_settingsFault? h
  have hgreatest := greatestOfBits_eq settings.bits
  have hbounds := greatestOfBits_bounds hpos hle
  have hnever : neverWritten.toInt = -2 ^ 31 := by decide
  obtain ⟨hz, htwo⟩ := hnegates hn
  have hzero : settings.minimum.toInt = 0 := by simp [hz]
  have hneg : (ofSettings name settings).negates = true := hn
  have hmaximum := toInt_maximum_ofSettings name h
  have hminimum : (ofSettings name settings).minimum.toInt = -greatestOfBits settings.bits := by
    simp only [ofSettings, hn, if_true]
    exact Int32.toInt_ofInt_of_le (by omega) (by omega)
  have hbits : (ofSettings name settings).bits.toNat = settings.bits.toNat + 1 := by
    simp only [ofSettings, hn, if_true, UInt32.toNat_add, UInt32.toNat_one]
    omega
  refine ⟨by omega, by omega, ?_, by omega, ?_, ?_⟩
  · rw [hmaximum, hminimum, hbits, hneg, hgreatest, hzero, Int.pow_succ]
    simp only [if_true]
    omega
  · intro _
    omega
  · intro _
    exact htwo

theorem sound_ofSettings (name : String) {settings : Settings}
    (h : settingsFault? settings = none) : (ofSettings name settings).Sound := by
  cases hn : settings.negates with
  | false => exact sound_of_plain name h hn
  | true => exact sound_of_negates name h hn

theorem Defined.sound {a : Attribute} (h : a.Defined) : a.Sound := by
  obtain ⟨name, settings, hfault, rfl⟩ := defined_cases h
  exact sound_ofSettings name hfault

theorem Defined.fresh {a : Attribute} (h : a.Defined) :
    a.isRegistered = false ∧ a.reverse = none ∧ a.greatest = neverWritten := by
  obtain ⟨name, settings, _, rfl⟩ := defined_cases h
  exact ⟨rfl, rfl, rfl⟩

theorem bmod_emod_word (n : Int) : Int.bmod n (2 ^ 32) % 2 ^ 32 = n % 2 ^ 32 :=
  Int.bmod_emod

theorem toNat_toUInt32 (v : Int32) : (v.toUInt32.toNat : Int) = v.toInt % 2 ^ 32 := by
  have hbits : v.toInt = Int.bmod v.toUInt32.toNat (2 ^ 32) := BitVec.toInt_eq_toNat_bmod _
  have hlt := v.toUInt32.toNat_lt
  rw [hbits, bmod_emod_word]
  omega

theorem toInt_toInt32 (w : UInt32) : w.toInt32.toInt = Int.bmod w.toNat (2 ^ 32) :=
  BitVec.toInt_eq_toNat_bmod _

theorem toNat_encode {a : Attribute} {v : Int32} (h : a.minimum.toInt ≤ v.toInt) :
    ((a.encode v).toNat : Int) = v.toInt - a.minimum.toInt := by
  have hv := v.toInt_lt
  have hmin := a.minimum.le_toInt
  rw [encode, toNat_toUInt32, Int32.toInt_sub, bmod_emod_word]
  omega

theorem toInt_decode_eq_bmod (a : Attribute) (raw : UInt32) :
    (a.decode raw).toInt = Int.bmod (a.minimum.toInt + raw.toNat) (2 ^ 32) := by
  rw [decode, Int32.toInt_add, toInt_toInt32, Int.add_bmod_bmod]

theorem toInt_decode {a : Attribute} {raw : UInt32}
    (h : a.minimum.toInt + raw.toNat < 2 ^ 31) :
    (a.decode raw).toInt = a.minimum.toInt + raw.toNat := by
  have hmin := a.minimum.le_toInt
  rw [toInt_decode_eq_bmod]
  apply Int.bmod_eq_of_le <;> omega

theorem toInt_neg_of_lt {v : Int32} (h : neverWritten.toInt < v.toInt) : (-v).toInt = -v.toInt := by
  have hnever : neverWritten.toInt = -2 ^ 31 := by decide
  have hv := v.toInt_lt
  rw [Int32.toInt_neg]
  apply Int.bmod_eq_of_le <;> omega

def InRange (a : Attribute) (v : Int) : Prop :=
  a.minimum.toInt ≤ v ∧ v ≤ a.maximum.toInt

namespace Sound

variable {a : Attribute}

theorem maximum_eq_of_negates (h : a.Sound) (hneg : a.negates = true) :
    a.maximum.toInt = a.minimum.toInt + (2 ^ a.bits.toNat : Nat) - 2 := by
  have hrange := h.range_eq
  rw [hneg, if_pos rfl] at hrange
  push_cast
  omega

theorem maximum_eq_of_not_negates (h : a.Sound) (hneg : a.negates = false) :
    a.maximum.toInt = a.minimum.toInt + (2 ^ a.bits.toNat : Nat) - 1 := by
  have hrange := h.range_eq
  rw [hneg, if_neg (by decide)] at hrange
  push_cast
  omega

theorem inRange_minimum (h : a.Sound) : a.InRange a.minimum.toInt := by
  have hrange := h.range_eq
  have hpow : (2 : Int) ^ 1 ≤ 2 ^ a.bits.toNat := by
    exact_mod_cast Nat.pow_le_pow_right Nat.two_pos h.bits_pos
  refine ⟨Int.le_refl _, ?_⟩
  split_ifs at hrange <;> omega

theorem inRange_neg (h : a.Sound) (hneg : a.negates = true) {v : Int} (hv : a.InRange v) :
    a.InRange (-v) := by
  have hsymmetric := h.symmetric hneg
  obtain ⟨hlow, hhigh⟩ := hv
  exact ⟨by omega, by omega⟩

theorem toInt_neg (h : a.Sound) {v : Int32} (hv : a.InRange v.toInt) : (-v).toInt = -v.toInt :=
  toInt_neg_of_lt (Int.lt_of_lt_of_le h.neverWritten_lt hv.1)

theorem encode_lt (h : a.Sound) {v : Int32} (hv : a.InRange v.toInt) :
    (a.encode v).toNat < 2 ^ a.bits.toNat := by
  have hnat := toNat_encode hv.1
  have hrange := h.range_eq
  have hhigh := hv.2
  have hlt : ((a.encode v).toNat : Int) < 2 ^ a.bits.toNat := by
    split_ifs at hrange <;> omega
  exact_mod_cast hlt

theorem toInt_decode_of_eq {n : Nat} {v : Int} (hv : a.InRange v)
    (hn : (n : Int) = v - a.minimum.toInt) : (a.decode (UInt32.ofNat n)).toInt = v := by
  have hmax := a.maximum.toInt_lt
  have hmin := a.minimum.le_toInt
  obtain ⟨hlow, hhigh⟩ := hv
  have hnat : (UInt32.ofNat n).toNat = n :=
    UInt32.toNat_ofNat_of_lt' (by rw [UInt32.size]; omega)
  rw [toInt_decode (by omega), hnat]
  omega

end Sound

end PackedEdges.Attribute
