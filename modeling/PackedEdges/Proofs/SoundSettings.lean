import Mathlib
import PackedEdges.Proofs.AttributeRange

/-! The settings that define an attribute, and the numbers of the attribute that they define. All
of them can be worked out in machine words, since every step stays within the word it uses. -/

namespace PackedEdges

structure Settings.Acceptable (settings : Settings) : Prop where
  bits_pos : 1 ≤ settings.bits.toNat
  bits_le : settings.bits.toNat ≤ 31
  negates : settings.negates = true → settings.minimum = 0 ∧ settings.twoDirections = false
  minimum_ne : settings.minimum ≠ Int32.minValue
  greatest_le : settings.minimum.toInt + 2 ^ settings.bits.toNat - 1 ≤ Int32.maxValue.toInt

namespace Attribute

theorem settingsFault?_eq_none_iff {settings : Settings} :
    settingsFault? settings = none ↔ settings.Acceptable := by
  have htop : Int32.maxValue.toInt = 2 ^ 31 - 1 := by decide
  constructor
  · intro h
    obtain ⟨⟨hpos, hle⟩, hnegates, hmin, hmax⟩ := bounds_of_settingsFault? h
    rw [greatestOfBits_eq] at hmax
    refine ⟨hpos, hle, hnegates, ?_, by omega⟩
    intro he
    rw [he] at hmin
    exact absurd hmin (by decide)
  · rintro ⟨hpos, hle, hnegates, hmin, hmax⟩
    have hzero : settings.bits ≠ 0 := by
      intro he
      rw [he] at hpos
      exact absurd hpos (by decide)
    have hmany : ¬ maxBits < settings.bits := by
      rw [UInt32.lt_iff_toNat_lt, show maxBits.toNat = 31 from rfl]
      omega
    have hconflict : ¬ (settings.negates = true ∧
        (settings.minimum ≠ 0 ∨ settings.twoDirections = true)) := by
      rintro ⟨hn, hbad⟩
      obtain ⟨hz, htwo⟩ := hnegates hn
      simp [hz, htwo] at hbad
    have hrange : ¬ Int32.maxValue.toInt < settings.minimum.toInt + greatestOfBits settings.bits := by
      rw [greatestOfBits_eq]
      omega
    have hreserved : settings.minimum ≠ neverWritten := hmin
    rw [settingsFault?, if_neg hzero, if_neg hmany, if_neg hconflict, if_neg hreserved,
      if_neg hrange]

theorem define?_eq_ok_iff {rules : NameRules} {name : String} {settings : Settings}
    {a : Attribute} : define? rules name settings = .ok a ↔
      rules.accepts name = true ∧ settings.Acceptable ∧ a = ofSettings name settings := by
  rw [← settingsFault?_eq_none_iff, define?]
  cases rules.accepts name with
  | false => simp
  | true => cases settingsFault? settings <;> simp [eq_comm]

theorem define?_eq_error {rules : NameRules} {name : String} {settings : Settings} {e : Error}
    (h : define? rules name settings = .error e) : ∃ fault, e = .definition name fault := by
  rw [define?] at h
  split_ifs at h
  · exact ⟨.invalidName, (Except.error.inj h).symm⟩
  · split at h
    · next fault _ => exact ⟨fault, (Except.error.inj h).symm⟩
    · cases h

/-- What an attribute takes over from the settings that it is defined with. -/
structure DefinedBy (a : Attribute) (name : String) (settings : Settings) : Prop where
  name_eq : a.name = name
  flags_eq : a.negates = settings.negates ∧ a.twoDirections = settings.twoDirections ∧
    a.byBytes = settings.byBytes
  maximum_eq : a.maximum.toInt = settings.minimum.toInt + 2 ^ settings.bits.toNat - 1
  plain : settings.negates = false → a.bits = settings.bits ∧ a.minimum = settings.minimum ∧
    a.maximum.toInt - a.minimum.toInt = 2 ^ a.bits.toNat - 1
  /-- Every number that the slot can hold stands for a value. -/
  plain_decode (raw : UInt32) : settings.negates = false → raw.toNat < 2 ^ a.bits.toNat →
    (a.decode raw).toInt = a.minimum.toInt + raw.toNat ∧ a.InRange (a.decode raw).toInt
  negating : settings.negates = true → a.bits.toNat = settings.bits.toNat + 1 ∧
    a.minimum.toInt = -a.maximum.toInt ∧ a.maximum.toInt - a.minimum.toInt = 2 ^ a.bits.toNat - 2
  minimum_bounds : Int32.minValue.toInt < a.minimum.toInt ∧ a.minimum.toInt ≤ a.maximum.toInt
  fresh : a.isRegistered = false ∧ a.forward = {} ∧ a.reverse = none
  unwritten : a.greatest = neverWritten ∧ a.greatestOrMaximum = a.maximum

theorem definedBy_ofSettings (name : String) {settings : Settings} (h : settings.Acceptable) :
    (ofSettings name settings).DefinedBy name settings := by
  have hfault := settingsFault?_eq_none_iff.mpr h
  have hsound := sound_ofSettings name hfault
  have hmaximum : (ofSettings name settings).maximum.toInt =
      settings.minimum.toInt + 2 ^ settings.bits.toNat - 1 := by
    rw [toInt_maximum_ofSettings name hfault, greatestOfBits_eq]
    omega
  have hplain (hn : settings.negates = false) :
      (ofSettings name settings).maximum.toInt - (ofSettings name settings).minimum.toInt =
        2 ^ (ofSettings name settings).bits.toNat - 1 := by
    have hrange := hsound.maximum_eq_of_not_negates hn
    push_cast at hrange
    omega
  refine ⟨rfl, ⟨rfl, rfl, rfl⟩, hmaximum, fun hn => ⟨?_, ?_, hplain hn⟩, fun raw hn hraw => ?_,
    fun hn => ⟨?_, hsound.symmetric hn, ?_⟩, ⟨hsound.neverWritten_lt, hsound.inRange_minimum.2⟩,
    ⟨rfl, rfl, rfl⟩, rfl, rfl⟩
  · simp [ofSettings, hn]
  · simp [ofSettings, hn]
  · have hlt : (raw.toNat : Int) < 2 ^ (ofSettings name settings).bits.toNat := by
      exact_mod_cast hraw
    have hrange := hplain hn
    have htop := (ofSettings name settings).maximum.toInt_lt
    have hdecode : ((ofSettings name settings).decode raw).toInt =
        (ofSettings name settings).minimum.toInt + raw.toNat := toInt_decode (by omega)
    exact ⟨hdecode, by rw [hdecode]; omega, by rw [hdecode]; omega⟩
  · have hle := h.bits_le
    simp only [ofSettings, hn, if_true, UInt32.toNat_add, UInt32.toNat_one]
    omega
  · have hrange := hsound.maximum_eq_of_negates hn
    push_cast at hrange
    omega

/-- A number in a word that `make` makes of it, if the word holds this number unchanged. -/
def held? {α : Type} (make : Int → α) (value : α → Int) (n : Int) : Option α :=
  if value (make n) = n then some (make n) else none

def signed32? : Int → Option Int32 :=
  held? Int32.ofInt Int32.toInt

def unsigned32? : Int → Option UInt32 :=
  held? UInt32.ofInt fun word => word.toNat

def unsigned64? : Int → Option UInt64 :=
  held? UInt64.ofInt fun word => word.toNat

/-- The attribute with the numbers that its settings give, step by step. A step whose result its word
does not hold refuses the attribute, but the sum that gives the maximum is checked. -/
def fillInWords (name : String) (settings : Settings) : Outcome Attribute := do
  let power ← .ofOption (unsigned64? (2 ^ settings.bits.toNat))
  let ones ← .ofOption (unsigned64? (power.toNat - 1))
  let greatest ← .ofOption (signed32? ones.toNat)
  match signed32? (greatest.toInt + settings.minimum.toInt) with
  | none => .failed (.definition name (.rangeOverflow settings.minimum settings.bits))
  | some maximum =>
    let bits ← if settings.negates then .ofOption (unsigned32? (settings.bits.toNat + 1))
      else .done settings.bits
    let minimum ← if settings.negates then .ofOption (signed32? (-greatest.toInt))
      else .done settings.minimum
    return {
      name, bits, minimum, maximum
      greatest := neverWritten
      negates := settings.negates
      twoDirections := settings.twoDirections
      byBytes := settings.byBytes
      forward := {}
      reverse := none }

def defineInWords (rules : NameRules) (name : String) (settings : Settings) : Outcome Attribute :=
  if !rules.accepts name then .failed (.definition name .invalidName)
  else if settings.bits = 0 then .failed (.definition name .noBits)
  else if maxBits < settings.bits then .failed (.definition name (.tooManyBits settings.bits))
  else if settings.negates ∧ (settings.minimum ≠ 0 ∨ settings.twoDirections) then
    .failed (.definition name (.negationConflict settings.minimum settings.twoDirections))
  else if settings.minimum = neverWritten then .failed (.definition name .reservedMinimum)
  else fillInWords name settings

theorem exists_held? {α : Type} {make : Int → α} {value : α → Int} {n : Int}
    (h : value (make n) = n) : ∃ word, held? make value n = some word ∧ value word = n :=
  ⟨make n, if_pos h, h⟩

theorem exists_unsigned32? {n : Int} (hlow : 0 ≤ n) (hhigh : n < 2 ^ 32) :
    ∃ word, unsigned32? n = some word ∧ (word.toNat : Int) = n := by
  apply exists_held?
  simp only [UInt32.ofInt, UInt32.toNat_ofNat']
  omega

theorem exists_unsigned64? {n : Int} (hlow : 0 ≤ n) (hhigh : n < 2 ^ 64) :
    ∃ word, unsigned64? n = some word ∧ (word.toNat : Int) = n := by
  apply exists_held?
  simp only [UInt64.ofInt, UInt64.toNat_ofNat']
  omega

theorem exists_signed32? {n : Int} (hlow : -2 ^ 31 ≤ n) (hhigh : n < 2 ^ 31) :
    ∃ word, signed32? n = some word ∧ word.toInt = n :=
  exists_held? (Int32.toInt_ofInt_of_le hlow hhigh)

theorem signed32?_eq_none {n : Int} (h : 2 ^ 31 ≤ n) : signed32? n = none := by
  apply if_neg
  have hlt := (Int32.ofInt n).toInt_lt
  omega

/-- Up to the sum for the maximum no step fails, whatever the minimum is. -/
theorem exists_greatest {settings : Settings} (hpos : 1 ≤ settings.bits.toNat)
    (hle : settings.bits.toNat ≤ 31) : ∃ power ones greatest,
      unsigned64? (2 ^ settings.bits.toNat) = some power ∧
      unsigned64? (power.toNat - 1) = some ones ∧ signed32? ones.toNat = some greatest ∧
      greatest.toInt = greatestOfBits settings.bits := by
  obtain ⟨hone, hlt⟩ := greatestOfBits_bounds hpos hle
  rw [greatestOfBits_eq] at hone hlt ⊢
  obtain ⟨power, hpower, hvalue⟩ :=
    exists_unsigned64? (n := 2 ^ settings.bits.toNat) (by omega) (by omega)
  obtain ⟨ones, hones, hless⟩ :=
    exists_unsigned64? (n := power.toNat - 1) (by omega) (by omega)
  obtain ⟨greatest, hgreatest, hsame⟩ :=
    exists_signed32? (n := ones.toNat) (by omega) (by omega)
  exact ⟨power, ones, greatest, hpower, hones, hgreatest, by omega⟩

theorem fillInWords_eq (name : String) {settings : Settings} (hpos : 1 ≤ settings.bits.toNat)
    (hle : settings.bits.toNat ≤ 31) : fillInWords name settings =
      if Int32.maxValue.toInt < settings.minimum.toInt + greatestOfBits settings.bits then
        .failed (.definition name (.rangeOverflow settings.minimum settings.bits))
      else .done (ofSettings name settings) := by
  obtain ⟨power, ones, greatest, hpower, hones, hgreatest, hvalue⟩ := exists_greatest hpos hle
  have htop : Int32.maxValue.toInt = 2 ^ 31 - 1 := by decide
  have hlow := settings.minimum.le_toInt
  obtain ⟨hone, hlt⟩ := greatestOfBits_bounds hpos hle
  simp only [fillInWords, hpower, hones, hgreatest, Outcome.ofOption, Outcome.done_bind]
  by_cases hrange : Int32.maxValue.toInt < settings.minimum.toInt + greatestOfBits settings.bits
  · rw [if_pos hrange, signed32?_eq_none (by omega)]
  · obtain ⟨maximum, hmaximum, hsum⟩ :=
      exists_signed32? (n := greatest.toInt + settings.minimum.toInt) (by omega) (by omega)
    have hmax : maximum = Int32.ofInt (settings.minimum.toInt + greatestOfBits settings.bits) := by
      rw [← Int32.ofInt_toInt maximum, hsum, hvalue, Int.add_comm]
    rw [if_neg hrange, hmaximum]
    cases hneg : settings.negates with
    | false =>
      simp only [Bool.false_eq_true, if_false, ofSettings, hneg, hmax]
      rfl
    | true =>
      obtain ⟨bits, hbits, hwidth⟩ :=
        exists_unsigned32? (n := settings.bits.toNat + 1) (by omega) (by omega)
      obtain ⟨minimum, hminimum, hleast⟩ :=
        exists_signed32? (n := -greatest.toInt) (by omega) (by omega)
      have hmin : minimum = Int32.ofInt (-greatestOfBits settings.bits) := by
        rw [← Int32.ofInt_toInt minimum, hleast, hvalue]
      have hstored : bits = settings.bits + 1 := by
        apply UInt32.toNat_inj.mp
        rw [UInt32.toNat_add, UInt32.toNat_one]
        omega
      simp only [if_true, hbits, hminimum, Outcome.done_bind, ofSettings, hneg, hmax, hmin, hstored]
      rfl

theorem defineInWords_eq (rules : NameRules) (name : String) (settings : Settings) :
    defineInWords rules name settings = .ofExcept (define? rules name settings) := by
  rw [defineInWords, define?, settingsFault?]
  split_ifs with hname hbits hmany hneg hmin hrange
  · rfl
  · rfl
  · rfl
  · rfl
  · rfl
  · obtain ⟨hpos, hle⟩ := bits_bounds hbits hmany
    rw [fillInWords_eq name hpos hle, if_pos hrange]
    rfl
  · obtain ⟨hpos, hle⟩ := bits_bounds hbits hmany
    rw [fillInWords_eq name hpos hle, if_neg hrange]
    rfl

/-- An attribute is defined by a valid name and acceptable settings and by nothing else. Its range is
what the settings ask for, and no number on the way to it leaves its word. -/
theorem defined_iff_acceptable (rules : NameRules) (name : String) (settings : Settings) :
    ((∃ a, define? rules name settings = .ok a) ↔
        rules.accepts name = true ∧ settings.Acceptable) ∧
      (∀ e, define? rules name settings = .error e → ∃ fault, e = .definition name fault) ∧
      (∀ a, define? rules name settings = .ok a → a.DefinedBy name settings) ∧
      defineInWords rules name settings = .ofExcept (define? rules name settings) ∧
      defineInWords rules name settings ≠ .refused := by
  refine ⟨?_, fun e he => define?_eq_error he, fun a ha => ?_, defineInWords_eq _ _ _, ?_⟩
  · simp only [define?_eq_ok_iff]
    tauto
  · obtain ⟨_, hacceptable, rfl⟩ := define?_eq_ok_iff.mp ha
    exact definedBy_ofSettings name hacceptable
  · rw [defineInWords_eq]
    cases define? rules name settings <;> simp [Outcome.ofExcept]

/-- The widest ranges there are: one on both sides of zero, one that ends at zero, and one that a
greater minimum would push out of the numbers. -/
theorem defined_iff_acceptable_widest :
    let balance : Settings := { bits := 31, negates := true }
    let depth : Settings := { bits := 31, minimum := -2147483647 }
    let height : Settings := { bits := 31, minimum := 1 }
    (∃ a, define? {} "balance" balance = .ok a ∧ a.bits.toNat = 32 ∧
        a.minimum.toInt = -a.maximum.toInt) ∧
      (∃ a, define? {} "depth" depth = .ok a ∧ a.maximum.toInt = 0 ∧
        (a.decode 2147483647).toInt = a.minimum.toInt + 2147483647) ∧
      (∃ fault, define? {} "height" height = .error (.definition "height" fault)) ∧
      ¬ height.Acceptable := by
  intro balance depth height
  obtain ⟨_, _, hbalance, _⟩ := defined_iff_acceptable {} "balance" balance
  obtain ⟨_, _, hdepth, _⟩ := defined_iff_acceptable {} "depth" depth
  obtain ⟨hheight, hfault, _⟩ := defined_iff_acceptable {} "height" height
  have hwide : define? {} "balance" balance = .ok (ofSettings "balance" balance) :=
    define?_eq_ok_iff.mpr ⟨by cbv, settingsFault?_eq_none_iff.mp (by decide), rfl⟩
  have hdeep : define? {} "depth" depth = .ok (ofSettings "depth" depth) :=
    define?_eq_ok_iff.mpr ⟨by cbv, settingsFault?_eq_none_iff.mp (by decide), rfl⟩
  have hnot : ¬ height.Acceptable := mt settingsFault?_eq_none_iff.mpr (by decide)
  obtain ⟨hbits, hsymmetric, _⟩ := (hbalance _ hwide).negating rfl
  have hzero : depth.minimum.toInt + 2 ^ depth.bits.toNat - 1 = 0 := by decide
  refine ⟨⟨_, hwide, hbits, hsymmetric⟩,
    ⟨_, hdeep, (hdepth _ hdeep).maximum_eq.trans hzero, ?_⟩, ?_, hnot⟩
  · exact ((hdepth _ hdeep).plain_decode 2147483647 rfl (by decide)).1
  · cases hdefine : define? {} "height" height with
    | ok a => exact absurd (hheight.mp ⟨a, hdefine⟩).2 hnot
    | error e =>
      obtain ⟨fault, rfl⟩ := hfault e hdefine
      exact ⟨fault, rfl⟩

end Attribute

end PackedEdges
