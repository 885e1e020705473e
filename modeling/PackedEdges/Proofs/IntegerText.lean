import PackedEdges.Json.Value
import PackedEdges.Proofs.NumeralText

/-! The text of an integer is a numeral, and it denotes this integer if that fits into 64 bits. -/

namespace PackedEdges.Json

/-- Integers that a numeral can denote; those below zero have a sign bit. -/
def FitsNumeral (n : Int) : Prop :=
  -(UInt64.size / 2 : Nat) ≤ n ∧ n < UInt64.size

instance (n : Int) : Decidable (FitsNumeral n) :=
  inferInstanceAs (Decidable (_ ∧ _))

theorem spelled_digitValues (cs : List Char) :
    Numeral.spelled (digitValues cs) = Nat.ofDigitChars 10 cs 0 := by
  rw [Numeral.spelled, digitValues, List.foldl_map, Nat.ofDigitChars_eq_foldl]
  simp [Nat.mul_comm]

theorem head_toDigits_ne {n : Nat} (hn : 0 < n) {c : Char} {cs : List Char}
    (h : Nat.toDigits 10 n = c :: cs) : c ≠ '0' := by
  induction n using Nat.strongRecOn generalizing c cs with
  | ind n ih =>
    by_cases hlt : n < 10
    · have hdigit : ∀ d < 10, 0 < d → d.digitChar ≠ '0' := by decide
      rw [Nat.toDigits_of_lt_base hlt] at h
      obtain ⟨rfl, -⟩ := List.cons.inj h
      exact hdigit n hlt hn
    · -- The leading digit is the one of all digits but the last.
      rw [Nat.toDigits_of_base_le (by decide) (by omega)] at h
      cases hd : Nat.toDigits 10 (n / 10) with
      | nil => exact absurd hd Nat.toDigits_ne_nil
      | cons d ds =>
        rw [hd, List.cons_append] at h
        obtain ⟨rfl, -⟩ := List.cons.inj h
        exact ih (n / 10) (by omega) (by omega) hd

theorem allDigits_toDigits (n : Nat) : AllDigits (Nat.toDigits 10 n) :=
  ⟨Nat.toDigits_ne_nil, fun _ hc => Nat.isDigit_of_mem_toDigits (by decide) (by decide) hc⟩

theorem toDigits_eq_zero {n : Nat} (h : (Nat.toDigits 10 n).head? = some '0') :
    Nat.toDigits 10 n = ['0'] := by
  rcases Nat.eq_zero_or_pos n with rfl | hn
  · rfl
  · obtain ⟨c, cs, hcons, -⟩ := (allDigits_toDigits n).exists_eq_cons
    rw [hcons] at h
    exact absurd (Option.some.inj h) (head_toDigits_ne hn hcons)

namespace NumeralText

def ofInt (n : Int) : NumeralText where
  negative := decide (n < 0)
  whole := Nat.toDigits 10 n.natAbs
  fraction := []
  exponent := none
  whole_allDigits := allDigits_toDigits n.natAbs
  whole_eq_zero := toDigits_eq_zero
  fraction_allDigits h := absurd rfl h

theorem chars_ofInt (n : Int) : (ofInt n).chars = integerText n := by
  by_cases hn : n < 0 <;> simp [chars, minus, fractionChars, exponentChars, ofInt, integerText, hn]

theorem value_ofInt {n : Int} (h : FitsNumeral n) :
    (ofInt n).numeral.value = .ok (.integer n) := by
  obtain ⟨hlow, hhigh⟩ := h
  have hspelled : Numeral.spelled (ofInt n).numeral.whole = n.natAbs := by
    rw [numeral, ofInt, spelled_digitValues, Nat.ofDigitChars_ten_toDigits]
  have hinteger : (ofInt n).numeral.integerValue? = some n := by
    rw [Numeral.integerValue?, if_pos ⟨rfl, rfl⟩, hspelled]
    by_cases hn : n < 0
    · have hmagnitude : 0 < n.natAbs ∧ n.natAbs ≤ UInt64.size / 2 := by omega
      simp only [numeral, ofInt, hn, decide_true, if_true, if_pos hmagnitude, Option.some.injEq]
      omega
    · have hmagnitude : n.natAbs < UInt64.size := by omega
      simp only [numeral, ofInt, hn, decide_false, Bool.false_eq_true, if_false,
        if_pos hmagnitude, Option.some.injEq]
      omega
  rw [Numeral.value, hinteger]

end NumeralText

end PackedEdges.Json
