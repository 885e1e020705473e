import PackedEdges.Proofs.FloatValues

/-! Arithmetic on the floating-point numbers from zero on. An operation makes the rounded result of
the exact one; sums, products, quotients and differences, and the numbers that stand for the
natural ones. -/

namespace PackedEdges.Rounding

open Float.Model Float.Model.UnpackedFloat

variable {x y : Float} {p q : ℚ} {s : Sign} {u v : UnpackedFloat} {m n : ℕ} {e f : ℤ}

theorem Represents.stands_unpack (h : Represents s u q) :
    Stands s (Float.Model.pack u).unpack q := by
  rw [h.unpack_pack]
  exact h.stands

theorem represents_zero (s t : Sign) : Represents s (.zero t) (rounded 0) := by
  refine ⟨?_, trivial⟩
  rw [rounded_of_nonpos le_rfl]
  exact .zero t

theorem represents_finite {hm : 0 < m} (hc : Canonical (.finite s m e hm)) :
    Represents s (.finite s m e hm) (rounded (m * 2 ^ e)) := by
  refine ⟨?_, hc⟩
  rw [rounded_eq_self hc.1 hc.2.2.1]
  exact .finite m e hm

theorem shiftLeft_value (m : ℕ) {t : ℤ} (hte : t ≤ e) :
    ((m <<< (e - t).toNat : ℕ) : ℚ) * 2 ^ t = m * 2 ^ e := by
  obtain ⟨k, hk⟩ := Int.eq_ofNat_of_zero_le (sub_nonneg.2 hte)
  obtain rfl : e = t + k := by omega
  rw [hk, Int.toNat_natCast, Nat.shiftLeft_eq, zpow_add₀ (by norm_num), zpow_natCast]
  push_cast
  ring

theorem lastPlace_of_mantissa (hm : 0 < m) :
    lastPlace (m * 2 ^ e) = max (m.log2 + e - 52) (-1074) := by
  have hscaled : (m : ℚ) * 2 ^ e / 2 ^ e = m :=
    mul_div_cancel_right₀ _ (zpow_ne_zero e (by norm_num))
  rw [lastPlace, log_eq hm hscaled.ge (by rw [hscaled]; exact lt_add_one _)]

theorem represents_roundWithAccuracy_exact (s : Sign) (hm : 0 < m)
    (he : e ≤ lastPlace (m * 2 ^ e)) (hsmall : (m : ℚ) * 2 ^ e ≤ 2 ^ 100) :
    Represents s (roundWithAccuracy .binary64 s m e .exact) (rounded (m * 2 ^ e)) := by
  refine represents_roundWithAccuracy s ?_ ?_ he hsmall
  · exact mul_pos (by exact_mod_cast hm) (zpow_pos (by norm_num) e)
  · rw [mul_div_cancel_right₀ _ (zpow_ne_zero e (by norm_num))]
    exact extends_exact m

theorem represents_round (s : Sign) (hm : 0 < m) (hsmall : (m : ℚ) * 2 ^ e ≤ 2 ^ 100) :
    Represents s (UnpackedFloat.round .binary64 s m e) (rounded (m * 2 ^ e)) := by
  have hplace := lastPlace_of_mantissa (e := e) hm
  unfold UnpackedFloat.round
  simp only [decreaseExponent, targetExponent_binary64, ← hplace]
  rcases le_total e (lastPlace (m * 2 ^ e)) with hle | hle
  · rw [Int.toNat_eq_zero.2 (by omega), Nat.shiftLeft_zero, Nat.cast_zero, sub_zero]
    exact represents_roundWithAccuracy_exact s hm hle hsmall
  · have hvalue := shiftLeft_value m hle
    have hexp : e - ((e - lastPlace (m * 2 ^ e)).toNat : ℤ) = lastPlace (m * 2 ^ e) := by omega
    rw [hexp]
    generalize hn : m <<< (e - lastPlace (m * 2 ^ e)).toNat = n at hvalue
    have hpos : 0 < n := by
      rw [← hn, Nat.shiftLeft_eq]
      positivity
    have hmake := represents_roundWithAccuracy_exact (e := lastPlace (m * 2 ^ e)) s hpos
      (by rw [hvalue]) (by rwa [hvalue])
    rwa [hvalue] at hmake

theorem represents_normalize (s t : Sign) (hsmall : (n : ℚ) * 2 ^ e ≤ 2 ^ 100) :
    Represents s (UnpackedFloat.normalize .binary64 (s.apply n) e t) (rounded (n * 2 ^ e)) := by
  unfold UnpackedFloat.normalize
  rcases n.eq_zero_or_pos with rfl | hn
  · have hzero : compare (s.apply (0 : ℕ)) 0 = .eq := by cases s <;> rfl
    rw [hzero, Nat.cast_zero (R := ℚ), zero_mul]
    exact represents_zero s t
  · cases s with
    | positive =>
      have hcompare : compare (Sign.positive.apply n) 0 = .gt := by
        rw [compare_gt_iff_gt, Sign.apply]
        omega
      rw [hcompare]
      exact represents_round .positive hn hsmall
    | negative =>
      have hcompare : compare (Sign.negative.apply n) 0 = .lt := by
        rw [compare_lt_iff_lt, Sign.apply]
        omega
      have hnat : (-Sign.negative.apply n).toNat = n := by simp [Sign.apply]
      rw [hcompare]
      simp only [hnat]
      exact represents_round .negative hn hsmall

theorem represents_add (hu : Represents .positive u p) (hv : Represents .positive v q)
    (hsmall : p + q ≤ 2 ^ 100) :
    Represents .positive (UnpackedFloat.add .binary64 u v) (rounded (p + q)) := by
  obtain ⟨hu, hcu⟩ := hu
  obtain ⟨hv, hcv⟩ := hv
  cases hu with
  | zero t =>
    rw [zero_add]
    cases hv with
    | zero t' =>
      simp only [UnpackedFloat.add]
      split_ifs
      · exact represents_zero _ t
      · exact represents_zero _ .positive
    | finite n f hn => exact represents_finite hcv
  | finite m e hm =>
    cases hv with
    | zero t' =>
      rw [add_zero]
      exact represents_finite hcu
    | finite n f hn =>
      rw [← shiftLeft_value m (min_le_left e f), ← shiftLeft_value n (min_le_right e f),
        ← add_mul, ← Nat.cast_add] at hsmall ⊢
      exact represents_normalize .positive .positive hsmall

theorem represents_difference (s : Sign) (hnm : n ≤ m) (hsmall : (m : ℚ) * 2 ^ e ≤ 2 ^ 100) :
    Represents s (UnpackedFloat.normalize .binary64 (s.apply (m - n : ℕ)) e .positive)
      (rounded (m * 2 ^ e - n * 2 ^ e)) := by
  rw [← sub_mul, ← Nat.cast_sub hnm]
  refine represents_normalize s .positive ?_
  rw [Nat.cast_sub hnm, sub_mul]
  exact (sub_le_self _ (by positivity)).trans hsmall

theorem represents_sub (hu : Represents .positive u p) (hv : Represents .positive v q)
    (hp : p ≤ 2 ^ 100) (hq : q ≤ 2 ^ 100) :
    (q ≤ p → Represents .positive (UnpackedFloat.sub .binary64 u v) (rounded (p - q))) ∧
      (p ≤ q → Represents .negative (UnpackedFloat.sub .binary64 u v) (rounded (q - p))) := by
  obtain ⟨hu, hcu⟩ := hu
  obtain ⟨hv, hcv⟩ := hv
  cases hu with
  | zero t =>
    cases hv with
    | zero t' =>
      rw [sub_self]
      simp only [UnpackedFloat.sub]
      split_ifs <;> exact ⟨fun _ => represents_zero _ _, fun _ => represents_zero _ _⟩
    | finite n f hn =>
      have hpos : (0 : ℚ) < n * 2 ^ f := mul_pos (by exact_mod_cast hn) (zpow_pos (by norm_num) f)
      refine ⟨fun h => absurd hpos h.not_gt, fun _ => ?_⟩
      rw [sub_zero]
      exact represents_finite (s := .negative) hcv
  | finite m e hm =>
    have hpos : (0 : ℚ) < m * 2 ^ e := mul_pos (by exact_mod_cast hm) (zpow_pos (by norm_num) e)
    cases hv with
    | zero t' =>
      refine ⟨fun _ => ?_, fun h => absurd hpos h.not_gt⟩
      rw [sub_zero]
      exact represents_finite hcu
    | finite n f hn =>
      have hscale : (0 : ℚ) < 2 ^ min e f := zpow_pos (by norm_num) _
      rw [← shiftLeft_value m (min_le_left e f)] at hp ⊢
      rw [← shiftLeft_value n (min_le_right e f)] at hq ⊢
      simp only [UnpackedFloat.sub, decreaseExponent, Sign.apply]
      generalize m <<< (e - min e f).toNat = a at hp ⊢
      generalize n <<< (f - min e f).toNat = b at hq ⊢
      constructor
      · intro h
        have hba : b ≤ a := by exact_mod_cast le_of_mul_le_mul_right h hscale
        have hsub : (a : ℤ) - b = Sign.positive.apply (a - b : ℕ) := by
          rw [Sign.apply, Nat.cast_sub hba]
        rw [hsub]
        exact represents_difference .positive hba hp
      · intro h
        have hab : a ≤ b := by exact_mod_cast le_of_mul_le_mul_right h hscale
        have hsub : (a : ℤ) - b = Sign.negative.apply (b - a : ℕ) := by
          rw [Sign.apply, Nat.cast_sub hab, neg_sub]
        rw [hsub]
        exact represents_difference .negative hab hq

theorem represents_mul (hu : Represents .positive u p) (hv : Represents .positive v q)
    (hsmall : p * q ≤ 2 ^ 100) :
    Represents .positive (UnpackedFloat.mul .binary64 u v) (rounded (p * q)) := by
  obtain ⟨hu, hcu⟩ := hu
  obtain ⟨hv, hcv⟩ := hv
  cases hu with
  | zero t =>
    rw [zero_mul]
    cases hv with
    | zero t' => exact represents_zero .positive _
    | finite n f hn => exact represents_zero .positive _
  | finite m e hm =>
    cases hv with
    | zero t' =>
      rw [mul_zero]
      exact represents_zero .positive _
    | finite n f hn =>
      have hmn : 0 < m * n := Nat.mul_pos hm hn
      have hvalue : (m : ℚ) * 2 ^ e * (n * 2 ^ f) = ((m * n : ℕ) : ℚ) * 2 ^ (e + f) := by
        rw [zpow_add₀ (by norm_num), Nat.cast_mul]
        ring
      rw [hvalue] at hsmall ⊢
      refine represents_roundWithAccuracy_exact .positive hmn ?_ hsmall
      rw [lastPlace_of_mantissa hmn, le_max_iff]
      -- One of the mantissas is full, or both numbers lie in the least place.
      by_cases hlong : 2 ^ 52 ≤ m * n
      · have := (Nat.le_log2 hmn.ne').2 hlong
        exact .inl (by omega)
      · have he : e = -1074 := hcu.2.1.resolve_left fun h =>
          hlong (h.trans (Nat.le_mul_of_pos_right m hn))
        have hf : f = -1074 := hcv.2.1.resolve_left fun h =>
          hlong (h.trans (Nat.le_mul_of_pos_left n hm))
        exact .inr (by omega)

/-- What a whole division leaves tells where behind the quotient the number lies. -/
theorem extends_fraction (a : ℕ) {b : ℕ} (hb : 0 < b) :
    Extends (.ofMantissaAndAccuracy (a / b) (accuracyOfFraction (a % b) b)) ((a : ℚ) / b) := by
  have hpos : (0 : ℚ) < b := by exact_mod_cast hb
  have hrest : (a : ℚ) / b = (a / b : ℕ) + (a % b : ℕ) / b := by
    rw [eq_comm, ← mul_right_cancel_iff_of_pos hpos]
    field_simp
    exact_mod_cast Nat.div_add_mod' a b
  rw [hrest]
  generalize a / b = k
  have hlt : a % b < b := Nat.mod_lt a hb
  generalize a % b = r at hlt
  unfold accuracyOfFraction
  split_ifs with hr
  · simp [Extends, ExtendedMantissa.ofMantissaAndAccuracy, hr]
  · have hrpos : (0 : ℚ) < r / b := div_pos (by exact_mod_cast Nat.pos_of_ne_zero hr) hpos
    rcases lt_trichotomy (2 * r) b with h | h | h
    · have hhalf : (r : ℚ) / b < 1 / 2 := by
        rw [div_lt_div_iff₀ hpos two_pos]
        exact_mod_cast (by omega : r * 2 < 1 * b)
      rw [compare_lt_iff_lt.2 h]
      show (k : ℚ) < k + r / b ∧ (k : ℚ) + r / b < k + 1 / 2
      constructor <;> linarith
    · have hhalf : (r : ℚ) / b = 1 / 2 := by
        rw [div_eq_div_iff hpos.ne' two_ne_zero]
        exact_mod_cast (by omega : r * 2 = 1 * b)
      rw [compare_eq_iff_eq.2 h, hhalf]
      exact rfl
    · have hhalf : 1 / 2 < (r : ℚ) / b := by
        rw [div_lt_div_iff₀ two_pos hpos]
        exact_mod_cast (by omega : 1 * b < r * 2)
      have hone : (r : ℚ) / b < 1 := by
        rw [div_lt_one hpos]
        exact_mod_cast hlt
      rw [compare_gt_iff_gt.2 h]
      show (k : ℚ) + 1 / 2 < k + r / b ∧ (k : ℚ) + r / b < k + 1
      constructor <;> linarith

/-- A quotient has as many digits as the lengths of the two numbers tell, or one less. -/
theorem le_log_div (hm : 0 < m) (hn : 0 < n) :
    (m.log2 : ℤ) + e - (n.log2 + f) - 1 ≤ Int.log 2 ((m : ℚ) * 2 ^ e / (n * 2 ^ f)) := by
  have hmpos : (0 : ℚ) < m := by exact_mod_cast hm
  have hnpos : (0 : ℚ) < n := by exact_mod_cast hn
  rw [← Int.zpow_le_iff_le_log (by norm_num) (by positivity), le_div_iff₀ (by positivity)]
  have hnat : n ≤ 2 ^ (n.log2 + 1) := Nat.lt_log2_self.le
  have hlow : (2 : ℚ) ^ (m.log2 : ℤ) ≤ m := by
    rw [zpow_natCast]
    exact_mod_cast Nat.log2_self_le hm.ne'
  have hhigh : (n : ℚ) ≤ 2 ^ ((n.log2 : ℤ) + 1) := by exact_mod_cast hnat
  calc ((2 : ℕ) : ℚ) ^ ((m.log2 : ℤ) + e - (n.log2 + f) - 1) * (n * 2 ^ f)
      ≤ 2 ^ ((m.log2 : ℤ) + e - (n.log2 + f) - 1) * (2 ^ ((n.log2 : ℤ) + 1) * 2 ^ f) := by
        push_cast
        gcongr
    _ = 2 ^ (m.log2 : ℤ) * 2 ^ e := by
        rw [← zpow_add₀ (by norm_num), ← zpow_add₀ (by norm_num), ← zpow_add₀ (by norm_num)]
        congr 1
        ring
    _ ≤ m * 2 ^ e := by gcongr

theorem represents_div (hu : Represents .positive u p) (hv : Represents .positive v q) (hq : 0 < q)
    (hsmall : p / q ≤ 2 ^ 100) :
    Represents .positive (UnpackedFloat.div .binary64 u v) (rounded (p / q)) := by
  obtain ⟨hu, -⟩ := hu
  obtain ⟨hv, -⟩ := hv
  cases hu with
  | zero t =>
    rw [zero_div]
    cases hv with
    | zero t' => exact absurd hq (lt_irrefl _)
    | finite n f hn => exact represents_zero .positive _
  | finite m e hm =>
    cases hv with
    | zero t' => exact absurd hq (lt_irrefl _)
    | finite n f hn =>
      have hlog := le_log_div (e := e) (f := f) hm hn
      set t := min (e - f) (Format.binary64.targetExponent (totalExponent m e - totalExponent n f))
        with ht
      have htarget : t ≤ lastPlace ((m : ℚ) * 2 ^ e / (n * 2 ^ f)) := by
        refine (min_le_right _ _).trans ?_
        simp only [Format.targetExponent, totalExponent, Format.minExponent, Format.mantissaBits,
          lastPlace]
        norm_num
        omega
      have hscaled : (m : ℚ) * 2 ^ e / (n * 2 ^ f) / 2 ^ t =
          ((m <<< (e - f - t).toNat : ℕ) : ℚ) / n := by
        have hnpos : (n : ℚ) ≠ 0 := by exact_mod_cast hn.ne'
        have hshift := shiftLeft_value m (min_le_left _ _ : t ≤ e - f)
        rw [zpow_sub₀ (by norm_num)] at hshift
        field_simp at hshift ⊢
        linarith
      refine represents_roundWithAccuracy .positive ?_ ?_ htarget hsmall
      · have hmpos : (0 : ℚ) < m := by exact_mod_cast hm
        positivity
      · rw [hscaled]
        exact extends_fraction _ hn

theorem IsValue.represents (h : IsValue x q) : Represents .positive x.toModel.unpack q :=
  ⟨h, canonical_unpack _⟩

theorem IsValue.add (hx : IsValue x p) (hy : IsValue y q) (hsmall : p + q ≤ 2 ^ 100) :
    IsValue (x + y) (rounded (p + q)) :=
  (represents_add hx.represents hy.represents hsmall).stands_unpack

theorem IsValue.mul (hx : IsValue x p) (hy : IsValue y q) (hsmall : p * q ≤ 2 ^ 100) :
    IsValue (x * y) (rounded (p * q)) :=
  (represents_mul hx.represents hy.represents hsmall).stands_unpack

theorem IsValue.div (hx : IsValue x p) (hy : IsValue y q) (hq : 0 < q)
    (hsmall : p / q ≤ 2 ^ 100) : IsValue (x / y) (rounded (p / q)) :=
  (represents_div hx.represents hy.represents hq hsmall).stands_unpack

theorem IsValue.sub (hx : IsValue x p) (hy : IsValue y q) (hqp : q ≤ p) (hsmall : p ≤ 2 ^ 100) :
    IsValue (x - y) (rounded (p - q)) :=
  ((represents_sub hx.represents hy.represents hsmall (hqp.trans hsmall)).1 hqp).stands_unpack

theorem represents_abs (h : Represents s u q) : Represents .positive u.abs q := by
  obtain ⟨hstands, hcanonical⟩ := h
  cases hstands with
  | zero t => exact ⟨.zero _, trivial⟩
  | finite m e hm => exact ⟨.finite m e hm, hcanonical⟩

theorem Represents.stands_abs (h : Represents s u q) :
    Stands .positive (Float.Model.pack (Float.Model.pack u).unpack.abs).unpack q := by
  rw [h.unpack_pack]
  exact (represents_abs h).stands_unpack

theorem IsValue.abs_sub (hx : IsValue x p) (hy : IsValue y q) (hp : p ≤ 2 ^ 100)
    (hq : q ≤ 2 ^ 100) : IsValue (x - y).abs (rounded |p - q|) := by
  have hsub := represents_sub hx.represents hy.represents hp hq
  rcases le_total q p with hle | hle
  · rw [abs_of_nonneg (sub_nonneg.2 hle)]
    exact (hsub.1 hle).stands_abs
  · rw [abs_sub_comm, abs_of_nonneg (sub_nonneg.2 hle)]
    exact (hsub.2 hle).stands_abs

theorem isValue_of_unpack (x : Float) (m : ℕ) (e : ℤ) (hm : 0 < m)
    (h : x.toModel.unpack = .finite .positive m e hm) : IsValue x (m * 2 ^ e) := by
  rw [IsValue, h]
  exact .finite m e hm

theorem isValue_zero : IsValue 0.0 0 :=
  .zero .positive

theorem isValue_one : IsValue 1.0 1 := by
  have h := isValue_of_unpack 1.0 (2 ^ 52) (-52) (by decide) rfl
  norm_num at h
  exact h

theorem isValue_zero_div (hx : IsValue x 0) (hy : IsValue y q) (hq : 0 < q) :
    IsValue (x / y) 0 := by
  have h := hx.div hy hq (by simp)
  rwa [zero_div, rounded_of_nonpos le_rfl] at h

theorem isValue_one_sub_zero (hx : IsValue x 0) : IsValue (1.0 - x) 1 := by
  have h := isValue_one.sub hx zero_le_one (by norm_num)
  rwa [sub_zero, isValue_one.rounded_eq] at h

theorem rounded_natCast (hn : n < 2 ^ 53) : rounded (n : ℚ) = n := by
  simpa using rounded_eq_self (e := 0) hn (by norm_num)

theorem natCast_small (hn : n ≤ 2 ^ 70) : (n : ℚ) ≤ 2 ^ 100 := by
  exact_mod_cast hn.trans (by norm_num : 2 ^ 70 ≤ 2 ^ 100)

theorem isValue_toUInt64_toFloat (hn : n < 2 ^ 53) : IsValue n.toUInt64.toFloat n := by
  have htoNat : n.toUInt64.toNat = n := UInt64.toNat_ofNat_of_lt (hn.trans (by decide))
  have hsmall := natCast_small (hn.le.trans (by norm_num))
  have hmake := represents_normalize .positive .positive (n := n) (e := 0) (by simpa using hsmall)
  rw [zpow_zero, mul_one, rounded_natCast hn] at hmake
  show Stands .positive (Float.Model.pack
    (UnpackedFloat.normalize .binary64 (n.toUInt64.toNat : ℕ) 0 .positive)).unpack n
  rw [htoNat]
  exact hmake.stands_unpack

theorem isValue_toFloat_of_lt (hn : n < 2 ^ 53) : IsValue n.toFloat n := by
  have hdef : n.toFloat = n.toUInt64.toFloat * 1.0 := by
    show Float.ofScientific n false 0 = _
    rw [Float.ofScientific, dif_pos ⟨hn, by norm_num⟩]
    rfl
  have hsmall := natCast_small (hn.le.trans (by norm_num))
  have hmul := (isValue_toUInt64_toFloat hn).mul isValue_one (by simpa using hsmall)
  rwa [mul_one, rounded_natCast hn, ← hdef] at hmul

/-- A number of more digits is rounded once, from a mantissa that is 53 digits longer. -/
theorem toFloat_of_ge (hn : 2 ^ 53 ≤ n) : n.toFloat = ⟨Float.Model.pack
    (roundWithAccuracy .binary64 .positive (n <<< 53 * 10 ^ 0) (-53 + 0) .exact)⟩ := by
  have hpos : 0 < n := lt_of_lt_of_le (by norm_num) hn
  have hnotTiny : ¬(0 : ℤ) < -(2 ^ 11 + n.log2) := by omega
  show Float.ofScientific n false 0 = _
  rw [Float.ofScientific, dif_neg fun h => absurd h.1 (not_lt.2 hn)]
  show Float.ofModel (Float.Model.pack (UnpackedFloat.ofScientific .binary64 n 0)) = _
  rw [UnpackedFloat.ofScientific, dif_neg hpos.ne', if_neg (by decide), if_neg hnotTiny,
    if_pos le_rfl]
  rfl

theorem isValue_toFloat (hn : n ≤ 2 ^ 70) : IsValue n.toFloat (rounded n) := by
  rcases lt_or_ge n (2 ^ 53) with hlt | hge
  · have h := isValue_toFloat_of_lt hlt
    rwa [← h.rounded_eq] at h
  have hscaled : ((n <<< 53 * 10 ^ 0 : ℕ) : ℚ) * 2 ^ (-53 + 0 : ℤ) = n := by
    rw [Nat.shiftLeft_eq]
    push_cast
    field_simp
    norm_num
  have hpos : 0 < n <<< 53 * 10 ^ 0 := by
    rw [Nat.shiftLeft_eq]
    omega
  have hlog : 53 ≤ (n <<< 53 * 10 ^ 0).log2 := by
    rw [Nat.le_log2 hpos.ne', Nat.shiftLeft_eq]
    omega
  have hplace : (-53 + 0 : ℤ) ≤ lastPlace (((n <<< 53 * 10 ^ 0 : ℕ) : ℚ) * 2 ^ (-53 + 0 : ℤ)) := by
    rw [lastPlace_of_mantissa hpos]
    omega
  have hmake := represents_roundWithAccuracy_exact .positive (e := -53 + 0) hpos hplace (by
    rw [hscaled]
    exact natCast_small hn)
  rw [hscaled] at hmake
  rw [toFloat_of_ge hge]
  exact hmake.stands_unpack

/-- A number from zero to `r`. -/
def AtMost (x : Float) (r : ℚ) : Prop :=
  ∃ q, IsValue x q ∧ q ≤ r

variable {r t : ℚ}

theorem rounded_le_one (hq : q ≤ 1) : rounded q ≤ 1 := by
  have h := rounded_mono hq
  rwa [isValue_one.rounded_eq] at h

theorem IsValue.atMost (h : IsValue x q) (hqr : q ≤ r) : AtMost x r :=
  ⟨q, h, hqr⟩

theorem AtMost.mono (h : AtMost x r) (hrt : r ≤ t) : AtMost x t := by
  obtain ⟨q, hx, hqr⟩ := h
  exact ⟨q, hx, hqr.trans hrt⟩

theorem AtMost.isNaN (h : AtMost x r) : x.isNaN = false := by
  obtain ⟨q, hx, -⟩ := h
  exact hx.isNaN

theorem AtMost.le (h : AtMost x r) (hy : IsValue y r) : x ≤ y := by
  obtain ⟨q, hx, hqr⟩ := h
  exact (hx.le_iff hy).2 hqr

theorem AtMost.add (hx : AtMost x r) (hy : AtMost y t) (hsmall : r + t ≤ 2 ^ 100) :
    AtMost (x + y) (rounded (r + t)) := by
  obtain ⟨p, hx, hpr⟩ := hx
  obtain ⟨q, hy, hqt⟩ := hy
  have hle := add_le_add hpr hqt
  exact ⟨_, hx.add hy (hle.trans hsmall), rounded_mono hle⟩

theorem AtMost.mul (hx : AtMost x r) (hy : AtMost y t) (hsmall : r * t ≤ 2 ^ 100) :
    AtMost (x * y) (rounded (r * t)) := by
  obtain ⟨p, hx, hpr⟩ := hx
  obtain ⟨q, hy, hqt⟩ := hy
  have hle : p * q ≤ r * t := mul_le_mul hpr hqt hy.nonneg (hx.nonneg.trans hpr)
  exact ⟨_, hx.mul hy (hle.trans hsmall), rounded_mono hle⟩

theorem atMost_div (hx : IsValue x p) (hy : IsValue y q) (hq : 0 < q) (hpq : p ≤ q) :
    AtMost (x / y) 1 := by
  have hle : p / q ≤ 1 := (div_le_one hq).2 hpq
  exact ⟨_, hx.div hy hq (hle.trans (by norm_num)), rounded_le_one hle⟩

theorem atMost_one_sub (hx : AtMost x 1) : AtMost (1.0 - x) 1 := by
  obtain ⟨p, hx, hp⟩ := hx
  exact ⟨_, isValue_one.sub hx hp (by norm_num), rounded_le_one (sub_le_self 1 hx.nonneg)⟩

variable {x' y' : Float}

theorem add_mono_of_atMost (hx : AtMost x r) (hx' : AtMost x' r) (hy : AtMost y t)
    (hy' : AtMost y' t) (hsmall : r + t ≤ 2 ^ 100) (hxx : x ≤ x') (hyy : y ≤ y') :
    x + y ≤ x' + y' := by
  obtain ⟨p, hx, hp⟩ := hx
  obtain ⟨p', hx', hp'⟩ := hx'
  obtain ⟨q, hy, hq⟩ := hy
  obtain ⟨q', hy', hq'⟩ := hy'
  rw [hx.le_iff hx'] at hxx
  rw [hy.le_iff hy'] at hyy
  refine ((hx.add hy ?_).le_iff (hx'.add hy' ?_)).2 (rounded_mono (add_le_add hxx hyy))
  · exact (add_le_add hp hq).trans hsmall
  · exact (add_le_add hp' hq').trans hsmall

theorem mul_mono_of_atMost (hx : AtMost x r) (hx' : AtMost x' r) (hy : AtMost y t)
    (hy' : AtMost y' t) (hsmall : r * t ≤ 2 ^ 100) (hxx : x ≤ x') (hyy : y ≤ y') :
    x * y ≤ x' * y' := by
  obtain ⟨p, hx, hp⟩ := hx
  obtain ⟨p', hx', hp'⟩ := hx'
  obtain ⟨q, hy, hq⟩ := hy
  obtain ⟨q', hy', hq'⟩ := hy'
  have hr : 0 ≤ r := hx.nonneg.trans hp
  rw [hx.le_iff hx'] at hxx
  rw [hy.le_iff hy'] at hyy
  refine ((hx.mul hy ?_).le_iff (hx'.mul hy' ?_)).2
    (rounded_mono (mul_le_mul hxx hyy hy.nonneg hx'.nonneg))
  · exact (mul_le_mul hp hq hy.nonneg hr).trans hsmall
  · exact (mul_le_mul hp' hq' hy'.nonneg hr).trans hsmall

end PackedEdges.Rounding
