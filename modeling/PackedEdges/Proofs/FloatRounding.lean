import PackedEdges.Proofs.RoundedNumbers

/-! How floating-point numbers are rounded. A mantissa that is shifted to the right keeps two bits
of what falls off, and they are enough to round to the nearest: the number that is made is the
rounded exact one, in the one form in which it can be packed and unpacked again. -/

namespace PackedEdges.Rounding

open Float.Model Float.Model.UnpackedFloat

/-- `q` lies where the mantissa and the two bits behind it tell. -/
def Extends (em : ExtendedMantissa) (q : ℚ) : Prop :=
  match em.roundBit, em.stickyBit with
  | false, false => q = em.mantissa
  | false, true => em.mantissa < q ∧ q < em.mantissa + 1 / 2
  | true, false => q = em.mantissa + 1 / 2
  | true, true => em.mantissa + 1 / 2 < q ∧ q < em.mantissa + 1

variable {em : ExtendedMantissa} {p q : ℚ}

theorem extends_exact (m : ℕ) : Extends (.ofMantissaAndAccuracy m .exact) m := by
  simp [Extends, ExtendedMantissa.ofMantissaAndAccuracy]

theorem Extends.le (h : Extends em q) : em.mantissa ≤ q := by
  rcases em with ⟨m, _ | _, _ | _⟩ <;> simp only [Extends] at h <;> linarith

theorem Extends.lt (h : Extends em q) : q < em.mantissa + 1 := by
  rcases em with ⟨m, _ | _, _ | _⟩ <;> simp only [Extends] at h <;> linarith

theorem Extends.floor_eq (h : Extends em q) : ⌊q⌋₊ = em.mantissa :=
  (Nat.floor_eq_iff ((Nat.cast_nonneg _).trans h.le)).2 ⟨h.le, h.lt⟩

theorem Extends.roundedMantissa_eq (h : Extends em q) : em.roundedMantissa = nearest q := by
  rw [nearest, h.floor_eq]
  rcases em with ⟨m, _ | _, _ | _⟩ <;>
  simp only [Extends] at h <;>
  simp only [ExtendedMantissa.roundedMantissa, ExtendedMantissa.accuracy,
    Accuracy.roundToNearestEven] <;>
  split_ifs <;> first | rfl | linarith | grind

theorem Extends.shiftRightOne (h : Extends em q) : Extends em.shiftRightOne (q / 2) := by
  rcases em with ⟨m, round, sticky⟩
  have hdigit : ((m / 2 : ℕ) : ℚ) = (m - (m % 2 : ℕ)) / 2 := by
    have hdiv : ((2 * (m / 2) + m % 2 : ℕ) : ℚ) = m := by rw [Nat.div_add_mod]
    push_cast at hdiv
    linarith
  have hone : ((1 : ℕ) != 0) = true := rfl
  rcases Nat.mod_two_eq_zero_or_one m with hmod | hmod <;>
  rcases round with _ | _ <;>
  rcases sticky with _ | _ <;>
  simp only [Extends, ExtendedMantissa.shiftRightOne, hmod, hone, bne_self_eq_false,
    Bool.or_false, Bool.or_true, Bool.or_self, hdigit, Nat.cast_zero, Nat.cast_one] at h ⊢ <;>
  first | linarith | (constructor <;> linarith)

theorem Extends.shiftRight (h : Extends em q) (n : ℕ) : Extends (em >>> n) (q / 2 ^ n) := by
  change Extends (n.repeat ExtendedMantissa.shiftRightOne em) _
  induction n with
  | zero => simpa [Nat.repeat] using h
  | succ n ih =>
    rw [pow_succ, ← div_div]
    exact ih.shiftRightOne

/-- The value of a number that is zero or has the given sign, without that sign. -/
inductive Stands (s : Sign) : UnpackedFloat → ℚ → Prop
  | zero (t : Sign) : Stands s (.zero t) 0
  | finite (m : ℕ) (e : ℤ) (hm : 0 < m) : Stands s (.finite s m e hm) (m * 2 ^ e)

/-- The form of the numbers that fit into the packed format. -/
def Canonical : UnpackedFloat → Prop
  | .finite _ m e _ => m < 2 ^ 53 ∧ (2 ^ 52 ≤ m ∨ e = -1074) ∧ -1074 ≤ e ∧ e ≤ 971
  | _ => True

structure Represents (s : Sign) (u : UnpackedFloat) (q : ℚ) : Prop where
  stands : Stands s u q
  canonical : Canonical u

variable {m n : ℕ} {e : ℤ} {accuracy : Accuracy}

theorem log_eq (hm : 0 < m) (hle : m ≤ q / 2 ^ e) (hlt : q / 2 ^ e < m + 1) :
    Int.log 2 q = m.log2 + e := by
  have hscale : (0 : ℚ) < 2 ^ e := zpow_pos (by norm_num) e
  have hq : 0 < q := by
    have : (0 : ℚ) < q / 2 ^ e := lt_of_lt_of_le (by exact_mod_cast hm) hle
    exact (div_pos_iff_of_pos_right hscale).1 this
  have hlow : (2 : ℚ) ^ ((m.log2 : ℤ) + e) ≤ q := by
    rw [zpow_add₀ (by norm_num), zpow_natCast, ← le_div_iff₀ hscale]
    refine le_trans ?_ hle
    exact_mod_cast Nat.log2_self_le hm.ne'
  have hhigh : q < (2 : ℚ) ^ ((m.log2 : ℤ) + e + 1) := by
    rw [add_right_comm, zpow_add₀ (by norm_num), ← div_lt_iff₀ hscale]
    refine lt_of_lt_of_le hlt ?_
    have hnat : m + 1 ≤ 2 ^ (m.log2 + 1) := Nat.lt_log2_self
    exact_mod_cast hnat
  refine le_antisymm ?_ ?_
  · rw [← Int.lt_add_one_iff, ← Int.lt_zpow_iff_log_lt (by norm_num) hq]
    exact_mod_cast hhigh
  · rw [← Int.zpow_le_iff_le_log (by norm_num) hq]
    exact_mod_cast hlow

theorem targetExponent_binary64 (m : ℕ) (e : ℤ) :
    Format.binary64.targetExponent (totalExponent m e) = max (m.log2 + e - 52) (-1074) := by
  simp only [Format.targetExponent, totalExponent, Format.minExponent, Format.mantissaBits]
  norm_num
  omega

theorem targetExponent_eq (hq : 0 < q) (hle : m ≤ q / 2 ^ e)
    (hlt : q / 2 ^ e < m + 1) (he : e ≤ lastPlace q) :
    Format.binary64.targetExponent (totalExponent m e) = lastPlace q := by
  rw [targetExponent_binary64]
  rcases m.eq_zero_or_pos with rfl | hm
  · have hlog : Int.log 2 q < e := by
      rw [← Int.lt_zpow_iff_log_lt (by norm_num) hq]
      rw [Nat.cast_zero, zero_add, div_lt_one (zpow_pos (by norm_num) e)] at hlt
      exact_mod_cast hlt
    have hzero : (0 : ℕ).log2 = 0 := by decide
    unfold lastPlace at *
    omega
  · rw [lastPlace, log_eq hm hle hlt]

theorem shiftToExponent_extends {target : ℤ}
    (h : Extends (.ofMantissaAndAccuracy m accuracy) (q / 2 ^ e)) (he : e ≤ target) :
    Extends (shiftToExponent m e accuracy target).1 (q / 2 ^ target) ∧
      (shiftToExponent m e accuracy target).2 = target := by
  obtain ⟨k, hk⟩ := Int.eq_ofNat_of_zero_le (sub_nonneg.2 he)
  obtain rfl : target = e + k := by omega
  simp only [shiftToExponent, hk, Int.toNat_natCast, and_true]
  rw [zpow_add₀ (by norm_num), zpow_natCast, ← div_div]
  exact h.shiftRight k

theorem shiftToTargetExponent_exact (hn : n < 2 ^ 53) (he : -1074 ≤ e) :
    shiftToTargetExponent .binary64 n e .exact = (⟨n, false, false⟩, e) := by
  have hlog : n.log2 < 53 := by
    rcases n.eq_zero_or_pos with rfl | hpos
    · decide
    · exact (Nat.log2_lt hpos.ne').2 hn
  have hshift : (max ((n.log2 : ℤ) + e - 52) (-1074) - e).toNat = 0 := by omega
  rw [shiftToTargetExponent, targetExponent_binary64, shiftToExponent, hshift]
  exact Prod.ext rfl (add_zero e)

theorem shiftToTargetExponent_carry (he : -1074 ≤ e) :
    shiftToTargetExponent .binary64 (2 ^ 53) e .exact = (⟨2 ^ 52, false, false⟩, e + 1) := by
  have hlog : (2 ^ 53).log2 = 53 := Nat.log2_two_pow
  have hshift : (max (((2 ^ 53).log2 : ℤ) + e - 52) (-1074) - e).toNat = 1 := by
    rw [hlog]
    omega
  rw [shiftToTargetExponent, targetExponent_binary64, shiftToExponent, hshift]
  rfl

theorem represents_of_mantissa (s : Sign) (hvalue : (n : ℚ) * 2 ^ e = q)
    (hform : n ≠ 0 → n < 2 ^ 53 ∧ (2 ^ 52 ≤ n ∨ e = -1074) ∧ -1074 ≤ e ∧ e ≤ 971) :
    Represents s (if h : n = 0 then .zero s else .finite s n e (Nat.pos_of_ne_zero h)) q := by
  subst hvalue
  split_ifs with h
  · subst h
    rw [Nat.cast_zero, zero_mul]
    exact ⟨.zero s, trivial⟩
  · exact ⟨.finite n e _, hform h⟩

theorem represents_roundWithAccuracy (s : Sign) (hq : 0 < q)
    (h : Extends (.ofMantissaAndAccuracy m accuracy) (q / 2 ^ e)) (he : e ≤ lastPlace q)
    (hsmall : q ≤ 2 ^ 100) :
    Represents s (roundWithAccuracy .binary64 s m e accuracy) (rounded q) := by
  have hmantissa : (ExtendedMantissa.ofMantissaAndAccuracy m accuracy).mantissa = m := by
    rcases accuracy with _ | (_ | _ | _) <;> rfl
  have htarget := targetExponent_eq hq (hmantissa ▸ h.le) (hmantissa ▸ h.lt) he
  obtain ⟨hfirst, hplace⟩ := shiftToExponent_extends h he
  have hlow := neg_1074_le_lastPlace q
  have hhigh : lastPlace q ≤ 48 := by
    have hlog : Int.log 2 q < 101 := by
      rw [← Int.lt_zpow_iff_log_lt (by norm_num) hq]
      refine hsmall.trans_lt ?_
      norm_num
    unfold lastPlace
    omega
  have hpair : shiftToTargetExponent .binary64 m e accuracy =
      ((shiftToExponent m e accuracy (lastPlace q)).1, lastPlace q) := by
    rw [shiftToTargetExponent, htarget]
    exact Prod.ext rfl hplace
  simp only [roundWithAccuracy, hpair, hfirst.roundedMantissa_eq]
  -- The rounding may make the mantissa one digit longer; then its last digit is zero and falls off.
  rcases (nearest_scaled_le q).eq_or_lt with hcarry | hkept
  · simp only [hcarry, shiftToTargetExponent_carry hlow]
    refine represents_of_mantissa s ?_ fun _ => ⟨by norm_num, .inl le_rfl, by omega, by omega⟩
    rw [rounded, hcarry, zpow_add₀ (by norm_num)]
    push_cast
    ring
  · simp only [shiftToTargetExponent_exact hkept hlow]
    refine represents_of_mantissa s rfl fun _ => ⟨hkept, ?_, hlow, by omega⟩
    rcases hlow.eq_or_lt with heq | hlt
    · exact .inr heq.symm
    · exact .inl (le_nearest_scaled hq hlt)

theorem exponentBias_binary64 : Format.binary64.exponentBias = 1023 := by
  decide

theorem toNat_leading_append (mantissa : BitVec 52) :
    (1#1 ++ mantissa).toNat = 2 ^ 52 + mantissa.toNat := by
  rw [BitVec.toNat_append, ← Nat.shiftLeft_add_eq_or_of_lt mantissa.isLt]
  rfl

theorem canonical_unpack (x : Float.Model) : Canonical x.unpack := by
  set exponent := @unpackExponent .binary64 x.toBits.toBitVec with hexponent
  set mantissa := @unpackMantissa .binary64 x.toBits.toBitVec with hmantissa
  have hbelow : exponent.toNat < 2 ^ 11 := exponent.isLt
  have hdigits : mantissa.toNat < 2 ^ 52 := mantissa.isLt
  unfold Float.Model.unpack UnpackedFloat.unpack
  simp only [exponentBias_binary64, ← hexponent, ← hmantissa]
  split_ifs with hones hzero hexp hm
  · trivial
  · trivial
  · trivial
  · have hsmall : exponent.toNat = 0 := by rw [hexp]; rfl
    refine ⟨?_, .inr ?_, ?_, ?_⟩ <;> omega
  · have hlow : exponent.toNat ≠ 0 := fun h => hexp (BitVec.eq_of_toNat_eq h)
    have hhigh : exponent.toNat ≠ 2047 := fun h => hones (BitVec.eq_of_toNat_eq h)
    have hvalue := toNat_leading_append mantissa
    refine ⟨?_, .inl ?_, ?_, ?_⟩ <;> omega

theorem unpack_normal (s : Sign) {exponent : BitVec 11} (mantissa : BitVec 52)
    (hlow : exponent.toNat ≠ 0) (hhigh : exponent.toNat ≠ 2047) :
    UnpackedFloat.unpack .binary64 (packComponents .binary64 s exponent mantissa) =
      .finite s (1#1 ++ mantissa).toNat (exponent.toNat - (1023 + 52))
        (by rw [toNat_leading_append]; omega) := by
  have hones : exponent ≠ -1#11 := fun h => hhigh (by rw [h]; rfl)
  have hzero : exponent ≠ 0#11 := fun h => hlow (by rw [h]; rfl)
  simp only [UnpackedFloat.unpack, exponentBias_binary64, unpackExponent_packComponents,
    unpackSign_packComponents, unpackMantissa_packComponents, Sign.ofBitVec_toBitVec,
    if_neg hones, if_neg hzero]
  rfl

theorem unpack_subnormal (s : Sign) {mantissa : BitVec 52} (h : mantissa.toNat ≠ 0) :
    UnpackedFloat.unpack .binary64 (packComponents .binary64 s 0#11 mantissa) =
      .finite s mantissa.toNat (-1074) (Nat.pos_of_ne_zero h) := by
  have hones : (0#11 : BitVec 11) ≠ -1#11 := by decide
  have hzero : mantissa ≠ 0#52 := fun heq => h (by rw [heq]; rfl)
  simp only [UnpackedFloat.unpack, exponentBias_binary64, unpackExponent_packComponents,
    unpackSign_packComponents, unpackMantissa_packComponents, Sign.ofBitVec_toBitVec,
    if_neg hones, if_true, dif_neg hzero]
  rfl

theorem log2_succ_eq_iff (hm : 0 < m) (hlt : m < 2 ^ 53) :
    m.log2 + 1 = 53 ↔ 2 ^ 52 ≤ m := by
  have hbelow := (Nat.log2_lt hm.ne').2 hlt
  rw [← Nat.le_log2 hm.ne']
  omega

theorem unpack_pack_finite {s : Sign} {hm : 0 < m}
    (h : Canonical (.finite s m e hm)) :
    (Float.Model.pack (.finite s m e hm)).unpack = .finite s m e hm := by
  obtain ⟨hlt, hfull, hlow, hhigh⟩ := h
  have hroom : ¬2 ^ 11 ≤ (e + (1023 : ℕ) + (52 : ℕ)).toNat + 1 := by omega
  have hbits : Format.binary64.mantissaBits = 53 := by decide
  have hdigits : (BitVec.ofNat 52 m).toNat = m % 2 ^ 52 := BitVec.toNat_ofNat ..
  show UnpackedFloat.unpack .binary64 (UnpackedFloat.pack .binary64 _) = _
  simp only [UnpackedFloat.pack, exponentBias_binary64, if_neg hroom, hbits,
    log2_succ_eq_iff hm hlt]
  split_ifs with hnormal
  · have hexponent : (BitVec.ofNat 11 (e + (1023 : ℕ) + (52 : ℕ)).toNat).toNat =
        (e + (1023 : ℕ) + (52 : ℕ)).toNat := by
      rw [BitVec.toNat_ofNat]
      omega
    rw [unpack_normal s _ (by omega) (by omega), finite.injEq, toNat_leading_append, hdigits,
      hexponent]
    refine ⟨rfl, ?_, ?_⟩ <;> omega
  · rw [unpack_subnormal s (by omega), finite.injEq, hdigits]
    refine ⟨rfl, ?_, ?_⟩ <;> omega

theorem Represents.unpack_pack {s : Sign} {u : UnpackedFloat} (h : Represents s u q) :
    (Float.Model.pack u).unpack = u := by
  obtain ⟨hstands, hcanonical⟩ := h
  cases hstands with
  | zero t => exact unpack_packedZero
  | finite m e hm => exact unpack_pack_finite hcanonical

end PackedEdges.Rounding
