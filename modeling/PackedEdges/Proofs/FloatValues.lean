import PackedEdges.Proofs.FloatOrder
import PackedEdges.Proofs.FloatRounding

/-! The values of the floating-point numbers from zero on. The order of the numbers is that of
their values. -/

namespace PackedEdges.Rounding

open Float.Model Float.Model.UnpackedFloat FloatOrder

def IsValue (x : Float) (q : ℚ) : Prop :=
  Stands .positive x.toModel.unpack q

variable {x y : Float} {p q : ℚ} {s : Sign} {u v : UnpackedFloat}

theorem Stands.nonneg (h : Stands s u q) : 0 ≤ q := by
  cases h with
  | zero => exact le_rfl
  | finite m e hm => exact mul_nonneg (Nat.cast_nonneg m) (zpow_nonneg (by norm_num) e)

theorem Stands.ne_notANumber (h : Stands s u q) : u ≠ .notANumber := by
  cases h <;> simp

theorem IsValue.isNaN (h : IsValue x q) : x.isNaN = false := by
  unfold Float.isNaN Float.Model.isNaN
  cases hu : x.toModel.unpack with
  | notANumber => exact absurd hu h.ne_notANumber
  | _ => rfl

theorem IsValue.nonneg (h : IsValue x q) : 0 ≤ q :=
  Stands.nonneg h

/-- The greater exponent makes the greater value, since only the least exponent has mantissas
that are not full. -/
theorem value_lt_of_exponent_lt {m n : ℕ} {e f : ℤ} {hm : 0 < m} {hn : 0 < n}
    (hu : Canonical (.finite s m e hm)) (hv : Canonical (.finite s n f hn)) (hef : e < f) :
    (m : ℚ) * 2 ^ e < n * 2 ^ f := by
  have hfull : 2 ^ 52 ≤ n := by
    have := hu.2.2.1
    exact hv.2.1.resolve_right (by omega)
  calc (m : ℚ) * 2 ^ e < (2 ^ 53 : ℕ) * 2 ^ e :=
        mul_lt_mul_of_pos_right (by exact_mod_cast hu.1) (zpow_pos (by norm_num) e)
    _ = 2 ^ (53 + e) := by rw [zpow_add₀ (by norm_num)]; norm_num
    _ ≤ 2 ^ (52 + f) := zpow_le_zpow_right₀ (by norm_num) (by omega)
    _ = (2 ^ 52 : ℕ) * 2 ^ f := by rw [zpow_add₀ (by norm_num)]; norm_num
    _ ≤ n * 2 ^ f :=
        mul_le_mul_of_nonneg_right (by exact_mod_cast hfull) (zpow_nonneg (by norm_num) f)

theorem value_lt_of_place_lt (hu : Stands .positive u p) (hv : Stands .positive v q)
    (hcu : Canonical u) (hcv : Canonical v) (h : place u < place v) : p < q := by
  cases hu with
  | zero t =>
    cases hv with
    | zero t' => exact absurd h (lt_irrefl _)
    | finite n f hn => exact mul_pos (by exact_mod_cast hn) (zpow_pos (by norm_num) f)
  | finite m e hm =>
    cases hv with
    | zero t' => exact absurd h (by simp [place, Prod.Lex.toLex_lt_toLex])
    | finite n f hn =>
      have hlex : e < f ∨ e = f ∧ m < n := by
        simpa [place, Prod.Lex.toLex_lt_toLex] using h
      rcases hlex with hlt | ⟨rfl, hlt⟩
      · exact value_lt_of_exponent_lt hcu hcv hlt
      · exact mul_lt_mul_of_pos_right (by exact_mod_cast hlt) (zpow_pos (by norm_num) e)

theorem value_eq_of_place_eq (hu : Stands .positive u p) (hv : Stands .positive v q)
    (h : place u = place v) : p = q := by
  cases hu with
  | zero t =>
    cases hv with
    | zero t' => rfl
    | finite n f hn => simp [place] at h
  | finite m e hm =>
    cases hv with
    | zero t' => simp [place] at h
    | finite n f hn =>
      obtain ⟨rfl, rfl⟩ : e = f ∧ m = n := by simpa [place] using h
      rfl

theorem IsValue.lt_iff (hx : IsValue x p) (hy : IsValue y q) : x < y ↔ p < q := by
  rw [FloatOrder.lt_iff hx.isNaN hy.isNaN]
  have hcx := canonical_unpack x.toModel
  have hcy := canonical_unpack y.toModel
  rcases lt_trichotomy (placeOf x) (placeOf y) with h | h | h
  · exact iff_of_true h (value_lt_of_place_lt hx hy hcx hcy h)
  · rw [h, value_eq_of_place_eq hx hy h]
    exact iff_of_false (lt_irrefl _) (lt_irrefl _)
  · exact iff_of_false h.asymm (value_lt_of_place_lt hy hx hcy hcx h).asymm

theorem IsValue.le_iff (hx : IsValue x p) (hy : IsValue y q) : x ≤ y ↔ p ≤ q := by
  rw [← not_lt, ← hy.lt_iff hx, not_lt_iff hy.isNaN hx.isNaN]

theorem IsValue.rounded_eq (h : IsValue x q) : rounded q = q := by
  have hcanonical := canonical_unpack x.toModel
  unfold IsValue at h
  generalize x.toModel.unpack = u at h hcanonical
  cases h with
  | zero => exact rounded_of_nonpos le_rfl
  | finite m e hm => exact rounded_eq_self hcanonical.1 hcanonical.2.2.1

theorem model_eq_of_unpack_eq {a b : Float.Model} (h : a.unpack = b.unpack) : a = b := by
  have hbits := (unpack_inj_of_valid a.valid b.valid).1 h
  cases a
  cases b
  exact (Float.Model.mk.injEq ..).mpr (UInt64.eq_of_toBitVec_eq hbits)

theorem IsValue.eq (hx : IsValue x q) (hy : IsValue y q) (hq : 0 < q) : x = y := by
  -- Zero is left out since it has two numbers.
  have hplace : placeOf x = placeOf y := by
    have hxy := (hx.le_iff hy).2 le_rfl
    have hyx := (hy.le_iff hx).2 le_rfl
    rw [FloatOrder.le_iff hx.isNaN hy.isNaN] at hxy
    rw [FloatOrder.le_iff hy.isNaN hx.isNaN] at hyx
    exact le_antisymm hxy hyx
  have hunpack : x.toModel.unpack = y.toModel.unpack := by
    unfold placeOf at hplace
    unfold IsValue at hx hy
    generalize x.toModel.unpack = u at hx hplace
    generalize y.toModel.unpack = v at hy hplace
    cases hx with
    | zero t => exact absurd hq (lt_irrefl _)
    | finite m e hm =>
      generalize hr : (m : ℚ) * 2 ^ e = r at hy hq
      cases hy with
      | zero t => exact absurd hq (lt_irrefl _)
      | finite n f hn =>
        obtain ⟨rfl, rfl⟩ : e = f ∧ m = n := by simpa [place] using hplace
        rfl
  cases x
  cases y
  exact congrArg Float.ofModel (model_eq_of_unpack_eq hunpack)

/-- From one half to one the numbers are the multiples of `2 ^ -53`. -/
theorem IsValue.exists_complement (h : IsValue x q) (hlow : 1 / 2 ≤ q) (hhigh : q ≤ 1) :
    ∃ k : ℕ, k < 2 ^ 53 ∧ 1 - q = k * 2 ^ (-53 : ℤ) := by
  have hcanonical := canonical_unpack x.toModel
  unfold IsValue at h
  generalize x.toModel.unpack = u at h hcanonical
  cases h with
  | zero => exact absurd hlow (by norm_num)
  | finite m e hm =>
    have he : -53 ≤ e := by
      by_contra hsmall
      have hlt : (m : ℚ) * 2 ^ e < 1 / 2 := by
        calc (m : ℚ) * 2 ^ e < (2 ^ 53 : ℕ) * 2 ^ e :=
              mul_lt_mul_of_pos_right (by exact_mod_cast hcanonical.1) (zpow_pos (by norm_num) e)
          _ ≤ (2 ^ 53 : ℕ) * 2 ^ (-54 : ℤ) := by
              refine mul_le_mul_of_nonneg_left ?_ (Nat.cast_nonneg _)
              exact zpow_le_zpow_right₀ (by norm_num) (by omega)
          _ = 1 / 2 := by norm_num
      exact hlt.not_ge hlow
    obtain ⟨k, hk⟩ := Int.eq_ofNat_of_zero_le (by omega : 0 ≤ e + 53)
    obtain rfl : e = k + (-53) := by omega
    have hvalue : (m : ℚ) * 2 ^ ((k : ℤ) + (-53)) = ((m * 2 ^ k : ℕ) : ℚ) / 2 ^ 53 := by
      rw [zpow_add₀ (by norm_num), zpow_natCast]
      push_cast
      norm_num
      ring
    rw [hvalue] at hlow hhigh ⊢
    generalize m * 2 ^ k = n at hlow hhigh ⊢
    have hle : n ≤ 2 ^ 53 := by
      rw [div_le_one (by norm_num)] at hhigh
      exact_mod_cast hhigh
    have hpos : 0 < n := by
      rcases n.eq_zero_or_pos with rfl | hpos
      · norm_num at hlow
      · exact hpos
    refine ⟨2 ^ 53 - n, by omega, ?_⟩
    rw [Nat.cast_sub hle]
    push_cast
    norm_num
    ring

end PackedEdges.Rounding
