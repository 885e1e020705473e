import Mathlib

/-! Rounding of the numbers from zero on to binary numbers of 53 digits, none of them below the
place `2 ^ -1074`. A tie goes to the even neighbour. -/

namespace PackedEdges.Rounding

/-- The nearest whole number. -/
def nearest (q : ℚ) : ℕ :=
  if q - ⌊q⌋₊ < 1 / 2 then ⌊q⌋₊
  else if q - ⌊q⌋₊ = 1 / 2 then ⌊q⌋₊ + ⌊q⌋₊ % 2
  else ⌊q⌋₊ + 1

/-- The place of the last digit that is kept. -/
def lastPlace (q : ℚ) : ℤ :=
  max (Int.log 2 q - 52) (-1074)

def rounded (q : ℚ) : ℚ :=
  nearest (q / 2 ^ lastPlace q) * 2 ^ lastPlace q

variable {p q : ℚ}

theorem floor_le_nearest (q : ℚ) : ⌊q⌋₊ ≤ nearest q := by
  unfold nearest
  split_ifs <;> omega

theorem nearest_le_floor_succ (q : ℚ) : nearest q ≤ ⌊q⌋₊ + 1 := by
  unfold nearest
  split_ifs <;> omega

theorem nearest_mono : Monotone nearest := by
  intro p q hpq
  rcases (Nat.floor_mono hpq).lt_or_eq with hlt | heq
  · calc nearest p ≤ ⌊p⌋₊ + 1 := nearest_le_floor_succ p
      _ ≤ ⌊q⌋₊ := hlt
      _ ≤ nearest q := floor_le_nearest q
  · unfold nearest
    rw [heq]
    split_ifs <;> grind

theorem nearest_natCast (n : ℕ) : nearest n = n := by
  simp [nearest]

theorem abs_nearest_sub_le (hq : 0 ≤ q) : |nearest q - q| ≤ 1 / 2 := by
  have hle := Nat.floor_le hq
  have hlt := Nat.lt_floor_add_one q
  rw [abs_le]
  unfold nearest
  split_ifs with hlow htie
  · constructor <;> linarith
  · have hparity : ((⌊q⌋₊ % 2 : ℕ) : ℚ) ≤ 1 := by
      exact_mod_cast (by omega : ⌊q⌋₊ % 2 ≤ 1)
    have hpos : (0 : ℚ) ≤ ((⌊q⌋₊ % 2 : ℕ) : ℚ) := Nat.cast_nonneg _
    push_cast at *
    constructor <;> linarith
  · have hhigh : 1 / 2 ≤ q - ⌊q⌋₊ := not_lt.1 hlow
    push_cast
    constructor <;> linarith

theorem lastPlace_mono (hp : 0 < p) (hpq : p ≤ q) : lastPlace p ≤ lastPlace q :=
  max_le_max (sub_le_sub_right (Int.log_mono_right hp hpq) 52) le_rfl

theorem neg_1074_le_lastPlace (q : ℚ) : -1074 ≤ lastPlace q :=
  le_max_right _ _

theorem lt_two_zpow_lastPlace (q : ℚ) : q < 2 ^ (lastPlace q + 53) := by
  have hlog : Int.log 2 q + 1 ≤ lastPlace q + 53 := by
    unfold lastPlace
    omega
  calc q < 2 ^ (Int.log 2 q + 1) := by
        exact_mod_cast Int.lt_zpow_succ_log_self (b := 2) (by norm_num) q
    _ ≤ 2 ^ (lastPlace q + 53) := zpow_le_zpow_right₀ (by norm_num) hlog

theorem two_zpow_lastPlace_le (hq : 0 < q) (hplace : -1074 < lastPlace q) :
    2 ^ (lastPlace q + 52) ≤ q := by
  have hlog : lastPlace q + 52 = Int.log 2 q := by
    unfold lastPlace at *
    omega
  rw [hlog]
  exact_mod_cast Int.zpow_log_le_self (b := 2) (by norm_num) hq

theorem rounded_nonneg (q : ℚ) : 0 ≤ rounded q :=
  mul_nonneg (Nat.cast_nonneg _) (zpow_nonneg (by norm_num) _)

theorem rounded_of_nonpos (hq : q ≤ 0) : rounded q = 0 := by
  have hzero : nearest (q / 2 ^ lastPlace q) = 0 := by
    have hle := nearest_mono (div_nonpos_of_nonpos_of_nonneg hq
      (zpow_nonneg (by norm_num : (0 : ℚ) ≤ 2) (lastPlace q)))
    have := nearest_natCast 0
    rw [Nat.cast_zero] at this
    omega
  rw [rounded, hzero, Nat.cast_zero, zero_mul]

theorem lastPlace_pos (q : ℚ) : (0 : ℚ) < 2 ^ lastPlace q :=
  zpow_pos (by norm_num) _

theorem nearest_scaled_le (q : ℚ) : nearest (q / 2 ^ lastPlace q) ≤ 2 ^ 53 := by
  have hlt : q / 2 ^ lastPlace q ≤ ((2 ^ 53 : ℕ) : ℚ) := by
    rw [div_le_iff₀ (lastPlace_pos q)]
    have h := (lt_two_zpow_lastPlace q).le
    rw [zpow_add₀ (by norm_num), mul_comm] at h
    exact_mod_cast h
  simpa only [nearest_natCast] using nearest_mono hlt

theorem le_nearest_scaled (hq : 0 < q) (hplace : -1074 < lastPlace q) :
    2 ^ 52 ≤ nearest (q / 2 ^ lastPlace q) := by
  have hle : ((2 ^ 52 : ℕ) : ℚ) ≤ q / 2 ^ lastPlace q := by
    rw [le_div_iff₀ (lastPlace_pos q)]
    have h := two_zpow_lastPlace_le hq hplace
    rw [zpow_add₀ (by norm_num), mul_comm] at h
    exact_mod_cast h
  simpa only [nearest_natCast] using nearest_mono hle

theorem rounded_mono : Monotone rounded := by
  intro p q hpq
  rcases le_or_gt p 0 with hp | hp
  · rw [rounded_of_nonpos hp]
    exact rounded_nonneg q
  rcases (lastPlace_mono hp hpq).lt_or_eq with hlt | heq
  · -- A power of two lies between the two numbers.
    have hplace : -1074 < lastPlace q := (neg_1074_le_lastPlace p).trans_lt hlt
    calc rounded p ≤ (2 ^ 53 : ℕ) * 2 ^ lastPlace p := by
          refine mul_le_mul_of_nonneg_right ?_ (lastPlace_pos p).le
          exact_mod_cast nearest_scaled_le p
      _ = 2 ^ (lastPlace p + 53) := by
          rw [zpow_add₀ (by norm_num), mul_comm]
          norm_num
      _ ≤ 2 ^ (lastPlace q + 52) := zpow_le_zpow_right₀ (by norm_num) (by omega)
      _ = (2 ^ 52 : ℕ) * 2 ^ lastPlace q := by
          rw [zpow_add₀ (by norm_num), mul_comm]
          norm_num
      _ ≤ rounded q := by
          refine mul_le_mul_of_nonneg_right ?_ (lastPlace_pos q).le
          exact_mod_cast le_nearest_scaled (hp.trans_le hpq) hplace
  · unfold rounded
    rw [← heq]
    refine mul_le_mul_of_nonneg_right ?_ (lastPlace_pos p).le
    exact_mod_cast nearest_mono (div_le_div_of_nonneg_right hpq (lastPlace_pos p).le)

theorem lastPlace_le {m : ℕ} {e : ℤ} (hm : m < 2 ^ 53) (hpos : 0 < m) (he : -1074 ≤ e) :
    lastPlace (m * 2 ^ e) ≤ e := by
  have hlt : (m : ℚ) * 2 ^ e < 2 ^ (53 + e) := by
    rw [zpow_add₀ (by norm_num)]
    refine mul_lt_mul_of_pos_right ?_ (zpow_pos (by norm_num) e)
    exact_mod_cast hm
  have hlog : Int.log 2 ((m : ℚ) * 2 ^ e) < 53 + e := by
    rw [← Int.lt_zpow_iff_log_lt (by norm_num) (by positivity)]
    exact_mod_cast hlt
  unfold lastPlace
  omega

/-- A number with at most 53 digits stays as it is. -/
theorem rounded_eq_self {m : ℕ} {e : ℤ} (hm : m < 2 ^ 53) (he : -1074 ≤ e) :
    rounded (m * 2 ^ e) = m * 2 ^ e := by
  rcases m.eq_zero_or_pos with rfl | hpos
  · simp [rounded_of_nonpos]
  · set place := lastPlace (m * 2 ^ e) with hplace
    obtain ⟨k, hk⟩ := Int.eq_ofNat_of_zero_le (sub_nonneg.2 (lastPlace_le hm hpos he))
    have hscaled : (m : ℚ) * 2 ^ e / 2 ^ place = ((m * 2 ^ k : ℕ) : ℚ) := by
      rw [mul_div_assoc, ← zpow_sub₀ (by norm_num), hk]
      push_cast
      rfl
    rw [rounded, ← hplace, hscaled, nearest_natCast, ← hscaled, div_mul_cancel₀]
    exact zpow_ne_zero _ (by norm_num)

theorem abs_rounded_sub_le (hq : 0 ≤ q) : |rounded q - q| ≤ 2 ^ lastPlace q / 2 := by
  have hpos := lastPlace_pos q
  calc |rounded q - q|
      = |nearest (q / 2 ^ lastPlace q) - q / 2 ^ lastPlace q| * 2 ^ lastPlace q := by
        rw [← abs_of_pos hpos, ← abs_mul, sub_mul, abs_of_pos hpos, div_mul_cancel₀ _ hpos.ne',
          rounded]
    _ ≤ 1 / 2 * 2 ^ lastPlace q :=
        mul_le_mul_of_nonneg_right (abs_nearest_sub_le (div_nonneg hq hpos.le)) hpos.le
    _ = 2 ^ lastPlace q / 2 := by ring

end PackedEdges.Rounding
