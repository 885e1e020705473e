import Mathlib

/-! The order of the floating-point numbers. Every number that is not a NaN has a place on a line,
and the comparisons of two such numbers are those of their places. -/

namespace PackedEdges.FloatOrder

open Float.Model

/-- The side of zero and how far out, then the exponent, then the mantissa. -/
def place : UnpackedFloat → ℤ ×ₗ ℤ ×ₗ ℤ
  | .notANumber | .zero _ => toLex (0, toLex (0, 0))
  | .infinity .positive => toLex (2, toLex (0, 0))
  | .infinity .negative => toLex (-2, toLex (0, 0))
  | .finite .positive m e _ => toLex (1, toLex (e, m))
  | .finite .negative m e _ => toLex (-1, toLex (-e, -m))

theorem compare_toLex {α β : Type} [LinearOrder α] [LinearOrder β] (a c : α) (b d : β) :
    compare (toLex (a, b)) (toLex (c, d)) = (compare a c).then (compare b d) := by
  rw [Prod.Lex.compare_def]
  rfl

theorem compare_neg (a b : ℤ) : compare (-a) (-b) = compare b a := by
  simp only [← cmp_eq_compare]
  exact StrictAnti.cmp_map_eq (fun _ _ h => neg_lt_neg h) a b

theorem compare_natCast (m n : ℕ) : compare (m : ℤ) n = compare m n := by
  simp only [← cmp_eq_compare]
  exact Nat.strictMono_cast.cmp_map_eq m n

theorem compare_eq {x y : UnpackedFloat} (hx : x ≠ .notANumber) (hy : y ≠ .notANumber) :
    x.compare y = some (compare (place x) (place y)) := by
  rcases x with (_ | _) | _ | (_ | _) | ⟨_ | _, m, e, hm⟩ <;>
  rcases y with (_ | _) | _ | (_ | _) | ⟨_ | _, n, f, hn⟩ <;>
  first
  | contradiction
  | rfl
  | simp [UnpackedFloat.compare, place, compare_toLex, compare_neg, compare_natCast,
      Ordering.swap_then, Int.compare_swap, Nat.compare_swap]

/-- The place of a number on the line; a NaN has none of its own. -/
def placeOf (x : Float) : ℤ ×ₗ ℤ ×ₗ ℤ :=
  place x.toModel.unpack

variable {x y z : Float}

theorem unpack_ne_of_isNaN (hx : x.isNaN = false) : x.toModel.unpack ≠ .notANumber := by
  intro h
  simp [Float.isNaN, Float.Model.isNaN, h, UnpackedFloat.isNaN] at hx

theorem lt_iff (hx : x.isNaN = false) (hy : y.isNaN = false) : x < y ↔ placeOf x < placeOf y := by
  show decide (UnpackedFloat.lt _ _ = true) = true ↔ _
  rw [decide_eq_true_iff, UnpackedFloat.lt, beq_iff_eq,
    compare_eq (unpack_ne_of_isNaN hx) (unpack_ne_of_isNaN hy), Option.some_inj,
    compare_lt_iff_lt]
  rfl

theorem le_iff (hx : x.isNaN = false) (hy : y.isNaN = false) : x ≤ y ↔ placeOf x ≤ placeOf y := by
  show decide (UnpackedFloat.le _ _ = true) = true ↔ _
  rw [decide_eq_true_iff, UnpackedFloat.le,
    compare_eq (unpack_ne_of_isNaN hx) (unpack_ne_of_isNaN hy), Option.any_some,
    Ordering.isLE_iff_ne_gt]
  exact compare_le_iff_le

theorem beq_iff (hx : x.isNaN = false) (hy : y.isNaN = false) :
    (x == y) = true ↔ placeOf x = placeOf y := by
  show UnpackedFloat.beq _ _ = true ↔ _
  rw [UnpackedFloat.beq, beq_iff_eq, compare_eq (unpack_ne_of_isNaN hx) (unpack_ne_of_isNaN hy),
    Option.some_inj, compare_eq_iff_eq]
  rfl

theorem not_le_iff (hx : x.isNaN = false) (hy : y.isNaN = false) : ¬x ≤ y ↔ y < x := by
  rw [le_iff hx hy, lt_iff hy hx, not_le]

theorem not_lt_iff (hx : x.isNaN = false) (hy : y.isNaN = false) : ¬x < y ↔ y ≤ x := by
  rw [lt_iff hx hy, le_iff hy hx, not_lt]

theorem le_self (hx : x.isNaN = false) : x ≤ x :=
  (le_iff hx hx).2 le_rfl

theorem le_of_lt_number (hx : x.isNaN = false) (hy : y.isNaN = false) (h : x < y) : x ≤ y := by
  rw [lt_iff hx hy] at h
  exact (le_iff hx hy).2 h.le

theorem lt_trans_le (hx : x.isNaN = false) (hy : y.isNaN = false) (hz : z.isNaN = false)
    (hxy : x < y) (hyz : y ≤ z) : x < z := by
  rw [lt_iff hx hy] at hxy
  rw [le_iff hy hz] at hyz
  exact (lt_iff hx hz).2 (hxy.trans_le hyz)

theorem le_trans_lt (hx : x.isNaN = false) (hy : y.isNaN = false) (hz : z.isNaN = false)
    (hxy : x ≤ y) (hyz : y < z) : x < z := by
  rw [le_iff hx hy] at hxy
  rw [lt_iff hy hz] at hyz
  exact (lt_iff hx hz).2 (hxy.trans_lt hyz)

end PackedEdges.FloatOrder
