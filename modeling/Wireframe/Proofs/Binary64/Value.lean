/-
The numbers that floats stand for.

A finite float stands for a rational number, and floats are ordered as these numbers are.  A number
between the floats is rounded to the nearest of them; it is rounded to a given one if it lies no
further away than half of the distance to the next float on either side, and there the distance below
may be half of that above.

* `value` — the number that a float stands for;
* `lt_iff_value`, `le_iff_value` — the order of floats;
* `exists_integer`, `gap` — how far other floats are away from a given one;
* `RoundsTo` — rounding to nearest, ties to even;
* `roundsTo_of_between` — what lies between the midpoints around a float is rounded to it.

Design notes:
* what is not finite stands for zero, so that `value` is total; wherever this matters, floats are said
  to be finite.
-/
import Wireframe.Proofs.Binary64.Arithmetic

namespace Wireframe.Binary64

open Float.Model Float.Model.UnpackedFloat

/-- The number that a float stands for, zero if it is not finite. -/
def valueOf : UnpackedFloat → ℚ
  | .finite .positive m e _ => m * 2 ^ e
  | .finite .negative m e _ => -(m * 2 ^ e)
  | _ => 0

/-- The number that a float stands for, zero if it is not finite. -/
def value (x : Float) : ℚ := valueOf x.toModel.unpack

theorem value_zero : value 0.0 = 0 := by
  rw [value, unpack_zero]
  rfl

theorem value_one : value 1.0 = 1 := by
  rw [value, unpack_one, valueOf]
  norm_num

theorem value_of_not_isFinite {x : Float} (h : x.isFinite = false) : value x = 0 := by
  change UnpackedFloat.isFinite x.toModel.unpack = false at h
  rw [value]
  cases hu : x.toModel.unpack with
  | notANumber => rfl
  | infinity s => rfl
  | zero s => rfl
  | finite s m e hm =>
    rw [hu] at h
    cases h

/-! ### The order -/

/-- The least positive float. -/
def least : ℚ := 2 ^ (-1074 : Int)

theorem least_pos : 0 < least := zpow_pos two_pos _

theorem two_zpow {e : Int} (he : -1074 ≤ e) : (2 : ℚ) ^ e = 2 ^ (e + 1074).toNat * least := by
  rw [least, ← zpow_natCast, ← zpow_add₀ two_ne_zero]
  congr 1
  omega

theorem valueOf_of_steps {u : UnpackedFloat} {a : Nat} (h : Steps u a) (hu : Canonical u) :
    valueOf u = a * least := by
  cases h with
  | zero s => simp [valueOf]
  | finite m e hm =>
    rw [valueOf, two_zpow hu.2.1, Nat.cast_mul, Nat.cast_pow, Nat.cast_ofNat, mul_assoc]

theorem valueOf_neg (u : UnpackedFloat) : valueOf u.neg = -valueOf u := by
  cases u with
  | finite s m e h =>
    cases s with
    | positive => rfl
    | negative => exact (neg_neg _).symm
  | _ => exact neg_zero.symm

theorem canonical_neg_iff {u : UnpackedFloat} : Canonical u.neg ↔ Canonical u := by
  cases u <;> rfl

/-- A finite float or its negative is a number of steps above zero. -/
theorem exists_steps {u : UnpackedFloat} (h : u.isFinite = true) :
    (∃ a, Steps u a) ∨ ∃ w a, u = w.neg ∧ Steps w a ∧ 0 < a := by
  cases u with
  | notANumber => cases h
  | infinity s => cases h
  | zero s => exact .inl ⟨0, .zero s⟩
  | finite s m e hm =>
    cases s with
    | positive => exact .inl ⟨_, .finite m e hm⟩
    | negative => exact .inr ⟨.finite .positive m e hm, _, rfl, .finite m e hm, by positivity⟩

theorem compare_neg_steps {u v : UnpackedFloat} {a b : Nat} (ha : Steps u a) (hb : Steps v b)
    (hpos : 0 < a) : UnpackedFloat.compare u.neg v = some .lt := by
  cases ha with
  | zero s => exact absurd hpos (lt_irrefl 0)
  | finite m e hm => cases hb <;> rfl

theorem compare_eq_lt_iff {u v : UnpackedFloat} (hu : u.isFinite = true) (hv : v.isFinite = true)
    (hcu : Canonical u) (hcv : Canonical v) :
    UnpackedFloat.compare u v = some .lt ↔ valueOf u < valueOf v := by
  -- Numbers of one sign compare as their steps do.
  have hsteps {u v : UnpackedFloat} {a b : Nat} (ha : Steps u a) (hb : Steps v b)
      (hcu : Canonical u) (hcv : Canonical v) :
      UnpackedFloat.compare u v = some .lt ↔ valueOf u < valueOf v := by
    rw [compare_of_steps ha hb hcu hcv, valueOf_of_steps ha hcu, valueOf_of_steps hb hcv,
      mul_lt_mul_iff_of_pos_right least_pos, Nat.cast_lt, Option.some_inj, Nat.compare_eq_lt]
  have hnonneg {u : UnpackedFloat} {a : Nat} (ha : Steps u a) (hcu : Canonical u) :
      0 ≤ valueOf u := by
    rw [valueOf_of_steps ha hcu]
    exact mul_nonneg a.cast_nonneg least_pos.le
  have hneg {u : UnpackedFloat} {a : Nat} (ha : Steps u a) (hcu : Canonical u.neg) (hpos : 0 < a) :
      valueOf u.neg < 0 := by
    rw [valueOf_neg, valueOf_of_steps ha (canonical_neg_iff.mp hcu), neg_lt_zero]
    exact mul_pos (Nat.cast_pos.mpr hpos) least_pos
  -- Four cases for two signs; a negative number is below all others.
  rcases exists_steps hu with ⟨a, ha⟩ | ⟨u, a, rfl, ha, hapos⟩ <;>
    rcases exists_steps hv with ⟨b, hb⟩ | ⟨v, b, rfl, hb, hbpos⟩
  · exact hsteps ha hb hcu hcv
  · rw [compare_swap, compare_neg_steps hb ha hbpos]
    exact iff_of_false (by decide) ((hneg hb hcv hbpos).trans_le (hnonneg ha hcu)).not_gt
  · exact iff_of_true (compare_neg_steps ha hb hapos)
      ((hneg ha hcu hapos).trans_le (hnonneg hb hcv))
  · rw [compare_neg_neg, valueOf_neg, valueOf_neg, neg_lt_neg_iff]
    exact hsteps hb ha (canonical_neg_iff.mp hcv) (canonical_neg_iff.mp hcu)

variable {x y : Float}

/-- Finite floats are ordered as the numbers that they stand for. -/
theorem lt_iff_value (hx : x.isFinite = true) (hy : y.isFinite = true) :
    x < y ↔ value x < value y := by
  rw [lt_iff]
  exact compare_eq_lt_iff hx hy (canonical_unpack x.toModel) (canonical_unpack y.toModel)

/-! ### The distance of floats -/

/-- A float stands for a whole number of 53 binary digits times a power of two. -/
theorem exists_integer (x : Float) :
    ∃ (n : Int) (f : Int), |n| < 2 ^ 53 ∧ -1074 ≤ f ∧ value x = n * 2 ^ f := by
  have hcanonical := canonical_unpack x.toModel
  rw [value]
  cases hu : x.toModel.unpack with
  | notANumber => exact ⟨0, 0, by decide, by decide, by simp [valueOf]⟩
  | infinity s => exact ⟨0, 0, by decide, by decide, by simp [valueOf]⟩
  | zero s => exact ⟨0, 0, by decide, by decide, by simp [valueOf]⟩
  | finite s m e hm =>
    rw [hu] at hcanonical
    obtain ⟨hlt, he, -⟩ := hcanonical
    cases s with
    | positive => exact ⟨m, e, by rw [abs_of_nonneg] <;> omega, he, by simp [valueOf]⟩
    | negative => exact ⟨-m, e, by rw [abs_neg, abs_of_nonneg] <;> omega, he, by simp [valueOf]⟩

/-- No float lies closer to a number with 53 binary digits than one unit of its last place; below a
power of two, half a unit. -/
theorem gap {m : Nat} {e : Int} (hfull : 2 ^ 52 ≤ m ∨ e = -1074) (hne : value y ≠ m * 2 ^ e) :
    (m + 1) * 2 ^ e ≤ value y ∨ value y ≤ (m - 1) * 2 ^ e ∨
      m = 2 ^ 52 ∧ -1074 < e ∧ value y ≤ (m - 1 / 2) * 2 ^ e := by
  obtain ⟨n, f, hn, hf, hy⟩ := exists_integer y
  have hunit : (0 : ℚ) < 2 ^ e := zpow_pos two_pos e
  by_cases hle : e ≤ f
  -- both are whole numbers of units
  · obtain ⟨k, hk⟩ := Int.le.dest hle
    have hwhole : value y = (n * 2 ^ k : Int) * 2 ^ e := by
      rw [hy, ← hk, zpow_add₀ two_ne_zero, zpow_natCast]
      push_cast
      ring
    generalize n * 2 ^ k = i at hwhole
    rw [hwhole] at hne ⊢
    have hi : i ≠ m := by
      rintro rfl
      exact hne rfl
    rcases lt_or_gt_of_ne hi with hlt | hgt
    · refine .inr (.inl (mul_le_mul_of_nonneg_right ?_ hunit.le))
      have : i ≤ m - 1 := by omega
      exact_mod_cast this
    · refine .inl (mul_le_mul_of_nonneg_right ?_ hunit.le)
      have : (m : Int) + 1 ≤ i := by omega
      exact_mod_cast this
  -- the other float has a lesser exponent, and with it fewer units
  · have hm : 2 ^ 52 ≤ m := hfull.resolve_right (by omega)
    have hhalf : value y ≤ (2 ^ 52 - 1 / 2) * 2 ^ e := by
      have hcount : (n : ℚ) ≤ 2 ^ 53 - 1 := by
        have : n ≤ 2 ^ 53 - 1 := Int.le_sub_one_of_lt ((le_abs_self n).trans_lt hn)
        exact_mod_cast this
      calc value y = n * 2 ^ f := hy
        _ ≤ (2 ^ 53 - 1) * 2 ^ f := mul_le_mul_of_nonneg_right hcount (zpow_nonneg two_pos.le f)
        _ ≤ (2 ^ 53 - 1) * 2 ^ (e - 1) :=
          mul_le_mul_of_nonneg_left (zpow_le_zpow_right₀ one_le_two (by omega)) (by norm_num)
        _ = (2 ^ 52 - 1 / 2) * 2 ^ e := by
          rw [zpow_sub_one₀ two_ne_zero]
          ring
    rcases hm.eq_or_lt with rfl | hlt
    · exact .inr (.inr ⟨rfl, by omega, by exact_mod_cast hhalf⟩)
    · refine .inr (.inl (hhalf.trans (mul_le_mul_of_nonneg_right ?_ hunit.le)))
      have : ((2 ^ 52 + 1 : Nat) : ℚ) ≤ m := Nat.cast_le.mpr hlt
      push_cast at this
      linarith

/-! ### Rounding -/

/-- A number is rounded to a float if no float is nearer to it and if the float is even whenever
another one is just as near. -/
structure RoundsTo (q : ℚ) (x : Float) : Prop where
  isFinite : x.isFinite = true
  /-- The number is not so large that it is rounded to an infinite one. -/
  inRange : |q| < 2 ^ 1024 - 2 ^ 970
  nearest : ∀ y : Float, y.isFinite = true → |q - value x| ≤ |q - value y|
  even : ∀ y : Float, y.isFinite = true → value y ≠ value x → |q - value y| = |q - value x| →
    x.toBits.toNat % 2 = 0

theorem roundsTo_zero : RoundsTo 0 0.0 where
  isFinite := isFinite_of_steps steps_zero
  inRange := by
    rw [abs_zero, sub_pos]
    exact pow_lt_pow_right₀ one_lt_two (by decide)
  nearest y _ := by
    rw [value_zero, sub_zero, abs_zero]
    exact abs_nonneg _
  even y _ hne heq := by
    rw [value_zero, sub_zero, abs_zero, abs_eq_zero, zero_sub, neg_eq_zero] at heq
    exact absurd (heq.trans value_zero.symm) hne

/-- What lies within half of the distance to the next number on either side is nearest to a number,
and only the two midpoints are as near to another one. -/
theorem nearest_of_sides {q a b above below : ℚ} (hbelow : 0 < below) (hle : below ≤ above)
    (hlow : a - below ≤ q) (hhigh : q ≤ a + above)
    (hsides : a + 2 * above ≤ b ∨ b ≤ a - 2 * below) :
    |q - a| ≤ |q - b| ∧ (|q - b| = |q - a| → q = a - below ∨ q = a + above) := by
  rcases hsides with hb | hb
  · have hother : |q - b| = b - q := by
      rw [abs_sub_comm, abs_of_nonneg]
      linarith
    rw [hother]
    rcases abs_cases (q - a) with ⟨hq, -⟩ | ⟨hq, hneg⟩
    · exact ⟨by linarith, fun h => .inr (by linarith)⟩
    · exact ⟨by linarith, fun h => by linarith⟩
  · have hother : |q - b| = q - b := by
      rw [abs_of_nonneg]
      linarith
    rw [hother]
    rcases abs_cases (q - a) with ⟨hq, hpos⟩ | ⟨hq, -⟩
    · exact ⟨by linarith, fun h => by linarith⟩
    · exact ⟨by linarith, fun h => .inl (by linarith)⟩

/-- Half of the distance to the float below one with the given mantissa and exponent, in units of the
last place. -/
def halfBelow (m : Nat) (e : Int) : ℚ := if m = 2 ^ 52 ∧ -1074 < e then 1 / 4 else 1 / 2

theorem halfBelow_pos (m : Nat) (e : Int) : 0 < halfBelow m e := by
  unfold halfBelow
  split <;> norm_num

theorem halfBelow_le (m : Nat) (e : Int) : halfBelow m e ≤ 1 / 2 := by
  unfold halfBelow
  split <;> norm_num

/-- No float lies within twice the half distances. -/
theorem sides {m : Nat} {e : Int} (hfull : 2 ^ 52 ≤ m ∨ e = -1074) (hne : value y ≠ m * 2 ^ e) :
    m * 2 ^ e + 2 * (1 / 2 * 2 ^ e) ≤ value y ∨
      value y ≤ m * 2 ^ e - 2 * (halfBelow m e * 2 ^ e) := by
  have hunit : (0 : ℚ) < 2 ^ e := zpow_pos two_pos e
  rcases gap hfull hne with h | h | ⟨hm, he, h⟩
  · exact .inl (by linarith)
  · have hhalf := mul_le_mul_of_nonneg_right (halfBelow_le m e) hunit.le
    exact .inr (by linarith)
  · rw [halfBelow, if_pos ⟨hm, he⟩]
    exact .inr (by linarith)

/-- A number between the midpoints to the floats below and above, the midpoints themselves included
if the mantissa is even. -/
structure Between (m : Nat) (e : Int) (q : ℚ) : Prop where
  low : m * 2 ^ e - halfBelow m e * 2 ^ e ≤ q
  high : q ≤ m * 2 ^ e + 1 / 2 * 2 ^ e
  ends : q = m * 2 ^ e - halfBelow m e * 2 ^ e ∨ q = m * 2 ^ e + 1 / 2 * 2 ^ e → m % 2 = 0

theorem Between.pos {m : Nat} {e : Int} {q : ℚ} (h : Between m e q) (hm : 0 < m) : 0 < q := by
  have hunit : (0 : ℚ) < 2 ^ e := zpow_pos two_pos e
  have hone : (1 : ℚ) ≤ m := Nat.one_le_cast.mpr hm
  have hhalf := halfBelow_le m e
  have hlow := h.low
  rw [← sub_mul] at hlow
  exact (mul_pos (by linarith) hunit).trans_le hlow

/-- What is between the midpoints around the greatest float is not yet rounded to infinity: that
float is odd. -/
theorem Between.lt {m : Nat} {e : Int} {q : ℚ} (h : Between m e q) (hm : m < 2 ^ 53)
    (he : e ≤ 971) : q < 2 ^ 1024 - 2 ^ 970 := by
  have hunit : (0 : ℚ) < 2 ^ e := zpow_pos two_pos e
  -- The greatest mantissa is odd, so that its upper end is not taken; any other has room above it.
  have hstrict : q < (2 ^ 53 - 1 / 2) * 2 ^ e := by
    rcases (Nat.le_sub_one_of_lt hm).eq_or_lt with rfl | hlt
    · refine lt_of_le_of_ne ?_ ?_
      · have hhigh := h.high
        push_cast at hhigh
        linarith
      · rintro rfl
        have heven := h.ends (.inr (by push_cast; ring))
        cases heven
    · have hm' : (m : ℚ) + 2 ≤ 2 ^ 53 := by
        have : m + 2 ≤ 2 ^ 53 := by omega
        exact_mod_cast this
      have hhigh := h.high
      rw [← add_mul] at hhigh
      exact hhigh.trans_lt (mul_lt_mul_of_pos_right (by linarith) hunit)
  have hpower : (2 : ℚ) ^ e ≤ 2 ^ 971 := by
    rw [← zpow_natCast]
    exact zpow_le_zpow_right₀ one_le_two he
  -- Half a step above the largest number, at the largest exponent.
  have hmost : (2 ^ 53 - 1 / 2 : ℚ) * 2 ^ 971 = 2 ^ 1024 - 2 ^ 970 := by
    rw [show 1024 = 53 + 971 from rfl, pow_add _ 53 971, pow_succ _ 970]
    generalize (2 : ℚ) ^ 970 = p
    ring
  rw [← hmost]
  exact hstrict.trans_le (mul_le_mul_of_nonneg_left hpower (by norm_num))

/-- What lies between the midpoints around a float is rounded to it. -/
theorem roundsTo_of_between {m : Nat} {e : Int} {q : ℚ} (hx : x.isFinite = true)
    (hvalue : value x = m * 2 ^ e) (hm : 0 < m) (hlt : m < 2 ^ 53) (he : e ≤ 971)
    (hfull : 2 ^ 52 ≤ m ∨ e = -1074) (hlast : x.toBits.toNat % 2 = m % 2) (h : Between m e q) :
    RoundsTo q x := by
  have hunit : (0 : ℚ) < 2 ^ e := zpow_pos two_pos e
  have hbelow : 0 < halfBelow m e * 2 ^ e := mul_pos (halfBelow_pos m e) hunit
  have hle := mul_le_mul_of_nonneg_right (halfBelow_le m e) hunit.le
  have hnearest {y : Float} (hne : value y ≠ m * 2 ^ e) :=
    nearest_of_sides hbelow hle h.low h.high (sides hfull hne)
  refine ⟨hx, ?_, fun y _ => ?_, fun y _ hne heq => ?_⟩
  · rw [abs_of_pos (h.pos hm)]
    exact h.lt hlt he
  · by_cases hne : value y = value x
    · rw [hne]
    · rw [hvalue] at hne ⊢
      exact (hnearest hne).1
  · rw [hvalue] at hne heq
    rw [hlast]
    exact h.ends ((hnearest hne).2 heq)

/-! ### Words -/

/-- The exponent of a finite float is not all ones. -/
theorem isFinite_iff {x : Float} :
    x.isFinite = true ↔ x.toBits.toNat / 2 ^ 52 % 2 ^ 11 ≠ 2047 := by
  show UnpackedFloat.isFinite x.toModel.unpack = true ↔ _
  rw [unpack_toModel, ofFields]
  by_cases he : x.toBits.toNat / 2 ^ 52 % 2 ^ 11 = 2047
  · rw [if_pos he]
    refine iff_of_false ?_ (not_not.mpr he)
    split <;> exact Bool.false_ne_true
  · rw [if_neg he]
    refine iff_of_true ?_ he
    split
    · split <;> rfl
    · rfl

end Wireframe.Binary64
