/-
Numbers in code are plain.

Whatever a float is, it is written with digits on both sides of a point, without a power of ten and
without a name for what is no number.  A fraction has four places and is off by half of the last one at
most; a length denotes the float itself, as the decimal that is written is rounded to it.

* `value_clamp` — a number cut to an interval;
* `exists_fraction`, `exists_double` — what is written for a fraction and for a length;
* `numbers_plain` — both, for every float.
-/
import Wireframe.Dart.Literal
import Wireframe.Proofs.Decimal.Written

namespace Wireframe.Dart

open Binary64 Decimal Design

variable {v : Float}

/-! ### Fractions -/

/-- A finite number that is cut to an interval of finite bounds. -/
theorem value_clamp {low high : Float} (hlow : low.isFinite = true) (hhigh : high.isFinite = true)
    (hle : value low ≤ value high) (hv : v.isFinite = true) :
    (clamp low high v).isFinite = true ∧
      value (clamp low high v) = max (value low) (min (value high) (value v)) := by
  unfold clamp
  simp only [lt_iff_value hv hlow]
  by_cases hbelow : value v < value low
  · simp only [if_pos hbelow, lt_iff_value hhigh hlow, if_neg hle.not_gt]
    refine ⟨hlow, ?_⟩
    rw [max_eq_left ((min_le_right _ _).trans hbelow.le)]
  · simp only [if_neg hbelow, lt_iff_value hhigh hv]
    by_cases habove : value high < value v
    · rw [if_pos habove, min_eq_left habove.le, max_eq_right hle]
      exact ⟨hhigh, rfl⟩
    · rw [if_neg habove, min_eq_right (not_lt.mp habove), max_eq_right (not_lt.mp hbelow)]
      exact ⟨hv, rfl⟩

theorem isFinite_zero : (0.0 : Float).isFinite = true := isFinite_of_steps steps_zero

theorem isFinite_one : (1.0 : Float).isFinite = true := isFinite_of_steps steps_one

/-- What is written for a fraction. -/
theorem exists_fraction (v : Float) :
    ∃ w : Written, (fraction v).toList = w.text ∧ w.IsPlain ∧ w.places.length = 4 ∧ 0 ≤ w.value ∧
      w.value ≤ 1 ∧ |w.value - max 0 (min 1 (value v))| ≤ 1 / 20000 := by
  have hcut : ∃ x : Float, (if v.isFinite then clamp 0.0 1.0 v else 0.0) = x ∧
      x.isFinite = true ∧ value x = max 0 (min 1 (value v)) := by
    refine ⟨_, rfl, ?_⟩
    cases hv : v.isFinite with
    | true =>
      have hclamp := value_clamp isFinite_zero isFinite_one
        (by rw [value_zero, value_one]; exact zero_le_one) hv
      rwa [value_zero, value_one] at hclamp
    | false =>
      rw [if_neg Bool.false_ne_true, value_zero, value_of_not_isFinite hv, min_eq_right zero_le_one,
        max_self]
      exact ⟨isFinite_zero, rfl⟩
  obtain ⟨x, hx, hfinite, hvalue⟩ := hcut
  have h0 : 0 ≤ value x := hvalue ▸ le_max_left _ _
  have h1 : value x ≤ 1 := hvalue ▸ max_le zero_le_one (min_le_left _ _)
  obtain ⟨w, htext, hplain, hplaces, hlow, hhigh, herror⟩ :=
    exists_placesText four_pos hfinite h0 h1
  rw [hvalue] at herror
  refine ⟨w, ?_, hplain, hplaces, hlow, hhigh, herror.trans_eq (by norm_num)⟩
  rw [fraction, hx, htext]

/-! ### Lengths -/

theorem layout_plainNumber (d : Scaled) : plainNumber.layout d = d.plain false :=
  if_pos (.inr ⟨rfl, rfl⟩)

/-- The float that stands for a length, and what is written for it. -/
theorem exists_written_double {x : Float} {b : Binary}
    (hx : (if v.isFinite && v > 0.0 then v else 0.0) = x)
    (hread : Reading.ofFloat x = .finite false b) :
    ∃ w : Written, (double v).toList = w.text ∧ w.IsPlain ∧
      w.value = (b.shortest plainNumber.tie).value := by
  obtain ⟨w, hplain, hvalue, htext⟩ := exists_plain (b.shortest plainNumber.tie)
  refine ⟨w, ?_, hplain, hvalue⟩
  have hrender : (plainNumber.render x).toList = (b.shortest plainNumber.tie).plain false := by
    rw [Notation.render, hread, ← layout_plainNumber]
    exact String.toList_ofList
  rw [htext, double, hx, ← hrender]
  split
  · exact (List.append_nil _).symm
  · exact String.toList_append

/-- What is written for a length. -/
theorem exists_double (v : Float) :
    ∃ w : Written, (double v).toList = w.text ∧ w.IsPlain ∧
      ∃ x : Float, RoundsTo w.value x ∧ value x = max (value v) 0 := by
  by_cases hlength : (v.isFinite && v > 0.0) = true
  -- A positive number is read as its digits, which are not negative and not zero.
  · have hv : v.isFinite = true ∧ 0 < value v := by
      rw [Bool.and_eq_true, decide_eq_true_eq] at hlength
      refine ⟨hlength.1, ?_⟩
      have hlt := (lt_iff_value isFinite_zero hlength.1).mp hlength.2
      rwa [value_zero] at hlt
    obtain ⟨negative, b, hread⟩ := exists_ofFloat hv.1
    have hreads := reads_of_ofFloat hread
    have hvalue := hreads.value
    have hnonneg : 0 ≤ b.value := mul_nonneg b.mantissa.cast_nonneg (zpow_nonneg two_pos.le _)
    have hsign : negative = false := by
      cases negative with
      | false => rfl
      | true =>
        rw [if_pos rfl] at hvalue
        linarith [hv.2]
    subst hsign
    rw [if_neg Bool.false_ne_true] at hvalue
    have hpos : 0 < b.mantissa := by
      refine Nat.pos_of_ne_zero fun hzero => hv.2.ne' ?_
      rw [hvalue, Binary.value, hzero, Nat.cast_zero, zero_mul]
    obtain ⟨w, htext, hplain, hw⟩ := exists_written_double (if_pos hlength) hread
    -- The shortest digits round to the number itself.
    refine ⟨w, htext, hplain, v, ?_, (max_eq_left hv.2.le).symm⟩
    rw [hw]
    exact hreads.roundsTo_shortest hpos _
  -- All that is not positive is written as zero, which is exact.
  · have hzero : max (value v) 0 = 0 := by
      refine max_eq_right ?_
      cases hfinite : v.isFinite with
      | false => rw [value_of_not_isFinite hfinite]
      | true =>
        rw [hfinite, Bool.true_and, decide_eq_true_eq] at hlength
        have hle := not_lt.mp ((lt_iff_value isFinite_zero hfinite).not.mp hlength)
        rwa [value_zero] at hle
    have hread : Reading.ofFloat 0.0 = .finite false ⟨0, -1074, false⟩ := by decide +kernel
    obtain ⟨w, htext, hplain, hw⟩ := exists_written_double (if_neg hlength) hread
    have hnothing : w.value = 0 := by
      rw [hw]
      simp [Binary.shortest, Scaled.value]
    refine ⟨w, htext, hplain, 0.0, ?_, value_zero.trans hzero.symm⟩
    rw [hnothing]
    exact roundsTo_zero

/-- Every float is written with digits on both sides of a point, as a fraction and as a length. -/
theorem numbers_plain (v : Float) :
    (∃ w : Written, (fraction v).toList = w.text ∧ w.IsPlain ∧ w.places.length = 4 ∧ 0 ≤ w.value ∧
      w.value ≤ 1 ∧ |w.value - max 0 (min 1 (value v))| ≤ 1 / 20000) ∧
    ∃ w : Written, (double v).toList = w.text ∧ w.IsPlain ∧
      ∃ x : Float, RoundsTo w.value x ∧ value x = max (value v) 0 :=
  ⟨exists_fraction v, exists_double v⟩

end Wireframe.Dart
