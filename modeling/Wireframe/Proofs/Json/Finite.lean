/-
Numbers that are read are finite.

* `steps_floatOfNat`, `steps_powerOfTen` — the factors of a number, in steps of the least float;
* `isFinite_of_scale` — a float times a power of ten, if it is not too large;
* `Number.IsHeld`, `isHeld_of_readNumber` — a number that is read fits its kind, and is finite as a
  float.
-/
import Wireframe.Proofs.Binary64.Division
import Wireframe.Proofs.Json.Numeral

namespace Wireframe.Binary64

open Float.Model Float.Model.UnpackedFloat

theorem isFinite_of_isNaN_of_isInf {x : Float} (hnan : x.isNaN = false) (hinf : x.isInf = false) :
    x.isFinite = true := by
  change x.toModel.unpack.isNaN = false at hnan
  change x.toModel.unpack.isInf = false at hinf
  show x.toModel.unpack.isFinite = true
  cases hu : x.toModel.unpack with
  | notANumber =>
    rw [hu] at hnan
    cases hnan
  | infinity s =>
    rw [hu] at hinf
    cases hinf
  | zero s => rfl
  | finite s m e h => rfl

theorem isFinite_neg {x : Float} (h : x.isFinite = true) : (-x).isFinite = true := by
  have hc := canonical_unpack x.toModel
  change x.toModel.unpack.isFinite = true at h
  show (Float.Model.pack x.toModel.unpack.neg).unpack.isFinite = true
  cases hu : x.toModel.unpack with
  | notANumber =>
    rw [hu] at h
    cases h
  | infinity s =>
    rw [hu] at h
    cases h
  | zero s =>
    have hzero : UnpackedFloat.neg (.zero s) = .zero (-s) := rfl
    rw [hzero, unpack_pack_of_canonical (u := .zero (-s)) trivial]
    rfl
  | finite s m e hm =>
    rw [hu] at hc
    have hneg : UnpackedFloat.neg (.finite s m e hm) = .finite (-s) m e hm := rfl
    rw [hneg, unpack_pack_of_canonical (u := .finite (-s) m e hm) hc]
    rfl

end Wireframe.Binary64

namespace Wireframe.Json.Numeral

open Binary64 Float.Model Float.Model.UnpackedFloat

theorem steps_floatOfNat (n : Nat) :
    ∃ a, Steps (floatOfNat n).toModel.unpack a ∧ a ≤ 2 ^ 1138 := by
  show ∃ a, Steps (Float.Model.pack
    (UnpackedFloat.normalize format (n.toUInt64.toNat : Int) 0 .positive)).unpack a ∧ _
  have hlt : n.toUInt64.toNat < 2 ^ 64 := n.toUInt64.toNat_lt
  generalize n.toUInt64.toNat = k at hlt
  rcases Nat.eq_zero_or_pos k with rfl | hk
  · exact ⟨0, Steps.zero .positive, Nat.zero_le _⟩
  · obtain ⟨m, e, h, hround, hrange, hvalue⟩ :=
      round_finite .positive (m := k) (e := 0) hk (by decide)
    rw [show (0 : Int) + 1074 = (1074 : Nat) from rfl, Int.toNat_natCast] at hvalue
    have hle : m * 2 ^ (e + 1074).toNat ≤ 2 ^ 1138 := by
      refine hvalue.le_two_pow (j := 1138) (k := 1084) rfl ?_
      rw [show 1138 = 64 + 1074 from rfl, pow_add]
      exact Nat.le_add_right_of_le (Nat.mul_le_mul_right _ hlt.le)
    rw [normalize_pos hk, hround]
    exact ⟨_, steps_of_finite h hrange (by decide) hle, hle⟩

/-- Small powers of ten are exact. -/
theorem powerOfTen_small : ∀ n ≤ 22, (powerOfTen n).isFinite = true ∧ 1.0 ≤ powerOfTen n := by
  decide +kernel

/-- The largest power of ten is below the largest float. -/
theorem ten_pow_largestPower : 10 ^ largestPower ≤ (2 ^ 53 - 1) * 2 ^ 971 := by
  decide +kernel

/-- No power of ten up to the largest is rounded beyond the largest float. -/
theorem exponent_le_of_rounds {m n : Nat} {e : Int} (hrange : InRange m e)
    (hvalue : Rounds (10 ^ n * 2 ^ 1074) (m * 2 ^ (e + 1074).toNat)) (hn : n ≤ largestPower) :
    e ≤ 971 := by
  -- The bound stays a variable, so that its power is not computed.
  obtain ⟨k, hk⟩ : ∃ k, k = 2045 := ⟨_, rfl⟩
  -- Below the largest power the value is at most the largest number there is, which has 53 binary
  -- digits.
  have hle : 10 ^ n * 2 ^ 1074 ≤ (2 ^ 53 - 1) * 2 ^ k := by
    rw [hk, show 2045 = 971 + 1074 from rfl, pow_add, ← mul_assoc]
    exact Nat.mul_le_mul_right _
      ((Nat.pow_le_pow_right (by decide) hn).trans ten_pow_largestPower)
  have hlog : (10 ^ n * 2 ^ 1074).log2 < 53 + k := by
    refine (Nat.log2_lt (by positivity)).mpr (hle.trans_lt ?_)
    rw [pow_add]
    gcongr
    decide
  -- Rounding cannot pass a number that is one of those it rounds to.
  have hbound : m * 2 ^ (e + 1074).toNat ≤ (2 ^ 53 - 1) * 2 ^ k :=
    hvalue.ge_of_ge (Dvd.dvd.mul_left (pow_dvd_pow 2 (by omega)) _) hle
  by_contra hlt
  -- An exponent above the largest one would make the number normal, and so too large.
  obtain ⟨-, -, hnormal⟩ := hrange
  have hm : 2 ^ 52 ≤ m := by omega
  have hpow : 2 * 2 ^ k ≤ 2 ^ (e + 1074).toNat := by
    rw [← pow_succ']
    exact pow_le_pow_right₀ (by decide) (by omega)
  have hlarge : 2 ^ 52 * (2 * 2 ^ k) ≤ m * 2 ^ (e + 1074).toNat := Nat.mul_le_mul hm hpow
  have hpos : 0 < 2 ^ k := by positivity
  omega

theorem steps_powerOfTen {n : Nat} (hn : n ≤ largestPower) :
    ∃ b, Steps (powerOfTen n).toModel.unpack b ∧ 2 ^ 1074 ≤ b := by
  by_cases hsmall : n ≤ 22
  · obtain ⟨hfinite, hone⟩ := powerOfTen_small n hsmall
    obtain ⟨b, hb⟩ := steps_of_nonneg (Binary64.le_trans (by decide +kernel) hone) hfinite
    exact ⟨b, hb, (le_iff_of_steps steps_one hb).mp hone⟩
  -- the power is rounded once
  · have hmodel : (powerOfTen n).toModel = Float.Model.pack (UnpackedFloat.mul format
        (.finite .positive (2 ^ 53) (-53) (by decide))
        (.finite .positive (10 ^ n) 0 (by positivity))) := by
      have hbits : (2 : Int) ^ format.exponentBits = 2048 := rfl
      have hlimit : n ≤ 308 := hn
      unfold powerOfTen Float.ofScientific
      rw [dif_neg (by omega)]
      show Float.Model.pack (UnpackedFloat.ofScientific format 1 (n : Int)) = _
      unfold UnpackedFloat.ofScientific
      rw [dif_neg one_ne_zero, hbits, if_neg (by omega), if_neg (by omega),
        if_pos (by omega)]
      rfl
    obtain ⟨m, e, h, hmul, hrange, hvalue⟩ := mul_finite (m := 2 ^ 53) (k := 10 ^ n) (e := -53)
      (d := 0) (by decide) (by positivity) (by decide)
      (Nat.le_mul_of_pos_right _ (by positivity) |>.trans' (by decide))
    have hproduct : 2 ^ 53 * 10 ^ n * 2 ^ ((-53 : Int) + 0 + 1074).toNat = 10 ^ n * 2 ^ 1074 := by
      rw [show ((-53 : Int) + 0 + 1074).toNat = 1021 from rfl, mul_comm (2 ^ 53), mul_assoc,
        ← pow_add]
    rw [hproduct] at hvalue
    rw [hmodel, hmul, unpack_pack_of_canonical (u := .finite .positive m e h)
      ⟨hrange.1, hrange.2.1, exponent_le_of_rounds hrange hvalue hn, hrange.2.2⟩]
    exact ⟨_, Steps.finite m e h, hvalue.le_of_le (dvd_steps steps_one (canonical_unpack _))
      (Nat.le_mul_of_pos_left _ (by positivity))⟩

/-- Dividing by a power of ten at most doubles, as far as the bounds tell. -/
theorem steps_div_powerOfTen {x : Float} {a k n : Nat} (hx : Steps x.toModel.unpack a)
    (ha : a ≤ 2 ^ k) (hn : n ≤ largestPower) (hk : k + 1 ≤ 2045) :
    ∃ c, Steps (x / powerOfTen n).toModel.unpack c ∧ c ≤ 2 ^ (k + 1) := by
  obtain ⟨b, hb, hone⟩ := steps_powerOfTen hn
  refine steps_div hx hb ?_ hk
  have hlt : a < 2 ^ (k + 1) := ha.trans_lt (Nat.pow_lt_pow_right (by decide) (Nat.lt_succ_self k))
  calc a * 2 ^ 1074 < 2 ^ (k + 1) * 2 ^ 1074 := Nat.mul_lt_mul_of_pos_right hlt (by positivity)
    _ ≤ 2 ^ (k + 1) * b := Nat.mul_le_mul_left _ hone
    _ = b * 2 ^ (k + 1) := mul_comm _ _

/-- A float that is scaled is finite; a product that is not is refused. -/
theorem isFinite_of_scale {power : Int} {fuel : Nat} {y : Float} :
    ∀ {x : Float} {a k : Nat}, Steps x.toModel.unpack a → a ≤ 2 ^ k → k + fuel ≤ 2045 →
      scale x power fuel = some y → y.isFinite = true := by
  induction fuel generalizing power with
  | zero =>
    intro x a k _ _ _ h
    cases h
    rfl
  | succ fuel ih =>
    intro x a k hx ha hk h
    have hfinite := isFinite_of_steps hx
    rw [scale] at h
    -- A small power is reached by one multiplication or division.
    split at h
    · rename_i hsmall
      obtain ⟨b, hb, -⟩ := steps_powerOfTen hsmall
      split at h
      -- A product that is too large is refused, and any other is finite.
      · dsimp only at h
        split at h
        · cases h
        · rename_i hinf
          cases h
          exact isFinite_of_isNaN_of_isInf (isNaN_mul hfinite (isFinite_of_steps hb))
            (Bool.eq_false_iff.mpr hinf)
      · cases h
        obtain ⟨c, hc, -⟩ := steps_div_powerOfTen hx ha hsmall (by omega)
        exact isFinite_of_steps hc
    · split at h
      · cases h
        exact hfinite
      -- A larger power takes one division by the largest, and the rest of the fuel.
      · split at h
        · cases h
        · obtain ⟨c, hc, hle⟩ := steps_div_powerOfTen hx ha le_rfl (by omega)
          exact ih hc hle (by omega) h

theorem isFinite_signed {x : Float} (negative : Bool) (h : x.isFinite = true) :
    (signed negative x).isFinite = true := by
  cases negative with
  | false => exact h
  | true => exact isFinite_neg h

theorem isFinite_floatOfNat (n : Nat) : (floatOfNat n).isFinite = true := by
  obtain ⟨a, ha, -⟩ := steps_floatOfNat n
  exact isFinite_of_steps ha

theorem isFinite_of_evaluateFloat {n : Numeral} {x : Float} (h : n.evaluateFloat = some x) :
    x.isFinite = true := by
  obtain ⟨y, hy, rfl⟩ := Option.map_eq_some_iff.mp h
  obtain ⟨a, ha, hle⟩ := steps_floatOfNat
    (collect (collect 0 n.whole).1 (n.fraction.getD [])).1
  exact isFinite_signed _ (isFinite_of_scale ha hle (by decide) hy)

/-- What is collected fits 64 bits. -/
theorem collect_le {significand : Nat} (h : significand ≤ significandLimit) (digits : List Nat) :
    (collect significand digits).1 ≤ significandLimit := by
  induction digits generalizing significand with
  | nil => exact h
  | cons d rest ih =>
    rw [collect]
    split
    · rename_i hle
      exact ih hle
    · exact h

end Wireframe.Json.Numeral

namespace Wireframe.Json

/-- A number as it is held: a whole number fits 64 bits, and a float is finite. -/
def Number.IsHeld : Number → Prop
  | .int n => IsWhole n
  | .float x => x.isFinite = true

/-- A number is held as it is evaluated. -/
theorem isHeld_of_evaluate {numeral : Numeral} {n : Number} (h : numeral.evaluate = some n) :
    n.IsHeld := by
  have hcollect := Numeral.collect_le (Nat.zero_le _) numeral.whole
  unfold Numeral.evaluate at h
  split at h
  · rename_i size _ _ hsize
    rw [hsize] at hcollect
    change size ≤ 0xFFFFFFFFFFFFFFFF at hcollect
    split at h
    · split at h
      · cases h
        constructor <;> omega
      · cases h
        exact Binary64.isFinite_neg (Numeral.isFinite_floatOfNat _)
    · cases h
      constructor <;> omega
  · obtain ⟨x, hx, rfl⟩ := Option.map_eq_some_iff.mp h
    exact Numeral.isFinite_of_evaluateFloat hx

theorem isHeld_of_readNumber {source rest : Source} {n : Number}
    (h : readNumber source = .ok (n, rest)) : n.IsHeld := by
  rw [readNumber, bind_eq_ok] at h
  obtain ⟨⟨numeral, behind⟩, -, h⟩ := h
  dsimp only at h
  split at h
  · rename_i hvalue
    cases h
    exact isHeld_of_evaluate hvalue
  · cases h

/-- A number that is held is finite as a float. -/
theorem Number.IsHeld.isFinite_toFloat {n : Number} (h : n.IsHeld) :
    n.toFloat.isFinite = true := by
  cases n with
  | int n => exact Numeral.isFinite_signed _ (Numeral.isFinite_floatOfNat _)
  | float x => exact h

end Wireframe.Json
