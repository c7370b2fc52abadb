/-
Dividing floats, and sums that are not negative.

The mantissa of a quotient is cut off where its places end, and what was cut off decides whether it
is rounded up.  However that goes, a quotient below a power of two is not rounded above it.

* `shifted_bounds`, `shifted_le` — what is left of a mantissa that is shifted into range;
* `roundWithAccuracy_le` — rounding does not pass a power of two, whatever was cut off before;
* `steps_div`, `steps_div_self` — quotients of floats that are not negative;
* `le_steps_add` — a sum that is finite is not below its parts.
-/
import Wireframe.Proofs.Binary64.Arithmetic

namespace Wireframe.Binary64

open Float.Model Float.Model.UnpackedFloat

variable {x y : Float}

theorem mantissa_shiftRight (em : ExtendedMantissa) (k : Nat) :
    (em >>> k).mantissa = em.mantissa / 2 ^ k := by
  induction k generalizing em with
  | zero => exact (Nat.div_one _).symm
  | succ k ih =>
    show (em >>> k).mantissa / 2 = _
    rw [ih, Nat.div_div_eq_div_mul, pow_succ]

theorem mantissa_ofMantissaAndAccuracy (m : Nat) (acc : Accuracy) :
    (ExtendedMantissa.ofMantissaAndAccuracy m acc).mantissa = m := by
  cases acc with
  | exact => rfl
  | inexact o => cases o <;> rfl

theorem roundedMantissa_bounds (em : ExtendedMantissa) :
    em.mantissa ≤ em.roundedMantissa ∧ em.roundedMantissa ≤ em.mantissa + 1 := by
  obtain ⟨m, r, s⟩ := em
  cases r <;> cases s <;>
    simp only [ExtendedMantissa.roundedMantissa, ExtendedMantissa.accuracy,
      Accuracy.roundToNearestEven] <;> omega

/-- The number of places by which a mantissa is shifted to get into range. -/
def places (q : Nat) (t : Int) : Nat :=
  (format.targetExponent (totalExponent q t) - t).toNat

theorem shiftToTargetExponent_eq (q : Nat) (t : Int) (acc : Accuracy) :
    shiftToTargetExponent format q t acc =
      (ExtendedMantissa.ofMantissaAndAccuracy q acc >>> places q t, t + places q t) := rfl

theorem roundWithAccuracy_eq (s : Sign) (q : Nat) (t : Int) (acc : Accuracy) :
    let r := (ExtendedMantissa.ofMantissaAndAccuracy q acc >>> places q t).roundedMantissa
    let last := shiftToTargetExponent format r (t + places q t) .exact
    roundWithAccuracy format s q t acc =
      if h : last.1.mantissa = 0 then .zero s
      else .finite s last.1.mantissa last.2 (Nat.pos_of_ne_zero h) := rfl


theorem places_eq {q : Nat} {t : Int} (ht : t ≤ format.targetExponent (totalExponent q t)) :
    t + places q t = max ((q.log2 : Int) + 1 + t - 53) (-1074) := by
  unfold places
  rw [targetExponent_eq] at *
  omega

/-- What is left of a mantissa that is shifted into range by `k` places, rounded up or down. -/
theorem shifted_bounds {q k r : Nat} {t : Int} (hlow : q / 2 ^ k ≤ r) (hhigh : r ≤ q / 2 ^ k + 1)
    (hk : t + k = max ((q.log2 : Int) + 1 + t - 53) (-1074)) :
    r ≤ 2 ^ 53 ∧ (t + k ≠ -1074 → 2 ^ 52 ≤ r) := by
  have hpow : 0 < 2 ^ k := by positivity
  have hlog : q < 2 ^ (q.log2 + 1) := Nat.lt_log2_self
  constructor
  · have hlt : q / 2 ^ k < 2 ^ 53 := by
      refine (Nat.div_lt_iff_lt_mul hpow).mpr (hlog.trans_le ?_)
      rw [← pow_add]
      exact Nat.pow_le_pow_right (by decide) (by omega)
    omega
  -- above the least exponent a mantissa of full length is left
  · intro hne
    have hk52 : q.log2 = 52 + k := by omega
    have hpos : q ≠ 0 := by
      rintro rfl
      rw [Nat.log2_zero] at hk52
      omega
    refine Nat.le_trans ((Nat.le_div_iff_mul_le hpow).mpr ?_) hlow
    rw [← pow_add, ← hk52]
    exact Nat.log2_self_le hpos

/-- A mantissa below a power of two is still below it after it has been shifted and rounded, unless
it was shifted out altogether. -/
theorem shifted_le {q i k r : Nat} (hhigh : r ≤ q / 2 ^ k + 1) (hq : q < 2 ^ i) :
    r * 2 ^ k ≤ 2 ^ max i k := by
  have hlt : q / 2 ^ k < 2 ^ (max i k - k) := by
    refine (Nat.div_lt_iff_lt_mul (by positivity)).mpr (hq.trans_le ?_)
    rw [← pow_add]
    exact Nat.pow_le_pow_right (by decide) (by omega)
  calc r * 2 ^ k ≤ 2 ^ (max i k - k) * 2 ^ k := Nat.mul_le_mul_right _ (by omega)
    _ = 2 ^ max i k := by rw [← pow_add, Nat.sub_add_cancel (le_max_right i k)]

/-- A mantissa below a power of two is rounded to that power at most, whatever was cut off it. -/
theorem roundWithAccuracy_le (s : Sign) {q i j : Nat} {t : Int} (acc : Accuracy) (hq : q < 2 ^ i)
    (ht : t ≤ format.targetExponent (totalExponent q t)) (hj : (i : Int) + t + 1074 ≤ j) :
    roundWithAccuracy format s q t acc = .zero s ∨
      ∃ m e h, roundWithAccuracy format s q t acc = .finite s m e h ∧ InRange m e ∧
        m * 2 ^ (e + 1074).toNat ≤ 2 ^ j := by
  have hplaces := places_eq ht
  obtain ⟨hlow, hhigh⟩ := roundedMantissa_bounds
    (ExtendedMantissa.ofMantissaAndAccuracy q acc >>> places q t)
  rw [mantissa_shiftRight, mantissa_ofMantissaAndAccuracy] at hlow hhigh
  rw [roundWithAccuracy_eq]
  generalize (ExtendedMantissa.ofMantissaAndAccuracy q acc >>> places q t).roundedMantissa = r at *
  generalize places q t = k at *
  obtain ⟨h53, h52⟩ := shifted_bounds hlow hhigh hplaces
  rcases Nat.eq_zero_or_pos r with rfl | hr
  · refine Or.inl (dif_pos ?_)
    rw [shiftToTargetExponent_eq, mantissa_shiftRight, mantissa_ofMantissaAndAccuracy]
    exact Nat.zero_div _
  · have hfull : 2 ^ 52 ≤ r ∨ t + k = -1074 := by
      by_cases hleast : t + k = -1074
      · exact Or.inr hleast
      · exact Or.inl (h52 hleast)
    obtain ⟨em, e, hshift, hpos, hrange, hvalue⟩ :=
      shiftToTargetExponent_rounded hr h53 (by omega) hfull
    refine Or.inr ⟨em.mantissa, e, hpos, ?_, hrange, ?_⟩
    · rw [hshift]
      exact dif_neg hpos.ne'
    · refine Nat.le_of_mul_le_mul_right ?_ (Nat.two_pow_pos k)
      calc em.mantissa * 2 ^ (e + 1074).toNat * 2 ^ k
          = r * 2 ^ k * 2 ^ (t + k + 1074).toNat := by
            rw [hvalue]
            ring
        _ ≤ 2 ^ max i k * 2 ^ (t + k + 1074).toNat :=
            Nat.mul_le_mul_right _ (shifted_le hhigh hq)
        _ ≤ 2 ^ j * 2 ^ k := by
            rw [← pow_add, ← pow_add]
            refine Nat.pow_le_pow_right (by decide) ?_
            -- a mantissa that was shifted out altogether was below the least exponent
            have hout : i < k → t + k = -1074 := by
              intro hlt
              by_contra hne
              have := h52 hne
              have h0 : q / 2 ^ k = 0 := Nat.div_eq_of_lt
                (hq.trans (Nat.pow_lt_pow_right (by decide) hlt))
              omega
            omega

/-! ### Quotients -/

/-- The exponent of a quotient before it is rounded. -/
def quotientExponent (m : Nat) (e : Int) (m' : Nat) (e' : Int) : Int :=
  min (e - e') (max ((m.log2 : Int) + e - m'.log2 - e' - 53) (-1074))

/-- The mantissa of a quotient before it is rounded. -/
def quotient (m : Nat) (e : Int) (m' : Nat) (e' : Int) : Nat :=
  m * 2 ^ (e - e' - quotientExponent m e m' e').toNat / m'

theorem div_finite (s s' : Sign) {m m' : Nat} (e e' : Int) (hm : 0 < m) (hm' : 0 < m') :
    ∃ acc, UnpackedFloat.div format (.finite s m e hm) (.finite s' m' e' hm') =
      roundWithAccuracy format (s / s') (quotient m e m' e') (quotientExponent m e m' e') acc := by
  have hexponent : min (e - e') (format.targetExponent (totalExponent m e - totalExponent m' e')) =
      quotientExponent m e m' e' := by
    show min (e - e') (max ((m.log2 : Int) + 1 + e - (m'.log2 + 1 + e') - 53) (-1074)) = _
    unfold quotientExponent
    congr 2
    omega
  refine ⟨accuracyOfFraction
    (m * 2 ^ (e - e' - quotientExponent m e m' e').toNat % m') m', ?_⟩
  simp only [UnpackedFloat.div, divCore, hexponent, Nat.shiftLeft_eq]
  rfl

/-- A quotient has as many places as can be kept, or more. -/
theorem quotientExponent_le {m m' : Nat} (e e' : Int) (hm : 0 < m) (hm' : 0 < m') :
    quotientExponent m e m' e' ≤ format.targetExponent
      (totalExponent (quotient m e m' e') (quotientExponent m e m' e')) := by
  rw [targetExponent_eq]
  -- The exponent is the least of two, so that it is bounded by each.
  have hsecond : quotientExponent m e m' e' ≤
      max ((m.log2 : Int) + e - m'.log2 - e' - 53) (-1074) := min_le_right _ _
  have hfirst : quotientExponent m e m' e' ≤ e - e' := min_le_left _ _
  -- The digits of the quotient are counted: dividing loses as many as the divisor has, up to one.
  have hlog : (m.log2 : Int) + (e - e' - quotientExponent m e m' e').toNat ≤
      (quotient m e m' e').log2 + m'.log2 + 1 := by
    have hlow : 2 ^ m.log2 ≤ m := Nat.log2_self_le hm.ne'
    have hhigh : m' < 2 ^ (m'.log2 + 1) := Nat.lt_log2_self
    have hnext : quotient m e m' e' < 2 ^ ((quotient m e m' e').log2 + 1) := Nat.lt_log2_self
    unfold quotient at *
    generalize (e - e' - quotientExponent m e m' e').toNat = k at *
    have hdiv : m * 2 ^ k < 2 ^ ((m * 2 ^ k / m').log2 + 1) * m' :=
      (Nat.div_lt_iff_lt_mul hm').mp hnext
    have hpow : 2 ^ (m.log2 + k) < 2 ^ ((m * 2 ^ k / m').log2 + 1 + (m'.log2 + 1)) := by
      rw [pow_add, pow_add _ _ (m'.log2 + 1)]
      calc 2 ^ m.log2 * 2 ^ k ≤ m * 2 ^ k := Nat.mul_le_mul_right _ hlow
        _ < 2 ^ ((m * 2 ^ k / m').log2 + 1) * m' := hdiv
        _ ≤ _ := Nat.mul_le_mul_left _ hhigh.le
    have := (Nat.pow_lt_pow_iff_right (by decide)).mp hpow
    omega
  omega

/-- A quotient below a power of two is at most that power when it is rounded. -/
theorem div_finite_le {m m' : Nat} {e e' : Int} {j : Nat} (hm : 0 < m) (hm' : 0 < m')
    (he : -1074 ≤ e) (he' : -1074 ≤ e')
    (hlt : m * 2 ^ (e + 1074).toNat * 2 ^ 1074 < m' * 2 ^ (e' + 1074).toNat * 2 ^ j) :
    UnpackedFloat.div format (.finite .positive m e hm) (.finite .positive m' e' hm') =
        .zero .positive ∨
      ∃ n l h, UnpackedFloat.div format (.finite .positive m e hm) (.finite .positive m' e' hm') =
        .finite .positive n l h ∧ InRange n l ∧ n * 2 ^ (l + 1074).toNat ≤ 2 ^ j := by
  obtain ⟨acc, hdiv⟩ := div_finite .positive .positive e e' hm hm'
  have hexponent := quotientExponent_le e e' hm hm'
  have hfirst : quotientExponent m e m' e' ≤ e - e' := min_le_left _ _
  have hsecond : quotientExponent m e m' e' ≤
      max ((m.log2 : Int) + e - m'.log2 - e' - 53) (-1074) := min_le_right _ _
  have hleast : quotientExponent m e m' e' = e - e' ∨ -1074 ≤ quotientExponent m e m' e' := by
    unfold quotientExponent
    omega
  -- the leading digits alone bound the exponent of the quotient
  have hlog : (m.log2 : Int) + e + 1074 ≤ m'.log2 + e' + j := by
    have hlow : 2 ^ m.log2 ≤ m := Nat.log2_self_le hm.ne'
    have hhigh : m' < 2 ^ (m'.log2 + 1) := Nat.lt_log2_self
    have hpow : 2 ^ (m.log2 + (e + 1074).toNat + 1074) <
        2 ^ (m'.log2 + 1 + (e' + 1074).toNat + j) := by
      calc 2 ^ (m.log2 + (e + 1074).toNat + 1074)
          = 2 ^ m.log2 * 2 ^ (e + 1074).toNat * 2 ^ 1074 := by rw [← pow_add, ← pow_add]
        _ ≤ m * 2 ^ (e + 1074).toNat * 2 ^ 1074 :=
            Nat.mul_le_mul_right _ (Nat.mul_le_mul_right _ hlow)
        _ < m' * 2 ^ (e' + 1074).toNat * 2 ^ j := hlt
        _ ≤ 2 ^ (m'.log2 + 1) * 2 ^ (e' + 1074).toNat * 2 ^ j :=
            Nat.mul_le_mul_right _ (Nat.mul_le_mul_right _ hhigh.le)
        _ = 2 ^ (m'.log2 + 1 + (e' + 1074).toNat + j) := by rw [← pow_add, ← pow_add]
    have := (Nat.pow_lt_pow_iff_right (by decide)).mp hpow
    omega
  obtain ⟨i, hi⟩ : ∃ i : Nat, (i : Int) + quotientExponent m e m' e' + 1074 = j := by
    refine ⟨(j - 1074 - quotientExponent m e m' e').toNat, ?_⟩
    omega
  have hq : quotient m e m' e' < 2 ^ i := by
    unfold quotient
    refine (Nat.div_lt_iff_lt_mul hm').mpr ?_
    rw [mul_comm (2 ^ i)]
    -- both sides are scaled by what the exponents have in common
    refine Nat.lt_of_mul_lt_mul_right
      (a := 2 ^ (e' + quotientExponent m e m' e' + 2148).toNat) ?_
    rw [mul_assoc, mul_assoc, ← pow_add, ← pow_add]
    rw [mul_assoc, mul_assoc, ← pow_add, ← pow_add] at hlt
    convert hlt using 3 <;> omega
  rw [hdiv]
  exact roundWithAccuracy_le .positive acc hq hexponent hi.le

/-- A quotient that is below a power of two is at most that power when it is rounded. -/
theorem steps_div {a b j : Nat} (hx : Steps x.toModel.unpack a) (hy : Steps y.toModel.unpack b)
    (hlt : a * 2 ^ 1074 < b * 2 ^ j) (hj : j ≤ 2045) :
    ∃ c, Steps (x / y).toModel.unpack c ∧ c ≤ 2 ^ j := by
  have hcx := canonical_unpack x.toModel
  have hcy := canonical_unpack y.toModel
  rw [unpack_div]
  generalize x.toModel.unpack = u at *
  generalize y.toModel.unpack = v at *
  -- The divisor is not zero, as the quotient is below a bound.
  cases hy with
  | zero s =>
    rw [zero_mul] at hlt
    exact absurd hlt (Nat.not_lt_zero _)
  | finite m' e' h' =>
    cases hx with
    | zero s =>
      refine ⟨0, ?_, Nat.zero_le _⟩
      have hdiv : UnpackedFloat.div format (.zero s) (.finite .positive m' e' h') =
          .zero (s / .positive) := rfl
      have hzero : Canonical (.zero (s / .positive)) := trivial
      rw [hdiv, unpack_pack_of_canonical hzero]
      exact Steps.zero _
    | finite m e h =>
      rcases div_finite_le h h' hcx.2.1 hcy.2.1 hlt with hdiv | ⟨n, l, hn, hdiv, hrange, hle⟩
      · rw [hdiv]
        exact ⟨0, Steps.zero _, Nat.zero_le _⟩
      · rw [hdiv]
        exact ⟨_, steps_of_finite hn hrange hj hle, hle⟩

/-- Two canonical floats that are the same number of steps are the same. -/
theorem finite_eq_of_steps_eq {m m' : Nat} {e e' : Int} (hm : 0 < m) (hm' : 0 < m')
    (h : Canonical (.finite .positive m e hm)) (h' : Canonical (.finite .positive m' e' hm'))
    (heq : m * 2 ^ (e + 1074).toNat = m' * 2 ^ (e' + 1074).toNat) : m = m' ∧ e = e' := by
  obtain ⟨hlt, he, -, hn⟩ := h
  obtain ⟨hlt', he', -, hn'⟩ := h'
  rcases lt_trichotomy e e' with hexp | rfl | hexp
  · exact absurd heq (steps_lt_of_exponent_lt hlt (by omega) he hexp).ne
  · exact ⟨Nat.eq_of_mul_eq_mul_right (Nat.two_pow_pos _) heq, rfl⟩
  · exact absurd heq (steps_lt_of_exponent_lt hlt' (by omega) he' hexp).ne'

/-- A float that is not zero divided by itself is one. -/
theorem steps_div_self {a : Nat} (hx : Steps x.toModel.unpack a) (hy : Steps y.toModel.unpack a)
    (ha : 0 < a) : Steps (x / y).toModel.unpack (2 ^ 1074) := by
  have hcx := canonical_unpack x.toModel
  have hcy := canonical_unpack y.toModel
  rw [unpack_div]
  generalize x.toModel.unpack = u at *
  generalize y.toModel.unpack = v at *
  -- The two are taken apart on their own, and known to be equal only by their steps.
  generalize hb : a = b at hy
  cases hx with
  | zero s => exact absurd ha (lt_irrefl 0)
  | finite m e h =>
    cases hy with
    | zero s => omega
    | finite m' e' h' =>
      obtain ⟨rfl, rfl⟩ := finite_eq_of_steps_eq h h' hcx hcy hb
      have hexponent : min (e - e)
          (format.targetExponent (totalExponent m e - totalExponent m e)) = -53 := by
        rw [sub_self, sub_self]
        rfl
      -- The quotient of a number by itself is exact: the mantissa shifted by 53 places, divided by
      -- itself.
      have hdiv : UnpackedFloat.div format (.finite .positive m e h) (.finite .positive m e h) =
          .finite .positive (2 ^ 52) (-52) (by decide) := by
        have hq : m * 2 ^ 53 / m = 2 ^ 53 := Nat.mul_div_cancel_left _ h
        have hr : m * 2 ^ 53 % m = 0 := Nat.mul_mod_right m _
        have hshift : (e - e - -53).toNat = 53 := by omega
        have hexact : accuracyOfFraction 0 m = .exact := if_pos rfl
        simp only [UnpackedFloat.div, divCore, hexponent, hshift, Nat.shiftLeft_eq, hq, hr, hexact]
        rfl
      rw [hdiv, unpack_pack_of_canonical one_canonical, ← unpack_one]
      exact steps_one

/-! ### Sums -/

theorem steps_of_nonneg (h0 : 0.0 ≤ x) (hfinite : x.isFinite = true) :
    ∃ a, Steps x.toModel.unpack a := by
  rw [nonneg_iff] at h0
  change UnpackedFloat.isFinite x.toModel.unpack = true at hfinite
  generalize x.toModel.unpack = u at *
  cases u with
  | notANumber => cases h0
  | infinity s => cases hfinite
  | zero s => exact ⟨0, Steps.zero s⟩
  | finite s m e h =>
    obtain rfl : s = .positive := h0
    exact ⟨_, Steps.finite m e h⟩

/-- What is not finite stays so when something finite is added. -/
theorem isFinite_of_isFinite_add (hy : y.isFinite = true) (h : (x + y).isFinite = true) :
    x.isFinite = true := by
  change UnpackedFloat.isFinite y.toModel.unpack = true at hy
  change UnpackedFloat.isFinite (x + y).toModel.unpack = true at h
  show UnpackedFloat.isFinite x.toModel.unpack = true
  rw [unpack_add] at h
  generalize x.toModel.unpack = u at *
  generalize y.toModel.unpack = v at *
  -- What is not finite stays so in a sum, unless two infinities cancel.
  cases u with
  | zero s => rfl
  | finite s m e hm => rfl
  | notANumber =>
    have hadd : UnpackedFloat.add format .notANumber v = .notANumber := rfl
    rw [hadd, unpack_pack_of_canonical (u := .notANumber) trivial] at h
    cases h
  | infinity s =>
    have hadd : UnpackedFloat.add format (.infinity s) v = .infinity s := by
      cases v with
      | notANumber => cases hy
      | infinity s' => cases hy
      | zero s' => rfl
      | finite s' m e hm => rfl
    rw [hadd, unpack_pack_of_canonical (u := .infinity s) trivial] at h
    cases h

/-- A finite sum is not below either of its parts. -/
theorem le_steps_add {a b : Nat} (hx : Steps x.toModel.unpack a) (hy : Steps y.toModel.unpack b)
    (hfinite : (x + y).isFinite = true) :
    ∃ c, Steps (x + y).toModel.unpack c ∧ a ≤ c ∧ b ≤ c := by
  obtain ⟨-, hsum⟩ | ⟨n, l, hn, hadd, hrange, hvalue⟩ := add_cases_of_steps hx hy
  · exact ⟨a + b, hsum, Nat.le_add_right a b, Nat.le_add_left b a⟩
  have hda := dvd_steps hx (canonical_unpack _)
  have hdb := dvd_steps hy (canonical_unpack _)
  change UnpackedFloat.isFinite (x + y).toModel.unpack = true at hfinite
  rw [hadd] at hfinite ⊢
  by_cases hl : l ≤ 971
  · rw [unpack_pack_of_canonical (u := .finite .positive n l hn)
      ⟨hrange.1, hrange.2.1, hl, hrange.2.2⟩]
    exact ⟨_, Steps.finite n l hn, hvalue.le_of_le hda (Nat.le_add_right _ _),
      hvalue.le_of_le hdb (Nat.le_add_left _ _)⟩
  · rw [unpack_pack_of_large .positive hn (by omega)] at hfinite
    cases hfinite

end Wireframe.Binary64
