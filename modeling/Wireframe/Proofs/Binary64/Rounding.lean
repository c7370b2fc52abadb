/-
Rounding.

A whole number of units that does not fit 53 bits is shifted to the right until it does, and what is
shifted out decides whether it is rounded up.

* `ShiftOf` — what is kept of the bits that are shifted out, an invariant of every single shift;
* `Rounds` — a number and the number that it is rounded to;
* `round_finite` — what is rounded is a finite number, and it is so rounded;
* `Rounds.le_two_pow`, `Rounds.near` — a number close to a power of two is not rounded beyond it;
* `Rounds.le_of_le`, `Rounds.ge_of_ge` — nothing is rounded past a number with 53 binary digits.

Design notes:
* numbers are counted in units of the least positive float, `2 ^ -1074`, so that none is a fraction.
-/
import Wireframe.Proofs.Binary64.Encoding

namespace Wireframe.Binary64

open Float.Model Float.Model.UnpackedFloat

/-- The bits that were shifted out of `n` by `k` places are what the extended mantissa says. -/
structure ShiftOf (n k : Nat) (em : ExtendedMantissa) (rest : Nat) : Prop where
  value : n = em.mantissa * 2 ^ k + rest
  bound : rest < 2 ^ k
  round : em.roundBit = true → 2 ^ k ≤ 2 * rest
  low : em.roundBit = false → 2 * rest < 2 ^ k
  tie : em.roundBit = true → em.stickyBit = false → 2 * rest = 2 ^ k
  exact : em.roundBit = false → em.stickyBit = false → rest = 0

theorem shiftOf_zero (n : Nat) : ShiftOf n 0 (.ofMantissaAndAccuracy n .exact) 0 := by
  constructor <;> simp [ExtendedMantissa.ofMantissaAndAccuracy]

theorem ShiftOf.shiftRightOne {n k rest : Nat} {em : ExtendedMantissa} (h : ShiftOf n k em rest) :
    ShiftOf n (k + 1) em.shiftRightOne (em.mantissa % 2 * 2 ^ k + rest) := by
  have hdiv := Nat.div_add_mod em.mantissa 2
  have hpow : 2 ^ (k + 1) = 2 * 2 ^ k := by rw [pow_succ, mul_comm]
  have hb := h.bound
  have hvalue : n = em.mantissa / 2 * 2 ^ (k + 1) + (em.mantissa % 2 * 2 ^ k + rest) := by
    rw [h.value]
    conv_lhs => rw [← hdiv]
    rw [hpow]
    ring
  -- the bit that is shifted out is the new rounding bit; what was below it makes the rest sticky
  rcases Nat.mod_two_eq_zero_or_one em.mantissa with hm | hm
  · refine ⟨hvalue, ?_, ?_, ?_, ?_, ?_⟩ <;> simp only [ExtendedMantissa.shiftRightOne, hm]
    · omega
    · simp
    · omega
    · simp
    · intro _ hs
      simp only [Bool.or_eq_false_iff] at hs
      simp [h.exact hs.1 hs.2]
  · refine ⟨hvalue, ?_, ?_, ?_, ?_, ?_⟩ <;> simp only [ExtendedMantissa.shiftRightOne, hm]
    · omega
    · omega
    · simp
    · intro _ hs
      simp only [Bool.or_eq_false_iff] at hs
      rw [h.exact hs.1 hs.2]
      omega
    · simp

theorem shiftOf_shiftRight (n k : Nat) :
    ∃ rest, ShiftOf n k (ExtendedMantissa.ofMantissaAndAccuracy n .exact >>> k) rest := by
  induction k with
  | zero => exact ⟨0, shiftOf_zero n⟩
  | succ k ih =>
    obtain ⟨rest, h⟩ := ih
    exact ⟨_, h.shiftRightOne⟩

theorem ShiftOf.roundedMantissa {n k rest : Nat} {em : ExtendedMantissa} (h : ShiftOf n k em rest) :
    2 * (em.roundedMantissa * 2 ^ k) ≤ 2 * n + 2 ^ k ∧
      2 * n ≤ 2 * (em.roundedMantissa * 2 ^ k) + 2 ^ k := by
  have hv := h.value
  have hb := h.bound
  -- The two bits below the mantissa decide: below a half, at a half, or above it.
  obtain ⟨m, round, sticky⟩ := em
  cases round with
  | false =>
    have hlow := h.low rfl
    have hr : (⟨m, false, sticky⟩ : ExtendedMantissa).roundedMantissa = m := by
      cases sticky <;> rfl
    simp only [hr] at *
    omega
  | true =>
    have hround := h.round rfl
    have hup : (m + 1) * 2 ^ k = m * 2 ^ k + 2 ^ k := by ring
    cases sticky with
    | false =>
      -- At a half the mantissa becomes even, which moves it by a half either way.
      have htie := h.tie rfl rfl
      have hr : (⟨m, true, false⟩ : ExtendedMantissa).roundedMantissa = m + m % 2 := rfl
      rcases Nat.mod_two_eq_zero_or_one m with hm | hm <;> simp only [hr, hm, add_zero] at * <;>
        omega
    | true =>
      have hr : (⟨m, true, true⟩ : ExtendedMantissa).roundedMantissa = m + 1 := rfl
      simp only [hr] at *
      omega

/-- `c` is `n` rounded to the nearest number with 53 binary digits. -/
def Rounds (n c : Nat) : Prop :=
  (2 ^ (n.log2 - 52)) ∣ c ∧ 2 * c ≤ 2 * n + 2 ^ (n.log2 - 52) ∧ 2 * n ≤ 2 * c + 2 ^ (n.log2 - 52)

theorem targetExponent_eq (m : Nat) (e : Int) :
    format.targetExponent (totalExponent m e) = max ((m.log2 : Int) + 1 + e - 53) (-1074) := rfl

/-- Shifting a mantissa that is in place changes nothing. -/
theorem shiftToTargetExponent_self {m : Nat} {e : Int}
    (h : format.targetExponent (totalExponent m e) ≤ e) :
    shiftToTargetExponent format m e .exact = (.ofMantissaAndAccuracy m .exact, e) := by
  have hz : (format.targetExponent (totalExponent m e) - e).toNat = 0 := by omega
  unfold shiftToTargetExponent shiftToExponent
  simp only [hz]
  show (_, e + 0) = (_, e)
  rw [add_zero]
  rfl

theorem log2_mul_two_pow {m : Nat} (hm : 0 < m) (k : Nat) : (m * 2 ^ k).log2 = m.log2 + k := by
  have hb := (Nat.log2_eq_iff hm.ne').mp rfl
  have hpos : m * 2 ^ k ≠ 0 := by positivity
  rw [Nat.log2_eq_iff hpos, pow_add, show m.log2 + k + 1 = m.log2 + 1 + k by omega, pow_add]
  exact ⟨Nat.mul_le_mul_right _ hb.1, Nat.mul_lt_mul_of_pos_right hb.2 (by positivity)⟩

/-- Finite in the range of exponents but for the greatest. -/
def InRange (m : Nat) (e : Int) : Prop :=
  m < 2 ^ 53 ∧ -1074 ≤ e ∧ (2 ^ 52 ≤ m ∨ e = -1074)

theorem roundedMantissa_shiftRight {m : Nat} (hm : 0 < m) :
    let r := (ExtendedMantissa.ofMantissaAndAccuracy m .exact >>> (m.log2 - 52)).roundedMantissa
    0 < r ∧ r ≤ 2 ^ 53 ∧ (52 ≤ m.log2 → 2 ^ 52 ≤ r) := by
  intro r
  obtain ⟨rest, hshift⟩ := shiftOf_shiftRight m (m.log2 - 52)
  have hround : 2 * (r * 2 ^ (m.log2 - 52)) ≤ 2 * m + 2 ^ (m.log2 - 52) ∧
      2 * m ≤ 2 * (r * 2 ^ (m.log2 - 52)) + 2 ^ (m.log2 - 52) := hshift.roundedMantissa
  have hlog := (Nat.log2_eq_iff hm.ne').mp rfl
  clear_value r
  -- With more than 52 digits some are shifted out, and rounding is off by half of what they stand
  -- for.
  by_cases h52 : 52 ≤ m.log2
  · obtain ⟨k, hk⟩ := Nat.exists_eq_add_of_le h52
    rw [hk, Nat.add_sub_cancel_left] at hround
    rw [hk, show 52 + k + 1 = 53 + k by omega, pow_add, pow_add] at hlog
    have hpos : 0 < 2 ^ k := by positivity
    have hlow : 2 ^ 52 * 2 ^ k < (r + 1) * 2 ^ k := by
      rw [add_mul]
      omega
    have hhigh : r * 2 ^ k < (2 ^ 53 + 1) * 2 ^ k := by
      rw [add_mul]
      omega
    have := Nat.lt_of_mul_lt_mul_right hlow
    have := Nat.lt_of_mul_lt_mul_right hhigh
    omega
  -- Otherwise nothing is shifted out, and the mantissa is kept.
  · rw [show m.log2 - 52 = 0 by omega, pow_zero] at hround
    have hlt : m < 2 ^ 52 := hlog.2.trans_le (Nat.pow_le_pow_right (by decide) (by omega))
    omega

theorem shiftToTargetExponent_rounded {r : Nat} {t : Int} (hr : 0 < r) (hr' : r ≤ 2 ^ 53)
    (ht : -1074 ≤ t) (hn : 2 ^ 52 ≤ r ∨ t = -1074) :
    ∃ em e', shiftToTargetExponent format r t .exact = (em, e') ∧ 0 < em.mantissa ∧
      InRange em.mantissa e' ∧
      em.mantissa * 2 ^ (e' + 1074).toNat = r * 2 ^ (t + 1074).toNat := by
  by_cases hlt : r < 2 ^ 53
  · have hlog : r.log2 < 53 := (Nat.log2_lt hr.ne').mpr hlt
    have hself : format.targetExponent (totalExponent r t) ≤ t := by
      rw [targetExponent_eq]
      omega
    exact ⟨_, _, shiftToTargetExponent_self hself, hr, ⟨hlt, ht, hn⟩, rfl⟩
  -- the carry fills a place of its own, and the last place is zero
  · obtain rfl : r = 2 ^ 53 := by omega
    have htarget : format.targetExponent (totalExponent (2 ^ 53) t) = t + 1 := by
      rw [targetExponent_eq, Nat.log2_two_pow]
      omega
    have hshift : shiftToTargetExponent format (2 ^ 53) t .exact =
        (ExtendedMantissa.ofMantissaAndAccuracy (2 ^ 53) .exact >>> 1, t + 1) := by
      unfold shiftToTargetExponent shiftToExponent
      simp only [htarget, show (t + 1 - t).toNat = 1 by omega]
      rfl
    refine ⟨_, _, hshift, ?_, ?_, ?_⟩
    · decide
    · exact ⟨by decide, by omega, Or.inl (by decide)⟩
    · show 2 ^ 53 / 2 * 2 ^ (t + 1 + 1074).toNat = _
      rw [show (t + 1 + 1074).toNat = (t + 1074).toNat + 1 by omega, pow_succ]
      omega

theorem roundWithAccuracy_exact (s : Sign) {m : Nat} {e : Int} (hm : 0 < m) (he : -1074 ≤ e)
    (ht : e ≤ format.targetExponent (totalExponent m e)) :
    ∃ m' e' h, roundWithAccuracy format s m e .exact = .finite s m' e' h ∧ InRange m' e' ∧
      Rounds (m * 2 ^ (e + 1074).toNat) (m' * 2 ^ (e' + 1074).toNat) := by
  rw [targetExponent_eq] at ht
  obtain ⟨rest, hshift⟩ := shiftOf_shiftRight m (m.log2 - 52)
  have herror := hshift.roundedMantissa
  obtain ⟨hr0, hr53, hr52⟩ := roundedMantissa_shiftRight hm
  have hfirst : shiftToTargetExponent format m e .exact =
      (ExtendedMantissa.ofMantissaAndAccuracy m .exact >>> (m.log2 - 52),
        e + (m.log2 - 52 : Nat)) := by
    have hk : (max ((m.log2 : Int) + 1 + e - 53) (-1074) - e).toNat = m.log2 - 52 := by omega
    unfold shiftToTargetExponent shiftToExponent
    simp only [targetExponent_eq, hk]
  set r := (ExtendedMantissa.ofMantissaAndAccuracy m .exact >>> (m.log2 - 52)).roundedMantissa
  -- a mantissa that was rounded up to the next power of two is shifted once more
  obtain ⟨em, e', hsecond, hpos, hrange, hvalue⟩ :=
    shiftToTargetExponent_rounded (t := e + (m.log2 - 52 : Nat)) hr0 hr53 (by omega) (by omega)
  refine ⟨em.mantissa, e', hpos, ?_, hrange, ?_⟩
  · unfold roundWithAccuracy
    simp only [hfirst]
    have hresult : ∀ p : ExtendedMantissa × Int, p = (em, e') →
        (if h : p.1.mantissa = 0 then UnpackedFloat.zero s
          else .finite s p.1.mantissa p.2 (Nat.pos_of_ne_zero h)) =
            .finite s em.mantissa e' hpos := by
      rintro _ rfl
      exact dif_neg hpos.ne'
    exact hresult _ hsecond
  · have hscale : (e + (m.log2 - 52 : Nat) + 1074).toNat = (m.log2 - 52) + (e + 1074).toNat := by
      omega
    have hu : (m * 2 ^ (e + 1074).toNat).log2 - 52 = (m.log2 - 52) + (e + 1074).toNat := by
      rw [log2_mul_two_pow hm]
      omega
    rw [hvalue, hscale]
    unfold Rounds
    rw [hu]
    refine ⟨Dvd.intro_left _ rfl, ?_, ?_⟩ <;> rw [pow_add]
    · nlinarith [Nat.mul_le_mul_right (2 ^ (e + 1074).toNat) herror.1]
    · nlinarith [Nat.mul_le_mul_right (2 ^ (e + 1074).toNat) herror.2]

theorem decreaseExponent_eq (m : Nat) (e t : Int) :
    decreaseExponent m e t = (m * 2 ^ (e - t).toNat, e - (e - t).toNat) := by
  simp only [decreaseExponent, Nat.shiftLeft_eq]

theorem round_finite (s : Sign) {m : Nat} {e : Int} (hm : 0 < m) (he : -1074 ≤ e) :
    ∃ m' e' h, round format s m e = .finite s m' e' h ∧ InRange m' e' ∧
      Rounds (m * 2 ^ (e + 1074).toNat) (m' * 2 ^ (e' + 1074).toNat) := by
  unfold UnpackedFloat.round
  simp only [decreaseExponent_eq, targetExponent_eq]
  generalize hk : (e - max ((m.log2 : Int) + 1 + e - 53) (-1074)).toNat = k
  have hlog := log2_mul_two_pow hm k
  obtain ⟨m', e', h, hround, hrange, hvalue⟩ := roundWithAccuracy_exact s
    (m := m * 2 ^ k) (e := e - k) (by positivity) (by omega)
    (by
      rw [targetExponent_eq, hlog]
      omega)
  refine ⟨m', e', h, hround, hrange, ?_⟩
  rwa [mul_assoc, ← pow_add, show k + (e - k + 1074).toNat = (e + 1074).toNat by omega] at hvalue

theorem Rounds.le_two_pow {n c j k : Nat} (h : Rounds n c) (hk : j = k + 54)
    (hn : n ≤ 2 ^ j + 2 ^ k) : c ≤ 2 ^ j := by
  subst hk
  obtain ⟨⟨r, rfl⟩, hup, -⟩ := h
  generalize hu : n.log2 - 52 = p at *
  have hlog : n.log2 ≤ k + 54 := by
    by_contra hlt
    have hge : 2 ^ (k + 55) ≤ n := by
      refine (Nat.pow_le_pow_right (by decide) (by omega)).trans (Nat.log2_self_le ?_)
      rintro rfl
      simp at hlt
    have h55 : 2 ^ (k + 55) = 2 ^ (k + 54) + 2 ^ (k + 54) := by
      rw [pow_succ]
      omega
    have hlt' : 2 ^ k < 2 ^ (k + 54) := Nat.pow_lt_pow_right (by decide) (by omega)
    omega
  -- the bound is a multiple of the unit of `n`, and `n` exceeds it by less than half a unit
  obtain ⟨i, hi⟩ := Nat.exists_eq_add_of_le (show p ≤ k + 54 by omega)
  rw [hi, pow_add]
  refine Nat.mul_le_mul_left _ ?_
  by_contra hlt
  have hr : 2 ^ p * (2 ^ i + 1) ≤ 2 ^ p * r := Nat.mul_le_mul_left _ (by omega)
  rw [mul_add, ← pow_add, ← hi, mul_one] at hr
  have hunit0 : 0 < 2 ^ p := by positivity
  by_cases hbig : n < 2 ^ (k + 54)
  · omega
  · have hpos : 0 < 2 ^ (k + 54) := by positivity
    have hp : p = k + 2 := by
      have : k + 54 ≤ n.log2 := (Nat.le_log2 (by omega)).mpr (by omega)
      omega
    have hunit : 2 ^ p = 4 * 2 ^ k := by
      rw [hp, pow_add]
      omega
    omega

/-- A rounded number below `2 ^ k` is off by at most half a unit of the numbers there. -/
theorem Rounds.near {n c j k : Nat} (h : Rounds n c) (hk : j = k + 54) (hn : n ≤ 2 ^ j) :
    c ≤ n + 2 ^ k := by
  subst hk
  by_cases hlt : n < 2 ^ (k + 54)
  · have hu : 2 ^ (n.log2 - 52) ≤ 2 ^ (k + 1) := by
      refine Nat.pow_le_pow_right (by decide) ?_
      by_cases h0 : n = 0
      · simp [h0]
      · have := (Nat.log2_lt h0).mpr hlt
        omega
    have hup := h.2.1
    rw [pow_succ] at hu
    omega
  · have hk := Nat.two_pow_pos k
    have := h.le_two_pow (k := k) rfl (by omega)
    omega

/-- A multiple of the unit is not passed by rounding a number below it. -/
theorem Rounds.ge_of_ge {n c a : Nat} (h : Rounds n c) (ha : 2 ^ (n.log2 - 52) ∣ a) (hle : n ≤ a) :
    c ≤ a := by
  obtain ⟨⟨r, rfl⟩, hup, -⟩ := h
  obtain ⟨r', rfl⟩ := ha
  have hu : 0 < 2 ^ (n.log2 - 52) := Nat.two_pow_pos _
  refine Nat.mul_le_mul_left _ ?_
  by_contra hlt
  have hnext : 2 ^ (n.log2 - 52) * (r' + 1) ≤ 2 ^ (n.log2 - 52) * r :=
    Nat.mul_le_mul_left _ (by omega)
  rw [mul_add, mul_one] at hnext
  omega

/-- What has 53 binary digits is not passed by rounding a number above it. -/
theorem Rounds.le_of_le {n c a : Nat} (h : Rounds n c) (ha : 2 ^ (a.log2 - 52) ∣ a) (hle : a ≤ n) :
    a ≤ c := by
  obtain ⟨⟨r, rfl⟩, -, hdown⟩ := h
  have hu : 0 < 2 ^ (n.log2 - 52) := Nat.two_pow_pos _
  -- a multiple of the unit of `n` between the two is not passed
  have hpass {g : Nat} (hg : 2 ^ (n.log2 - 52) ∣ g) (hgn : g ≤ n) : g ≤ 2 ^ (n.log2 - 52) * r := by
    obtain ⟨r', rfl⟩ := hg
    refine Nat.mul_le_mul_left _ ?_
    by_contra hlt
    have hnext : 2 ^ (n.log2 - 52) * (r + 1) ≤ 2 ^ (n.log2 - 52) * r' :=
      Nat.mul_le_mul_left _ (by omega)
    rw [mul_add, mul_one] at hnext
    omega
  rcases Nat.eq_zero_or_pos a with rfl | hpos
  · exact Nat.zero_le _
  · have hn : n ≠ 0 := by omega
    have hlog : a.log2 ≤ n.log2 := (Nat.le_log2 hn).mpr ((Nat.log2_self_le hpos.ne').trans hle)
    rcases hlog.lt_or_eq with hlt | heq
    · have hbelow : a < 2 ^ n.log2 := (Nat.log2_lt hpos.ne').mp hlt
      have hpower := hpass (Nat.pow_dvd_pow 2 (Nat.sub_le _ 52)) (Nat.log2_self_le hn)
      omega
    · rw [heq] at ha
      exact hpass ha hle

end Wireframe.Binary64
