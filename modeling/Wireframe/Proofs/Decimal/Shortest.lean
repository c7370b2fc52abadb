/-
The shortest decimal of a float denotes the float.

The parts of a float and decimals stand for rational numbers, and comparing them as the library does,
by products of naturals, is comparing these numbers.  So a decimal that stands for a float lies
between the midpoints to the next floats, and is rounded to the float.

* `Binary.value`, `Scaled.value` — what the parts of a float and decimals stand for;
* `Reads`, `reads_of_ofFloat` — the parts of a float;
* `compareTo_eq`, `Binary.standsFor_iff` — comparing decimals;
* `Binary.standsFor_shortest` — the shortest decimal of a float stands for it;
* `roundsTo_shortest` — and is rounded to it.
-/
import Wireframe.Decimal.Notation
import Wireframe.Proofs.Binary64.Value

namespace Wireframe.Decimal

open Binary64 Float.Model

/-! ### Values -/

/-- The number that a magnitude stands for. -/
def Binary.value (b : Binary) : ℚ := b.mantissa * 2 ^ b.exponent

/-- The number that a decimal stands for. -/
def Scaled.value (d : Scaled) : ℚ := d.digits * 10 ^ d.exponent

theorem enlarge_pos {base : Nat} (h : 0 < base) (e : Int) : 0 < enlarge base e := Nat.pow_pos h

theorem cast_enlarge (base : Nat) (e : Int) :
    ((enlarge base e : ℕ) : ℚ) = (base : ℚ) ^ (e.toNat : Int) := by
  rw [zpow_natCast]
  exact Nat.cast_pow base _

theorem zpow_eq_enlarge {base : Nat} (h : 0 < base) (e : Int) :
    (base : ℚ) ^ e = enlarge base e / enlarge base (-e) := by
  rw [cast_enlarge, cast_enlarge, ← zpow_sub₀ (Nat.cast_ne_zero.mpr h.ne')]
  congr 1
  omega

theorem Scaled.value_eq (d : Scaled) :
    d.value = d.digits * enlarge 10 d.exponent / enlarge 10 (-d.exponent) := by
  rw [Scaled.value, mul_div_assoc, ← zpow_eq_enlarge (by decide)]
  rfl

/-- So many quarters of the last place. -/
theorem Binary.quarters_eq (b : Binary) (n : Nat) :
    ((b.quarters n).1 : ℚ) / (b.quarters n).2 = n / 4 * 2 ^ b.exponent := by
  have hpower := zpow_eq_enlarge two_pos b.exponent
  rw [Nat.cast_ofNat] at hpower
  rw [Binary.quarters, hpower, Nat.cast_mul, Nat.cast_mul, Nat.cast_ofNat]
  field_simp

theorem Binary.quarters_pos (b : Binary) (n : Nat) : 0 < (b.quarters n).2 :=
  Nat.mul_pos (by decide) (enlarge_pos (by decide) _)

/-- To compare products is to compare quotients. -/
theorem Scaled.compareTo_eq (d : Scaled) {num den : Nat} (hden : 0 < den) :
    d.compareTo num den = compare d.value (num / den) := by
  have hscale : (0 : ℚ) < enlarge 10 (-d.exponent) := Nat.cast_pos.mpr (enlarge_pos (by decide) _)
  have hden' : (0 : ℚ) < den := Nat.cast_pos.mpr hden
  have hlt : d.digits * enlarge 10 d.exponent * den < num * enlarge 10 (-d.exponent) ↔
      d.value < num / den := by
    rw [d.value_eq, div_lt_div_iff₀ hscale hden']
    exact_mod_cast Iff.rfl
  have hgt : num * enlarge 10 (-d.exponent) < d.digits * enlarge 10 d.exponent * den ↔
      num / den < d.value := by
    rw [d.value_eq, div_lt_div_iff₀ hden' hscale]
    exact_mod_cast Iff.rfl
  rw [Scaled.compareTo]
  rcases lt_trichotomy d.value (num / den) with h | h | h
  · rw [compare_lt_iff_lt.mpr h, compare_lt_iff_lt.mpr (hlt.mpr h)]
  · rw [compare_eq_iff_eq.mpr h, compare_eq_iff_eq]
    have h1 := hlt.not.mpr h.not_lt
    have h2 := hgt.not.mpr h.not_gt
    omega
  · rw [compare_gt_iff_gt.mpr h, compare_gt_iff_gt.mpr (hgt.mpr h)]

/-! ### Decimals that stand for a magnitude -/

/-- What makes a magnitude that of a float: fewer than 53 binary digits only for the least exponent,
and the float below half as far away only below a power of two. -/
structure Binary.IsFloat (b : Binary) : Prop where
  lt : b.mantissa < 2 ^ 53
  least : -1074 ≤ b.exponent
  most : b.exponent ≤ 971
  full : 2 ^ 52 ≤ b.mantissa ∨ b.exponent = -1074
  narrow : b.narrowBelow = decide (b.mantissa = 2 ^ 52 ∧ -1074 < b.exponent)

namespace Binary

variable {b : Binary} {d : Scaled} {tie : Tie}

theorem high_eq (b : Binary) :
    (((4 * b.mantissa + 2 : ℕ) : ℚ) / 4 * 2 ^ b.exponent) =
      b.mantissa * 2 ^ b.exponent + 1 / 2 * 2 ^ b.exponent := by
  push_cast
  ring

theorem IsFloat.low_eq (h : b.IsFloat) (hpos : 0 < b.mantissa) :
    (((4 * b.mantissa - if b.narrowBelow then 1 else 2 : ℕ) : ℚ) / 4 * 2 ^ b.exponent) =
      b.mantissa * 2 ^ b.exponent - halfBelow b.mantissa b.exponent * 2 ^ b.exponent := by
  rw [h.narrow, halfBelow]
  by_cases hnarrow : b.mantissa = 2 ^ 52 ∧ -1074 < b.exponent
  · rw [if_pos (decide_eq_true hnarrow), if_pos hnarrow, Nat.cast_sub (by omega)]
    push_cast
    ring
  · rw [if_neg (by simpa using hnarrow), if_neg hnarrow, Nat.cast_sub (by omega)]
    push_cast
    ring

theorem above_iff {o : Ordering} {q a : ℚ} (ends : Bool) : o = compare q a →
    ((match o with | .gt => true | .eq => ends | .lt => false) = true ↔
      a ≤ q ∧ (q = a → ends = true)) := by
  rintro rfl
  rcases lt_trichotomy q a with h | h | h
  · rw [compare_lt_iff_lt.mpr h]
    exact iff_of_false Bool.false_ne_true fun hle => hle.1.not_gt h
  · rw [compare_eq_iff_eq.mpr h]
    exact ⟨fun hends => ⟨h.ge, fun _ => hends⟩, fun hle => hle.2 h⟩
  · rw [compare_gt_iff_gt.mpr h]
    exact iff_of_true rfl ⟨h.le, fun heq => absurd heq h.ne'⟩

theorem below_iff {o : Ordering} {q a : ℚ} (ends : Bool) : o = compare q a →
    ((match o with | .lt => true | .eq => ends | .gt => false) = true ↔
      q ≤ a ∧ (q = a → ends = true)) := by
  rintro rfl
  rcases lt_trichotomy q a with h | h | h
  · rw [compare_lt_iff_lt.mpr h]
    exact iff_of_true rfl ⟨h.le, fun heq => absurd heq h.ne⟩
  · rw [compare_eq_iff_eq.mpr h]
    exact ⟨fun hends => ⟨h.le, fun _ => hends⟩, fun hle => hle.2 h⟩
  · rw [compare_gt_iff_gt.mpr h]
    exact iff_of_false Bool.false_ne_true fun hle => hle.1.not_gt h

/-- A decimal stands for a float if it lies between the midpoints to the next floats. -/
theorem standsFor_iff (h : b.IsFloat) (hpos : 0 < b.mantissa) :
    b.standsFor d = true ↔ Between b.mantissa b.exponent d.value := by
  have hcompare (n : Nat) : d.compareTo (b.quarters n).1 (b.quarters n).2 =
      compare d.value (n / 4 * 2 ^ b.exponent) := by
    rw [d.compareTo_eq (b.quarters_pos n), quarters_eq]
  have hlow := above_iff (b.mantissa % 2 == 0) ((hcompare _).trans (by rw [h.low_eq hpos]))
  have hhigh := below_iff (b.mantissa % 2 == 0) ((hcompare _).trans (by rw [high_eq]))
  rw [beq_iff_eq] at hlow hhigh
  rw [standsFor, Bool.and_eq_true]
  refine (and_congr hlow hhigh).trans ⟨?_, ?_⟩
  · rintro ⟨⟨hle, hl⟩, hge, hh⟩
    exact ⟨hle, hge, fun hends => hends.elim hl hh⟩
  · rintro ⟨hle, hge, hends⟩
    exact ⟨⟨hle, hends ∘ .inl⟩, hge, hends ∘ .inr⟩

theorem roundQuotient_eq (tie : Tie) (num den : Nat) :
    roundQuotient tie num den = num / den ∨ roundQuotient tie num den = num / den + 1 := by
  unfold roundQuotient splitHalf
  split <;> simp_all
  omega

theorem standsFor_of_onGrid? {e : Int} (h : b.onGrid? tie e = some d) : b.standsFor d = true := by
  unfold onGrid? at h
  extract_lets value num den below above at h
  have hround : (⟨roundQuotient tie num den, e⟩ : Scaled) = below ∨
      (⟨roundQuotient tie num den, e⟩ : Scaled) = above :=
    (roundQuotient_eq tie num den).imp (congrArg (Scaled.mk · e)) (congrArg (Scaled.mk · e))
  split at h
  · rename_i hbelow habove
    obtain rfl := Option.some_inj.mp h
    rcases hround with hd | hd
    · rwa [hd]
    · rwa [hd]
  · rename_i hbelow habove
    obtain rfl := Option.some_inj.mp h
    exact hbelow
  · rename_i hbelow habove
    obtain rfl := Option.some_inj.mp h
    exact habove
  · cases h

theorem value_exact (b : Binary) : b.exact.value = b.value := by
  rw [exact, Scaled.value, value, Nat.cast_mul, Nat.cast_mul, cast_enlarge, cast_enlarge]
  push_cast
  rcases le_total 0 b.exponent with h | h
  · rw [Int.toNat_of_nonneg h, Int.toNat_of_nonpos (by omega), min_eq_right h]
    simp
  · rw [Int.toNat_of_nonpos h, Int.toNat_of_nonneg (by omega), min_eq_left h,
      show (10 : ℚ) = 5 * 2 by norm_num, mul_zpow, zpow_neg, Nat.cast_zero, zpow_zero]
    field_simp

theorem value_strip (d : Scaled) (fuel : Nat) : (d.strip fuel).value = d.value := by
  induction fuel generalizing d with
  | zero => rfl
  | succ fuel ih =>
    rw [Scaled.strip]
    split
    · rename_i h
      rw [ih, Scaled.value, Scaled.value, zpow_add_one₀ (by norm_num)]
      have hdigits : (d.digits : ℚ) = (d.digits / 10 : ℕ) * 10 := by
        have : d.digits = d.digits / 10 * 10 := by omega
        exact_mod_cast this
      rw [hdigits]
      ring
    · rfl

/-- A float lies between the midpoints around it. -/
theorem between_value (b : Binary) : Between b.mantissa b.exponent b.value := by
  have hunit : (0 : ℚ) < 2 ^ b.exponent := zpow_pos two_pos _
  have hbelow := mul_pos (halfBelow_pos b.mantissa b.exponent) hunit
  unfold value
  exact ⟨by linarith, by linarith, fun h => by rcases h with h | h <;> linarith⟩

/-- The shortest decimal of a float stands for it. -/
theorem between_shortest (h : b.IsFloat) (hpos : 0 < b.mantissa) :
    Between b.mantissa b.exponent (b.shortest tie).value := by
  rw [shortest, if_neg hpos.ne']
  extract_lets found d
  rw [value_strip]
  cases hfound : found with
  | none =>
    have hd : d = b.exact := congrArg (Option.getD · b.exact) hfound
    rw [hd, value_exact]
    exact b.between_value
  | some best =>
    have hd : d = best := congrArg (Option.getD · b.exact) hfound
    obtain ⟨extra, -, hextra⟩ := List.exists_of_findSome?_eq_some hfound
    rw [hd]
    exact (standsFor_iff h hpos).mp (standsFor_of_onGrid? hextra)

end Binary

/-! ### The parts of a float -/

theorem isFloat_ofFields {e m : Nat} (he : e < 2047) (hm : m < 2 ^ 52) :
    (Binary.ofFields e m).IsFloat := by
  unfold Binary.ofFields
  by_cases h : e = 0
  · rw [if_pos h]
    exact {
      lt := show m < 2 ^ 53 by omega
      least := le_refl (-1074)
      most := show (-1074 : Int) ≤ 971 by decide
      full := .inr rfl
      narrow := (decide_eq_false fun hnarrow => lt_irrefl _ hnarrow.2).symm }
  · rw [if_neg h]
    exact {
      lt := show 2 ^ 52 + m < 2 ^ 53 by omega
      least := show -1074 ≤ (e : Int) - 1075 by omega
      most := show (e : Int) - 1075 ≤ 971 by omega
      full := .inl (Nat.le_add_right (2 ^ 52) m)
      narrow := decide_eq_decide.mpr
        (show m = 0 ∧ 1 < e ↔ 2 ^ 52 + m = 2 ^ 52 ∧ -1074 < (e : Int) - 1075 by omega) }

theorem valueOf_ofFields {e m : Nat} (he : e ≠ 2047) :
    valueOf (Binary64.ofFields .positive e m) = (Binary.ofFields e m).value := by
  unfold Binary64.ofFields Binary.ofFields Binary.value
  rw [if_neg he]
  by_cases h : e = 0
  · rw [if_pos h, if_pos h]
    by_cases hm : m = 0
    · rw [dif_pos hm, hm]
      simp [valueOf]
    · rw [dif_neg hm]
      rfl
  · rw [if_neg h, if_neg h]
    rfl

theorem mantissa_ofFields (e m : Nat) : (Binary.ofFields e m).mantissa % 2 = m % 2 := by
  unfold Binary.ofFields
  split
  · rfl
  · show (2 ^ 52 + m) % 2 = m % 2
    omega

/-- The parts that a float is read to have. -/
structure Reads (x : Float) (negative : Bool) (b : Binary) : Prop where
  isFinite : x.isFinite = true
  isFloat : b.IsFloat
  value : value x = if negative then -b.value else b.value
  last : x.toBits.toNat % 2 = b.mantissa % 2

theorem ofFloat_eq (x : Float) :
    Reading.ofFloat x =
      if x.toBits.toNat / 2 ^ 52 % 2 ^ 11 = 2047 then
        if x.toBits.toNat % 2 ^ 52 = 0 then .infinite (decide (2 ^ 63 ≤ x.toBits.toNat))
        else .notNumber
      else .finite (decide (2 ^ 63 ≤ x.toBits.toNat))
        (.ofFields (x.toBits.toNat / 2 ^ 52 % 2 ^ 11) (x.toBits.toNat % 2 ^ 52)) := rfl

theorem reads_of_ofFloat {x : Float} {negative : Bool} {b : Binary}
    (h : Reading.ofFloat x = .finite negative b) : Reads x negative b := by
  have hunpack := unpack_toModel x
  have hfinite := isFinite_iff (x := x)
  have hm : x.toBits.toNat % 2 ^ 52 < 2 ^ 52 := Nat.mod_lt _ (by decide)
  have hlast : x.toBits.toNat % 2 ^ 52 % 2 = x.toBits.toNat % 2 := by omega
  have he : x.toBits.toNat / 2 ^ 52 % 2 ^ 11 < 2 ^ 11 := Nat.mod_lt _ (by decide)
  rw [ofFloat_eq] at h
  generalize x.toBits.toNat / 2 ^ 52 % 2 ^ 11 = e at *
  generalize x.toBits.toNat % 2 ^ 52 = m at *
  by_cases hmost : e = 2047
  · rw [if_pos hmost] at h
    split at h <;> cases h
  · rw [if_neg hmost] at h
    obtain ⟨rfl, rfl⟩ := Reading.finite.inj h
    refine ⟨hfinite.mpr hmost, isFloat_ofFields (by omega) hm, ?_, ?_⟩
    · rw [Binary64.value, hunpack, signOf]
      by_cases hsign : x.toBits.toNat < 2 ^ 63
      · rw [if_pos hsign, valueOf_ofFields hmost, if_neg (by simpa using hsign)]
      · rw [if_neg hsign, ofFields_negative, valueOf_neg, valueOf_ofFields hmost,
          if_pos (by simpa using hsign)]
    · rw [mantissa_ofFields, hlast]

/-- Every finite float has parts. -/
theorem exists_ofFloat {x : Float} (h : x.isFinite = true) :
    ∃ negative b, Reading.ofFloat x = .finite negative b := by
  rw [ofFloat_eq, if_neg (isFinite_iff.mp h)]
  exact ⟨_, _, rfl⟩

/-- The shortest decimal of a positive float is rounded to the float. -/
theorem Reads.roundsTo_shortest {x : Float} {b : Binary} (h : Reads x false b)
    (hpos : 0 < b.mantissa) (tie : Tie) : RoundsTo (b.shortest tie).value x :=
  roundsTo_of_between h.isFinite h.value hpos h.isFloat.lt h.isFloat.most h.isFloat.full h.last
    (Binary.between_shortest h.isFloat hpos)

end Wireframe.Decimal
