/-
Numbers as they are written.

* `Written`, `Written.value` — digits, a point and digits, and the number that they denote;
* `Written.IsPlain` — numbers that are written with digits on both sides of the point, with a minus
  sign at most in front of a zero;
* `Written.split`, `Written.isPlain_split` — the digits of a whole number with a point between them;
* `roundQuotient_bounds`, `Binary.abs_inPlaces_sub_le` — a magnitude with a fixed number of places;
* `exists_layout` — a decimal that is written out.
-/
import Wireframe.Proofs.Decimal.Shortest

namespace Wireframe.Decimal

open Binary64

/-! ### Digits and a point -/

/-- Digits before and behind a point. -/
structure Written where
  negative : Bool
  whole : List Char
  places : List Char

namespace Written

/-- The number as it is written. -/
def text (w : Written) : List Char := signText w.negative ++ w.whole ++ '.' :: w.places

/-- The number without its sign. -/
def magnitude (w : Written) : ℚ :=
  Nat.ofDigitChars 10 (w.whole ++ w.places) 0 / 10 ^ w.places.length

/-- The number that is written. -/
def value (w : Written) : ℚ := if w.negative then -w.magnitude else w.magnitude

/-- There are digits on both sides of the point, and only a zero has a minus sign. -/
structure IsPlain (w : Written) : Prop where
  whole : w.whole ≠ []
  places : w.places ≠ []
  digits : ∀ c ∈ w.whole ++ w.places, c.isDigit = true
  negative : w.negative = true → w.magnitude = 0

theorem IsPlain.value_eq {w : Written} (h : w.IsPlain) : w.value = w.magnitude := by
  unfold value
  split
  · rename_i hnegative
    rw [h.negative hnegative, neg_zero]
  · rfl

/-- The digits of a whole number, zeros in front of them, with a point in front of the last ones. -/
def split (negative : Bool) (n places : Nat) : Written :=
  let padded := List.replicate (places + 1 - (digitsOf n).length) '0' ++ digitsOf n
  ⟨negative, padded.take (padded.length - places), padded.drop (padded.length - places)⟩

section Split

variable (negative : Bool) (n places : Nat)

theorem text_split :
    (split negative n places).text = signText negative ++ withPoint (digitsOf n) places :=
  List.append_assoc _ _ _

theorem whole_append_places_split : (split negative n places).whole ++ (split negative n places).places =
    List.replicate (places + 1 - (digitsOf n).length) '0' ++ digitsOf n :=
  List.take_append_drop _ _

theorem length_places_split : (split negative n places).places.length = places := by
  have hlength : (digitsOf n).length ≤ places + 1 ∨ places + 1 ≤ (digitsOf n).length := le_total _ _
  rw [split, List.length_drop, List.length_append, List.length_replicate]
  omega

theorem magnitude_split : (split negative n places).magnitude = n / 10 ^ places := by
  have hdigits : Nat.ofDigitChars 10 (digitsOf n) 0 = n :=
    Nat.ofDigitChars_toDigits (by decide) (by decide)
  rw [magnitude, whole_append_places_split, length_places_split, Nat.ofDigitChars_append,
    Nat.ofDigitChars_replicate_zero, Nat.mul_zero, hdigits]

theorem isPlain_split (hplaces : 0 < places) (hnegative : negative = true → n = 0) :
    (split negative n places).IsPlain where
  whole hnil := by
    rw [split] at hnil
    have hlength := congrArg List.length hnil
    simp only [List.length_take, List.length_append, List.length_replicate, List.length_nil]
      at hlength
    omega
  places hnil := by
    have hlength := length_places_split negative n places
    rw [hnil] at hlength
    exact hplaces.ne hlength
  digits c hc := by
    rw [whole_append_places_split] at hc
    rcases List.mem_append.mp hc with hc | hc
    · rw [List.eq_of_mem_replicate hc]
      decide
    · exact Nat.isDigit_of_mem_toDigits (by decide) (by decide) hc
  negative h := by
    rw [magnitude_split, hnegative h, Nat.cast_zero, zero_div]

end Split

/-- A whole number, with a zero behind the point. -/
def ofNat (n : Nat) : Written := ⟨false, digitsOf n, ['0']⟩

theorem isPlain_ofNat (n : Nat) : (ofNat n).IsPlain where
  whole := Nat.toDigits_ne_nil
  places := List.cons_ne_nil _ _
  digits c hc := by
    rcases List.mem_append.mp hc with hc | hc
    · exact Nat.isDigit_of_mem_toDigits (by decide) (by decide) hc
    · rw [List.mem_singleton.mp hc]
      decide
  negative h := by cases h

theorem magnitude_ofNat (n : Nat) : (ofNat n).magnitude = n := by
  have hdigits : Nat.ofDigitChars 10 (digitsOf n) 0 = n :=
    Nat.ofDigitChars_toDigits (by decide) (by decide)
  have happend : Nat.ofDigitChars 10 (digitsOf n ++ ['0']) 0 = 10 * n := by
    rw [Nat.ofDigitChars_append, hdigits]
    rfl
  rw [magnitude, ofNat, happend, Nat.cast_mul, List.length_singleton, pow_one]
  exact mul_div_cancel_left₀ _ (by norm_num)

end Written

/-! ### A fixed number of places -/

/-- A quotient that is rounded is off by half at most. -/
theorem roundQuotient_bounds (tie : Tie) (num : Nat) {den : Nat} (hden : 0 < den) :
    2 * (roundQuotient tie num den * den) ≤ 2 * num + den ∧
      2 * num ≤ 2 * (roundQuotient tie num den * den) + den := by
  have hdiv := Nat.div_add_mod num den
  have hmod := Nat.mod_lt num hden
  rw [mul_comm] at hdiv
  have hnext : (num / den + 1) * den = num / den * den + den := by ring
  unfold roundQuotient splitHalf
  -- The remainder is below, above or at a half, and at a half the rule for ties decides.
  split
  · rename_i n _ h
    obtain ⟨rfl, hlt⟩ := Prod.mk.inj h
    rw [Nat.compare_eq_lt] at hlt
    omega
  · rename_i n _ h
    obtain ⟨rfl, hgt⟩ := Prod.mk.inj h
    rw [Nat.compare_eq_gt] at hgt
    rw [hnext]
    omega
  · rename_i n h
    obtain ⟨rfl, heq⟩ := Prod.mk.inj h
    rw [Nat.compare_eq_eq] at heq
    rw [hnext]
    omega
  · rename_i n h
    obtain ⟨rfl, heq⟩ := Prod.mk.inj h
    rw [Nat.compare_eq_eq] at heq
    split
    · omega
    · rw [hnext]
      omega

theorem abs_roundQuotient_sub_le (tie : Tie) (num : Nat) {den : Nat} (hden : 0 < den) :
    |(roundQuotient tie num den : ℚ) - num / den| ≤ 1 / 2 := by
  have hden' : (0 : ℚ) < den := Nat.cast_pos.mpr hden
  obtain ⟨hhigh, hlow⟩ := roundQuotient_bounds tie num hden
  have hhigh' : 2 * ((roundQuotient tie num den : ℚ) * den) ≤ 2 * num + den := by
    exact_mod_cast hhigh
  have hlow' : 2 * (num : ℚ) ≤ 2 * (roundQuotient tie num den * den) + den := by
    exact_mod_cast hlow
  rw [abs_sub_le_iff, sub_le_iff_le_add, sub_le_iff_le_add, ← sub_le_iff_le_add',
    le_div_iff₀ hden', div_le_iff₀ hden']
  constructor <;> linarith

namespace Binary

variable (b : Binary) (places : Nat)

theorem abs_inPlaces_sub_mul_le : |(b.inPlaces places : ℚ) - b.value * 10 ^ places| ≤ 1 / 2 := by
  have hquotient : (((b.quarters (4 * b.mantissa)).1 * power 10 places : ℕ) : ℚ) /
      (b.quarters (4 * b.mantissa)).2 = b.value * 10 ^ places := by
    have hpower : ((power 10 places : ℕ) : ℚ) = 10 ^ places :=
      (Nat.cast_pow 10 places).trans (by rw [Nat.cast_ofNat])
    rw [Nat.cast_mul, mul_div_right_comm, quarters_eq, value, hpower]
    push_cast
    ring
  rw [← hquotient]
  exact abs_roundQuotient_sub_le .even _ (b.quarters_pos _)

/-- A magnitude with a fixed number of places is off by half of the last place at most. -/
theorem abs_inPlaces_sub_le :
    |(b.inPlaces places : ℚ) / 10 ^ places - b.value| ≤ 1 / 2 / 10 ^ places := by
  have hpower : (0 : ℚ) < 10 ^ places := by positivity
  have hscale : (b.inPlaces places : ℚ) / 10 ^ places - b.value =
      (b.inPlaces places - b.value * 10 ^ places) / 10 ^ places := by
    field_simp
  rw [hscale, abs_div, abs_of_pos hpower]
  exact div_le_div_of_nonneg_right (b.abs_inPlaces_sub_mul_le places) hpower.le

/-- Rounding does not lead beyond one. -/
theorem inPlaces_le (h : b.value ≤ 1) : b.inPlaces places ≤ 10 ^ places := by
  have hround := (abs_le.mp (b.abs_inPlaces_sub_mul_le places)).2
  have hscale : b.value * 10 ^ places ≤ 10 ^ places :=
    mul_le_of_le_one_left (by positivity) h
  have hlt : (b.inPlaces places : ℚ) < ((10 ^ places + 1 : ℕ) : ℚ) := by
    push_cast
    linarith
  exact Nat.lt_succ_iff.mp (Nat.cast_lt.mp hlt)

theorem inPlaces_of_value_eq_zero (h : b.value = 0) : b.inPlaces places = 0 := by
  have hround := (abs_le.mp (b.abs_inPlaces_sub_mul_le places)).2
  rw [h, zero_mul, sub_zero] at hround
  have hlt : (b.inPlaces places : ℚ) < ((1 : ℕ) : ℚ) := by
    push_cast
    linarith
  exact Nat.lt_one_iff.mp (Nat.cast_lt.mp hlt)

end Binary

/-! ### Texts of floats -/

/-- A float between zero and one with a fixed number of places. -/
theorem exists_placesText {x : Float} {places : Nat} (hplaces : 0 < places) (hx : x.isFinite = true)
    (h0 : 0 ≤ value x) (h1 : value x ≤ 1) :
    ∃ w : Written, (placesText places x).toList = w.text ∧ w.IsPlain ∧ w.places.length = places ∧
      0 ≤ w.value ∧ w.value ≤ 1 ∧ |w.value - value x| ≤ 1 / 2 / 10 ^ places := by
  obtain ⟨negative, b, hread⟩ := exists_ofFloat hx
  have hvalue := (reads_of_ofFloat hread).value
  -- only a zero has a sign here
  have hsign : negative = true → b.value = 0 := by
    rintro rfl
    have hnonneg : 0 ≤ b.value := mul_nonneg b.mantissa.cast_nonneg (zpow_nonneg two_pos.le _)
    rw [if_pos rfl] at hvalue
    linarith
  have hb : b.value = value x := by
    rw [hvalue]
    split
    · rename_i hnegative
      rw [hsign hnegative, neg_zero]
    · rfl
  have hplain := Written.isPlain_split negative (b.inPlaces places) places hplaces
    fun h => b.inPlaces_of_value_eq_zero places (hsign h)
  refine ⟨.split negative (b.inPlaces places) places, ?_, hplain,
    Written.length_places_split _ _ _, ?_⟩
  · rw [placesText, hread, Written.text_split]
    exact String.toList_ofList
  · rw [hplain.value_eq, Written.magnitude_split]
    refine ⟨by positivity, ?_, hb ▸ b.abs_inPlaces_sub_le places⟩
    have hle : (b.inPlaces places : ℚ) ≤ 10 ^ places := by
      exact_mod_cast b.inPlaces_le places (hb.trans_le h1)
    exact (div_le_one (by positivity)).mpr hle

theorem point_not_mem_digitsOf (n : Nat) : '.' ∉ digitsOf n := by
  intro hmem
  have hdigit := Nat.isDigit_of_mem_toDigits (by decide) (by decide) hmem
  exact absurd hdigit (by decide)

/-- A decimal that is written out, with a zero behind the point if there is none. -/
theorem exists_plain (d : Scaled) :
    ∃ w : Written, w.IsPlain ∧ w.value = d.value ∧
      w.text = d.plain false ++ if (d.plain false).contains '.' then [] else ['.', '0'] := by
  unfold Scaled.plain
  by_cases h : 0 ≤ d.exponent
  -- Without a fraction the digits have no point, so that one is added with a zero.
  · have hpoint : ¬ (digitsOf (d.digits * power 10 d.exponent.toNat)).contains '.' = true := by
      rw [List.contains_iff_mem]
      exact point_not_mem_digitsOf _
    have hplain := Written.isPlain_ofNat (d.digits * power 10 d.exponent.toNat)
    refine ⟨_, hplain, ?_, ?_⟩
    · have hpower : ((power 10 d.exponent.toNat : ℕ) : ℚ) = 10 ^ d.exponent := by
        have hcast := cast_enlarge 10 d.exponent
        rwa [Int.toNat_of_nonneg h, Nat.cast_ofNat] at hcast
      rw [hplain.value_eq, Written.magnitude_ofNat, Nat.cast_mul, hpower, Scaled.value]
    · rw [if_pos h, if_neg Bool.false_ne_true, List.append_nil, if_neg hpoint]
      rfl
  -- With a fraction there is a point already, and the text is left as it is.
  · have hpoint : (withPoint (digitsOf d.digits) (-d.exponent).toNat).contains '.' = true := by
      rw [List.contains_iff_mem]
      exact List.mem_append_right _ List.mem_cons_self
    have hplain := Written.isPlain_split false d.digits (-d.exponent).toNat (by omega)
      fun hnegative => absurd hnegative Bool.false_ne_true
    refine ⟨_, hplain, ?_, ?_⟩
    · have hpower : (10 : ℚ) ^ d.exponent = (10 ^ (-d.exponent).toNat)⁻¹ := by
        rw [← zpow_natCast, ← zpow_neg]
        congr 1
        omega
      rw [hplain.value_eq, Written.magnitude_split, Scaled.value, hpower, div_eq_mul_inv]
    · rw [if_neg h, if_pos hpoint, List.append_nil, Written.text_split]
      rfl

end Wireframe.Decimal
