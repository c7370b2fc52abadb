/-
Floats of 64 bits: their fields and the numbers these stand for.

A float is a sign, eleven bits of exponent and 52 bits of mantissa.  Unpacking a float gives a
number in canonical form, with as many bits of mantissa as its exponent leaves room for, and packing
a number in canonical form and unpacking it again gives the number back.

* `ofFields`, `unpack_eq` — what the fields of a float stand for;
* `Canonical`, `canonical_unpack` — the canonical form, and that every float has it;
* `unpack_pack_of_canonical` — packing loses nothing of a canonical number;
* `nonneg_unpack_pack`, `isNaN_unpack_pack` — packing turns nothing into a negative number or into
  none.

Design notes:
* fields are natural numbers, quotients and remainders of the whole word, so that arithmetic decides
  what a statement about bits would have to be unfolded for.
-/
import Mathlib

namespace Wireframe.Binary64

open Float.Model Float.Model.UnpackedFloat

/-- The format of all floats here. -/
abbrev format : Format := Format.binary64

/-- The float with given sign and fields. -/
def ofFields (sign : Sign) (exponent mantissa : Nat) : UnpackedFloat :=
  if exponent = 2047 then if mantissa = 0 then .infinity sign else .notANumber
  else if exponent = 0 then
    if h : mantissa = 0 then .zero sign else .finite sign mantissa (-1074) (Nat.pos_of_ne_zero h)
  else .finite sign (2 ^ 52 + mantissa) ((exponent : Int) - 1075) (by positivity)

theorem finite_congr {s : Sign} {m m' : Nat} {e e' : Int} (hm : m = m') (he : e = e') {h h'} :
    UnpackedFloat.finite s m e h = .finite s m' e' h' := by
  subst hm he
  rfl

theorem toNat_unpackMantissa (b : BitVec 64) :
    (@unpackMantissa format b).toNat = b.toNat % 2 ^ 52 := by
  simp [unpackMantissa, BitVec.extractLsb]

theorem toNat_unpackExponent (b : BitVec 64) :
    (@unpackExponent format b).toNat = b.toNat / 2 ^ 52 % 2 ^ 11 := by
  simp [unpackExponent, BitVec.extractLsb, Nat.shiftRight_eq_div_pow]

theorem toNat_unpackSign (b : BitVec 64) :
    (@unpackSign format b).toNat = b.toNat / 2 ^ 63 := by
  have := b.isLt
  simp [unpackSign, BitVec.extractLsb, Nat.shiftRight_eq_div_pow]
  omega

/-- The sign of a word. -/
def signOf (n : Nat) : Sign := if n < 2 ^ 63 then .positive else .negative

theorem ofBitVec_unpackSign (b : BitVec 64) :
    Sign.ofBitVec (@unpackSign format b) = signOf b.toNat := by
  unfold Sign.ofBitVec signOf
  have h := toNat_unpackSign b
  have hlt := b.isLt
  by_cases hb : b.toNat < 2 ^ 63
  · rw [if_pos hb, if_pos]
    apply BitVec.eq_of_toNat_eq
    rw [h, Nat.div_eq_of_lt hb]
    rfl
  · rw [if_neg hb, if_neg]
    intro h0
    rw [h0] at h
    have hsign : (0#1).toNat = 0 := rfl
    omega

theorem unpack_eq (b : BitVec 64) :
    unpack format b = ofFields (signOf b.toNat) (b.toNat / 2 ^ 52 % 2 ^ 11) (b.toNat % 2 ^ 52) := by
  have hm := toNat_unpackMantissa b
  have he := toNat_unpackExponent b
  have he1 : @unpackExponent format b = -1#11 ↔ b.toNat / 2 ^ 52 % 2 ^ 11 = 2047 := by
    rw [← he, ← BitVec.toNat_inj]
    rfl
  have he0 : @unpackExponent format b = 0#11 ↔ b.toNat / 2 ^ 52 % 2 ^ 11 = 0 := by
    rw [← he, ← BitVec.toNat_inj]
    rfl
  have hm0 : @unpackMantissa format b = 0#52 ↔ b.toNat % 2 ^ 52 = 0 := by
    rw [← hm, ← BitVec.toNat_inj]
    rfl
  unfold UnpackedFloat.unpack ofFields
  simp only [ofBitVec_unpackSign, he1, he0, hm0]
  split
  · rfl
  · split
    · split
      · rfl
      · rename_i hzero _
        congr 1
        rw [he, hzero]
        rfl
    · congr 1
      -- the leading bit stands left of the mantissa, where it is added to it
      · rw [BitVec.toNat_append, hm, Nat.shiftLeft_eq]
        have h := Nat.two_pow_add_eq_or_of_lt (Nat.mod_lt b.toNat (Nat.two_pow_pos 52)) 1
        rw [mul_one] at h
        exact h.symm
      · rw [he]
        rfl

theorem toNat_packComponents (sign : Sign) (exponent : BitVec 11) (mantissa : BitVec 52) :
    (packComponents format sign exponent mantissa).toNat =
      sign.toBitVec.toNat * 2 ^ 63 + exponent.toNat * 2 ^ 52 + mantissa.toNat := by
  have he := exponent.isLt
  have hm := mantissa.isLt
  unfold packComponents
  rw [BitVec.toNat_append, BitVec.toNat_append, Nat.shiftLeft_eq, Nat.shiftLeft_eq]
  show (sign.toBitVec.toNat * 2 ^ 11 ||| exponent.toNat) * 2 ^ 52 ||| mantissa.toNat = _
  rw [mul_comm _ (2 ^ 11), ← Nat.two_pow_add_eq_or_of_lt he, mul_comm _ (2 ^ 52),
    ← Nat.two_pow_add_eq_or_of_lt hm]
  ring

theorem unpack_packComponents (sign : Sign) (exponent : BitVec 11) (mantissa : BitVec 52) :
    unpack format (packComponents format sign exponent mantissa) =
      ofFields sign exponent.toNat mantissa.toNat := by
  have he := exponent.isLt
  have hm := mantissa.isLt
  have hs : signOf (packComponents format sign exponent mantissa).toNat = sign := by
    rw [toNat_packComponents]
    cases sign
    · show signOf (1 * 2 ^ 63 + _ + _) = _
      exact if_neg (by omega)
    · show signOf (0 * 2 ^ 63 + _ + _) = _
      exact if_pos (by omega)
  have hb : sign.toBitVec.toNat < 2 := sign.toBitVec.isLt
  rw [unpack_eq, hs, toNat_packComponents]
  congr 1 <;> omega

theorem unpack_pack (u : UnpackedFloat) :
    (Float.Model.pack u).unpack = unpack format (UnpackedFloat.pack format u) := rfl

/-- The mantissa is as long as the exponent allows. -/
def Canonical : UnpackedFloat → Prop
  | .finite _ m e _ => m < 2 ^ 53 ∧ -1074 ≤ e ∧ e ≤ 971 ∧ (2 ^ 52 ≤ m ∨ e = -1074)
  | _ => True

/-- The exponent that is written, which is never all ones. -/
theorem biasedExponent_eq (e : Int) :
    (e + (format.exponentBias : Int) + (format.mantissaBitsWithoutImplicit : Int)).toNat =
      (e + 1075).toNat := by
  show (e + 1023 + 52).toNat = _
  congr 1
  omega

/-- With its leading bit a mantissa has 53 bits; the leading one is not written. -/
theorem unpack_pack_normal (s : Sign) {m : Nat} {e : Int} (hpos : 0 < m) (hm : m < 2 ^ 53)
    (hm' : 2 ^ 52 ≤ m) (he : -1074 ≤ e) (he' : e ≤ 971) :
    (Float.Model.pack (.finite s m e hpos)).unpack = .finite s m e hpos := by
  have hlog : m.log2 = 52 := by
    rw [Nat.log2_eq_iff (by omega)]
    exact ⟨hm', hm⟩
  have hlow : ¬ 2 ^ 11 ≤ (e + 1075).toNat + 1 := by omega
  have hbits : m.log2 + 1 = format.mantissaBits := congrArg (· + 1) hlog
  have hexponent : (BitVec.ofNat 11 (e + 1075).toNat).toNat = (e + 1075).toNat := by
    rw [BitVec.toNat_ofNat]
    omega
  have hmantissa : (BitVec.ofNat 52 m).toNat = m - 2 ^ 52 := by
    rw [BitVec.toNat_ofNat]
    omega
  rw [unpack_pack]
  unfold UnpackedFloat.pack
  simp only
  rw [biasedExponent_eq, if_neg hlow, if_pos hbits, unpack_packComponents, hexponent, hmantissa]
  unfold ofFields
  rw [if_neg (by omega), if_neg (by omega)]
  exact finite_congr (by omega) (by omega)

/-- A shorter mantissa is written as it is, under the least exponent. -/
theorem unpack_pack_subnormal (s : Sign) {m : Nat} (hpos : 0 < m) (hm : m < 2 ^ 52) :
    (Float.Model.pack (.finite s m (-1074) hpos)).unpack = .finite s m (-1074) hpos := by
  have hlog : m.log2 < 52 := by
    rw [Nat.log2_lt (by omega)]
    exact hm
  have hlow : ¬ 2 ^ 11 ≤ ((-1074 : Int) + 1075).toNat + 1 := by decide
  have hbits : ¬ m.log2 + 1 = format.mantissaBits := by
    show ¬ m.log2 + 1 = 53
    omega
  have hmantissa : (BitVec.ofNat 52 m).toNat = m := by
    rw [BitVec.toNat_ofNat]
    omega
  rw [unpack_pack]
  unfold UnpackedFloat.pack
  simp only
  rw [biasedExponent_eq, if_neg hlow, if_neg hbits, unpack_packComponents, hmantissa]
  unfold ofFields
  rw [if_neg (by decide), if_pos (by decide), dif_neg (by omega)]

theorem unpack_pack_of_canonical {u : UnpackedFloat} (h : Canonical u) :
    (Float.Model.pack u).unpack = u := by
  cases u with
  | infinity s =>
    show unpack format (packComponents format s _ _) = _
    rw [unpack_packComponents]
    rfl
  | notANumber =>
    show unpack format (packComponents format .positive _ _) = _
    rw [unpack_packComponents]
    rfl
  | zero s =>
    show unpack format (packComponents format s _ _) = _
    rw [unpack_packComponents]
    rfl
  | finite s m e hpos =>
    obtain ⟨hm, he, he', hnormal⟩ := h
    by_cases hm' : 2 ^ 52 ≤ m
    · exact unpack_pack_normal s hpos hm hm' he he'
    · obtain rfl : e = -1074 := hnormal.resolve_left hm'
      exact unpack_pack_subnormal s hpos (by omega)

theorem ofFields_canonical (sign : Sign) {exponent mantissa : Nat} (he : exponent < 2 ^ 11)
    (hm : mantissa < 2 ^ 52) : Canonical (ofFields sign exponent mantissa) := by
  unfold ofFields
  split
  · split <;> trivial
  · split
    · split
      · trivial
      · exact ⟨by omega, by omega, by omega, Or.inr rfl⟩
    · exact ⟨by omega, by omega, by omega, Or.inl (by omega)⟩

theorem canonical_unpack (f : Float.Model) : Canonical f.unpack := by
  show Canonical (unpack format f.toBits.toBitVec)
  rw [unpack_eq]
  exact ofFields_canonical _ (Nat.mod_lt _ (by positivity)) (Nat.mod_lt _ (by positivity))

/-- Not below zero. -/
def Nonneg : UnpackedFloat → Prop
  | .notANumber => False
  | .infinity s => s = .positive
  | .zero _ => True
  | .finite s .. => s = .positive

theorem ofFields_nonneg {exponent mantissa : Nat} (h : exponent ≠ 2047 ∨ mantissa = 0) :
    Nonneg (ofFields .positive exponent mantissa) := by
  unfold ofFields
  split
  · rw [if_pos (by tauto)]
    rfl
  · split
    · split <;> trivial
    · rfl

/-- What is packed as a finite number is a finite number or infinite. -/
theorem exists_ofFields_unpack_pack (s : Sign) (m : Nat) (e : Int) (hpos : 0 < m) :
    ∃ exponent mantissa, (exponent ≠ 2047 ∨ mantissa = 0) ∧
      (Float.Model.pack (.finite s m e hpos)).unpack = ofFields s exponent mantissa := by
  rw [unpack_pack]
  unfold UnpackedFloat.pack
  simp only
  split
  · unfold packedInfinity
    rw [unpack_packComponents]
    exact ⟨_, _, Or.inr rfl, rfl⟩
  · split
    · rw [unpack_packComponents]
      refine ⟨_, _, Or.inl ?_, rfl⟩
      rename_i hsmall _
      change ¬ 2 ^ 11 ≤ _ at hsmall
      rw [BitVec.toNat_ofNat]
      omega
    · rw [unpack_packComponents]
      exact ⟨_, _, Or.inl (by decide), rfl⟩

theorem nonneg_unpack_pack {u : UnpackedFloat} (h : Nonneg u) :
    Nonneg (Float.Model.pack u).unpack := by
  match u, h with
  | .infinity _, h =>
    rw [unpack_pack_of_canonical (by trivial)]
    exact h
  | .zero _, h =>
    rw [unpack_pack_of_canonical (by trivial)]
    exact h
  | .finite s m e hpos, h =>
    obtain rfl : s = .positive := h
    obtain ⟨exponent, mantissa, hfields, hpack⟩ := exists_ofFields_unpack_pack .positive m e hpos
    rw [hpack]
    exact ofFields_nonneg hfields

/-- Packing turns no number into none. -/
theorem isNaN_unpack_pack {u : UnpackedFloat} (h : u.isNaN = false) :
    (Float.Model.pack u).unpack.isNaN = false := by
  cases u with
  | notANumber => cases h
  | infinity s => rw [unpack_pack_of_canonical (by trivial)]; rfl
  | zero s => rw [unpack_pack_of_canonical (by trivial)]; rfl
  | finite s m e hpos =>
    obtain ⟨exponent, mantissa, hfields, hpack⟩ := exists_ofFields_unpack_pack s m e hpos
    rw [hpack]
    unfold ofFields
    split
    · rw [if_pos (by tauto)]
      rfl
    · split
      · split <;> rfl
      · rfl

end Wireframe.Binary64
