/-
The order of floats.

Any two floats that are numbers can be compared, and their words tell how: the fields of a float are
laid out so that the order of the positive ones is that of their words.

* `le_of_not_lt` — of two numbers one is at most the other;
* `compare_words` — words of numbers are compared by their weights;
* `lt_iff_weight` — so are floats.
-/
import Wireframe.Proofs.Binary64.Encoding

namespace Wireframe.Binary64

open Float.Model Float.Model.UnpackedFloat

/-! ### Comparing -/

theorem compare_swap (u v : UnpackedFloat) :
    UnpackedFloat.compare v u = (UnpackedFloat.compare u v).map Ordering.swap := by
  -- Numbers of one sign are compared by exponent and mantissa in turn, and so is the swapped pair.
  have hlex (e₁ e₂ : Int) (m₁ m₂ : Nat) : (compare e₂ e₁).then (compare m₂ m₁) =
      ((compare e₁ e₂).then (compare m₁ m₂)).swap := by
    rw [Ordering.swap_then, ← Std.OrientedCmp.eq_swap, ← Std.OrientedCmp.eq_swap]
  -- All other pairs are told apart by sign and kind.
  cases u with
  | notANumber => cases v <;> rfl
  | infinity s =>
    cases v with
    | notANumber => cases s <;> rfl
    | zero => cases s <;> rfl
    | infinity s' => cases s <;> cases s' <;> rfl
    | finite s' => cases s <;> cases s' <;> rfl
  | zero s =>
    cases v with
    | notANumber => rfl
    | zero => rfl
    | infinity s' => cases s' <;> rfl
    | finite s' => cases s' <;> rfl
  | finite s m e =>
    cases v with
    | notANumber => cases s <;> rfl
    | zero => cases s <;> rfl
    | infinity s' => cases s <;> cases s' <;> rfl
    | finite s' m' e' =>
      cases s <;> cases s' <;>
        simp only [UnpackedFloat.compare, Option.map_some, hlex e e' m m'] <;> rfl

theorem compare_isSome {u v : UnpackedFloat} (hu : u.isNaN = false) (hv : v.isNaN = false) :
    ∃ o, UnpackedFloat.compare u v = some o := by
  cases u with
  | notANumber => cases hu
  | infinity s =>
    cases v with
    | notANumber => cases hv
    | _ => cases s <;> exact ⟨_, rfl⟩
  | zero s =>
    cases v with
    | notANumber => cases hv
    | zero => exact ⟨_, rfl⟩
    | infinity s' => cases s' <;> exact ⟨_, rfl⟩
    | finite s' => cases s' <;> exact ⟨_, rfl⟩
  | finite s =>
    cases v with
    | notANumber => cases hv
    | zero => cases s <;> exact ⟨_, rfl⟩
    | infinity s' => cases s <;> cases s' <;> exact ⟨_, rfl⟩
    | finite s' => cases s <;> cases s' <;> exact ⟨_, rfl⟩

variable {x y : Float}

theorem lt_iff : x < y ↔ UnpackedFloat.compare x.toModel.unpack y.toModel.unpack = some .lt := by
  show decide (UnpackedFloat.lt _ _ = true) = true ↔ _
  rw [decide_eq_true_iff]
  exact beq_iff_eq

theorem le_iff : x ≤ y ↔ UnpackedFloat.compare x.toModel.unpack y.toModel.unpack = some .lt ∨
    UnpackedFloat.compare x.toModel.unpack y.toModel.unpack = some .eq := by
  show decide (UnpackedFloat.le _ _ = true) = true ↔ _
  rw [decide_eq_true_iff]
  unfold UnpackedFloat.le
  cases UnpackedFloat.compare x.toModel.unpack y.toModel.unpack with
  | none => simp
  | some o => cases o <;> simp

theorem le_of_not_lt (hx : x.isNaN = false) (hy : y.isNaN = false) (h : ¬ x < y) : y ≤ x := by
  obtain ⟨o, ho⟩ := compare_isSome hx hy
  rw [lt_iff, ho] at h
  rw [le_iff, compare_swap, ho]
  cases o with
  | lt => exact absurd rfl h
  | eq => exact Or.inr rfl
  | gt => exact Or.inl rfl

theorem le_of_lt (h : x < y) : x ≤ y := le_iff.mpr (Or.inl (lt_iff.mp h))

theorem not_lt_of_le (h : x ≤ y) : ¬ y < x := by
  rw [lt_iff, compare_swap]
  rcases le_iff.mp h with h | h <;> rw [h] <;> simp [Ordering.swap]

theorem isNaN_left_of_le (h : x ≤ y) : x.isNaN = false := by
  rw [le_iff] at h
  show UnpackedFloat.isNaN _ = false
  cases hx : x.toModel.unpack with
  | notANumber => simp [hx, UnpackedFloat.compare] at h
  | _ => rfl

theorem isNaN_right_of_le (h : x ≤ y) : y.isNaN = false := by
  rw [le_iff] at h
  show UnpackedFloat.isNaN _ = false
  cases hy : y.toModel.unpack with
  | notANumber => cases hx : x.toModel.unpack <;> simp [hx, hy, UnpackedFloat.compare] at h
  | _ => rfl

theorem le_refl (hx : x.isNaN = false) : x ≤ x := by
  apply le_of_not_lt hx hx
  intro h
  have hswap := compare_swap x.toModel.unpack x.toModel.unpack
  rw [lt_iff.mp h] at hswap
  cases hswap

theorem isNaN_of_isFinite {x : Float} (h : x.isFinite = true) : x.isNaN = false := by
  change x.toModel.unpack.isFinite = true at h
  show x.toModel.unpack.isNaN = false
  cases hu : x.toModel.unpack with
  | notANumber =>
    rw [hu] at h
    cases h
  | _ => rfl

/-! ### Words -/

/-- Fields that stand for a number, finite or not. -/
def IsNumber (exponent mantissa : Nat) : Prop :=
  mantissa < 2 ^ 52 ∧ (exponent < 2047 ∨ exponent = 2047 ∧ mantissa = 0)

/-- Whether the leading bit of the mantissa is kept or not, the exponent that counts is not zero. -/
theorem ofFields_finite (s : Sign) {e m : Nat} (he : e < 2047) (h0 : 0 < e ∨ 0 < m) :
    ∃ h, ofFields s e m =
      .finite s (m + if e = 0 then 0 else 2 ^ 52) (max (e : Int) 1 - 1075) h := by
  unfold ofFields
  rcases Nat.eq_zero_or_pos e with rfl | hpos
  · have hm : 0 < m := by omega
    refine ⟨hm, ?_⟩
    rw [if_neg (by decide), if_pos rfl, dif_neg hm.ne']
    exact finite_congr rfl rfl
  · have hif : (if e = 0 then 0 else 2 ^ 52) = 2 ^ 52 := if_neg hpos.ne'
    refine ⟨by omega, ?_⟩
    rw [if_neg he.ne, if_neg hpos.ne']
    exact finite_congr (by omega) (by omega)

theorem compare_finite_lt {m m' : Nat} {e e' : Int} (hm : 0 < m) (hm' : 0 < m')
    (h : e < e' ∨ e = e' ∧ m < m') :
    UnpackedFloat.compare (.finite .positive m e hm) (.finite .positive m' e' hm') = some .lt := by
  show some ((compare e e').then (compare m m')) = _
  rcases h with h | ⟨rfl, h⟩
  · rw [Int.compare_eq_lt.mpr h]
    rfl
  · rw [Int.compare_eq_eq.mpr rfl, Nat.compare_eq_lt.mpr h]
    rfl

theorem compare_ofFields_lt {e e' m m' : Nat} (h : IsNumber e m) (h' : IsNumber e' m')
    (hlt : e * 2 ^ 52 + m < e' * 2 ^ 52 + m') :
    UnpackedFloat.compare (ofFields .positive e m) (ofFields .positive e' m') = some .lt := by
  obtain ⟨hm, he⟩ := h
  obtain ⟨hm', he'⟩ := h'
  have hlow : e < 2047 := by omega
  have hcases : (e = 0 ∧ m = 0) ∨ (0 < e ∨ 0 < m) := by omega
  rcases he' with he' | ⟨rfl, rfl⟩
  · obtain ⟨hpos', heq'⟩ := ofFields_finite .positive he' (m := m') (by omega)
    rw [heq']
    rcases hcases with ⟨rfl, rfl⟩ | hpos
    · rfl
    · obtain ⟨hpos, heq⟩ := ofFields_finite .positive hlow hpos
      rw [heq]
      -- with equal exponents, only the leading bit tells a short mantissa from a long one
      apply compare_finite_lt
      split_ifs <;> omega
  · rcases hcases with ⟨rfl, rfl⟩ | hpos
    · rfl
    · obtain ⟨hpos, heq⟩ := ofFields_finite .positive hlow hpos
      rw [heq]
      rfl

theorem compare_self {e m : Nat} (h : IsNumber e m) :
    UnpackedFloat.compare (ofFields .positive e m) (ofFields .positive e m) = some .eq := by
  obtain ⟨-, he | ⟨rfl, rfl⟩⟩ := h
  · rcases Nat.eq_zero_or_pos (e + m) with h0 | hpos
    · obtain ⟨rfl, rfl⟩ : e = 0 ∧ m = 0 := by omega
      rfl
    · obtain ⟨hpos, heq⟩ := ofFields_finite .positive he (m := m) (by omega)
      rw [heq]
      show some ((compare _ _).then (compare _ _)) = _
      rw [Int.compare_eq_eq.mpr rfl, Nat.compare_eq_eq.mpr rfl]
      rfl
  · rfl

/-- Positive floats are compared like their words. -/
theorem compare_ofFields_positive {e e' m m' : Nat} (h : IsNumber e m) (h' : IsNumber e' m') :
    UnpackedFloat.compare (ofFields .positive e m) (ofFields .positive e' m') =
      some (compare ((e * 2 ^ 52 + m : Nat) : Int) (e' * 2 ^ 52 + m' : Nat)) := by
  rcases lt_trichotomy (e * 2 ^ 52 + m) (e' * 2 ^ 52 + m') with hlt | heq | hgt
  · rw [compare_ofFields_lt h h' hlt, Int.compare_eq_lt.mpr (by omega)]
  · have hm := h.1
    have hm' := h'.1
    obtain ⟨rfl, rfl⟩ : e = e' ∧ m = m' := by omega
    rw [compare_self h, Int.compare_eq_eq.mpr rfl]
  · rw [compare_swap, compare_ofFields_lt h' h hgt, Int.compare_eq_gt.mpr (by omega)]
    rfl

theorem compare_neg_neg (u v : UnpackedFloat) :
    UnpackedFloat.compare u.neg v.neg = UnpackedFloat.compare v u := by
  rw [compare_swap]
  cases u with
  | notANumber => cases v <;> rfl
  | infinity s =>
    cases v with
    | infinity s' => cases s <;> cases s' <;> rfl
    | finite s' => cases s <;> cases s' <;> rfl
    | _ => cases s <;> rfl
  | zero s =>
    cases v with
    | infinity s' => cases s' <;> rfl
    | finite s' => cases s' <;> rfl
    | _ => rfl
  | finite s m e =>
    cases v with
    | infinity s' => cases s <;> cases s' <;> rfl
    | finite s' m' e' =>
      cases s <;> cases s' <;> simp [UnpackedFloat.neg, UnpackedFloat.compare, Neg.neg]
    | _ => cases s <;> rfl

theorem ofFields_negative (e m : Nat) : ofFields .negative e m = (ofFields .positive e m).neg := by
  unfold ofFields
  split
  · split <;> rfl
  · split
    · split <;> rfl
    · rfl

/-- What fields that stand for a number are. -/
theorem ofFields_cases (s : Sign) {e m : Nat} (h : IsNumber e m) :
    (e = 0 ∧ m = 0) ∨ (∃ p q r, ofFields s e m = .finite s p q r) ∨
      ofFields s e m = .infinity s := by
  obtain ⟨-, he | ⟨rfl, rfl⟩⟩ := h
  · rcases Nat.eq_zero_or_pos (e + m) with h0 | hpos
    · exact Or.inl (by omega)
    · obtain ⟨hp, heq⟩ := ofFields_finite s he (m := m) (by omega)
      exact Or.inr (Or.inl ⟨_, _, hp, heq⟩)
  · exact Or.inr (Or.inr rfl)

theorem compare_negative_positive {e e' m m' : Nat} (h : IsNumber e m) (h' : IsNumber e' m') :
    UnpackedFloat.compare (ofFields .negative e m) (ofFields .positive e' m') =
      some (compare (-((e * 2 ^ 52 + m : Nat) : Int)) (e' * 2 ^ 52 + m' : Nat)) := by
  by_cases h0 : e = 0 ∧ m = 0
  · obtain ⟨rfl, rfl⟩ := h0
    have hzero (v : UnpackedFloat) : UnpackedFloat.compare (ofFields .negative 0 0) v =
        UnpackedFloat.compare (ofFields .positive 0 0) v := by
      show UnpackedFloat.compare (.zero .negative) v = UnpackedFloat.compare (.zero .positive) v
      cases v with
      | infinity s => cases s <;> rfl
      | finite s => cases s <;> rfl
      | _ => rfl
    rw [hzero, compare_ofFields_positive h h']
    rfl
  -- a negative number that is not zero lies below all positive ones
  · rw [Int.compare_eq_lt.mpr (by omega)]
    rcases ofFields_cases .negative h with hu | ⟨p, q, r, hu⟩ | hu
    · exact absurd hu h0
    all_goals
      rcases ofFields_cases .positive h' with ⟨rfl, rfl⟩ | ⟨p', q', r', hv⟩ | hv
      · rw [hu]
        rfl
      all_goals
        rw [hu, hv]
        rfl

/-- The place of a word among all numbers, both zeros at the same one. -/
def wordWeight (n : Nat) : Int := if n < 2 ^ 63 then n else 2 ^ 63 - n

theorem compare_neg (p q : Int) : compare (-p) (-q) = compare q p := by
  rcases lt_trichotomy q p with h | rfl | h
  · rw [Int.compare_eq_lt.mpr h, Int.compare_eq_lt.mpr (by omega)]
  · rw [Int.compare_eq_eq.mpr rfl, Int.compare_eq_eq.mpr rfl]
  · rw [Int.compare_eq_gt.mpr h, Int.compare_eq_gt.mpr (by omega)]

theorem compare_words {a b : Nat} (ha : IsNumber (a / 2 ^ 52 % 2 ^ 11) (a % 2 ^ 52))
    (hb : IsNumber (b / 2 ^ 52 % 2 ^ 11) (b % 2 ^ 52)) (hla : a < 2 ^ 64) (hlb : b < 2 ^ 64) :
    UnpackedFloat.compare (ofFields (signOf a) (a / 2 ^ 52 % 2 ^ 11) (a % 2 ^ 52))
        (ofFields (signOf b) (b / 2 ^ 52 % 2 ^ 11) (b % 2 ^ 52)) =
      some (compare (wordWeight a) (wordWeight b)) := by
  have hjoin (n : Nat) (h : n < 2 ^ 64) :
      n / 2 ^ 52 % 2 ^ 11 * 2 ^ 52 + n % 2 ^ 52 = n % 2 ^ 63 := by omega
  have hneg (n : Nat) (h : n < 2 ^ 64) (hn : ¬ n < 2 ^ 63) :
      (2 ^ 63 : Int) - n = -((n % 2 ^ 63 : Nat) : Int) := by omega
  unfold signOf wordWeight
  by_cases hax : a < 2 ^ 63 <;> by_cases hbx : b < 2 ^ 63
  · rw [if_pos hax, if_pos hax, if_pos hbx, if_pos hbx, compare_ofFields_positive ha hb,
      hjoin a hla, hjoin b hlb, Nat.mod_eq_of_lt hax, Nat.mod_eq_of_lt hbx]
  · rw [if_pos hax, if_pos hax, if_neg hbx, if_neg hbx, compare_swap,
      compare_negative_positive hb ha, hjoin a hla, hjoin b hlb, Nat.mod_eq_of_lt hax,
      hneg b hlb hbx, Option.map_some, ← Std.OrientedCmp.eq_swap]
  · rw [if_neg hax, if_neg hax, if_pos hbx, if_pos hbx, compare_negative_positive ha hb,
      hjoin a hla, hjoin b hlb, Nat.mod_eq_of_lt hbx, hneg a hla hax]
  · rw [if_neg hax, if_neg hax, if_neg hbx, if_neg hbx, ofFields_negative, ofFields_negative,
      compare_neg_neg, compare_ofFields_positive hb ha, hjoin a hla, hjoin b hlb, hneg a hla hax,
      hneg b hlb hbx, compare_neg]

theorem isNumber_of_ne_notANumber {s : Sign} {e m : Nat} (he : e < 2 ^ 11) (hm : m < 2 ^ 52)
    (h : (ofFields s e m).isNaN = false) : IsNumber e m := by
  refine ⟨hm, ?_⟩
  by_contra hnot
  have hnan : ofFields s e m = .notANumber := by
    unfold ofFields
    rw [if_pos (by omega), if_neg (by omega)]
  rw [hnan] at h
  cases h

/-- The place of a float among all numbers. -/
def weight (x : Float) : Int := wordWeight x.toBits.toNat

theorem unpack_toModel (x : Float) : x.toModel.unpack =
    ofFields (signOf x.toBits.toNat) (x.toBits.toNat / 2 ^ 52 % 2 ^ 11) (x.toBits.toNat % 2 ^ 52) :=
  unpack_eq x.toBits.toBitVec

theorem isNumber_toBits {x : Float} (hx : x.isNaN = false) :
    IsNumber (x.toBits.toNat / 2 ^ 52 % 2 ^ 11) (x.toBits.toNat % 2 ^ 52) := by
  refine isNumber_of_ne_notANumber (s := signOf x.toBits.toNat) (Nat.mod_lt _ (by positivity))
    (Nat.mod_lt _ (by positivity)) ?_
  rw [← unpack_toModel]
  exact hx

/-- Floats that are numbers are compared by their weights. -/
theorem lt_iff_weight {x y : Float} (hx : x.isNaN = false) (hy : y.isNaN = false) :
    x < y ↔ weight x < weight y := by
  rw [lt_iff, unpack_toModel, unpack_toModel, compare_words (isNumber_toBits hx)
    (isNumber_toBits hy) x.toBits.toNat_lt y.toBits.toNat_lt, Option.some_inj, Int.compare_eq_lt]
  rfl

theorem le_iff_weight {x y : Float} (hx : x.isNaN = false) (hy : y.isNaN = false) :
    x ≤ y ↔ weight x ≤ weight y := by
  constructor
  · intro h
    have := (lt_iff_weight hy hx).not.mp (not_lt_of_le h)
    omega
  · intro h
    refine le_of_not_lt hy hx ?_
    rw [lt_iff_weight hy hx]
    omega

theorem le_trans {x y z : Float} (hxy : x ≤ y) (hyz : y ≤ z) : x ≤ z := by
  have hx := isNaN_left_of_le hxy
  have hy := isNaN_right_of_le hxy
  have hz := isNaN_right_of_le hyz
  rw [le_iff_weight hx hz]
  exact Int.le_trans ((le_iff_weight hx hy).mp hxy) ((le_iff_weight hy hz).mp hyz)

end Wireframe.Binary64
