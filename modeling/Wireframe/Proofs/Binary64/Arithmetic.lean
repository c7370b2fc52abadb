/-
Adding, subtracting, multiplying and dividing floats.

* `Steps`, `compare_of_steps` — floats that are not negative are compared like the number of steps of
  the least positive float that lead to them;
* `add_cases_of_steps`, `steps_add`, `steps_one_sub` — a sum, and what is left of one, in such steps;
* `add_le_one` — a number and what it leaves of one add up to at most one, rounded as they are;
* `isNaN_mul` — a product of finite numbers is a number;
* `one_le_ofNat`, `positive_ofNat` — the float of a whole number above zero is one or more.
-/
import Wireframe.Proofs.Binary64.Order
import Wireframe.Proofs.Binary64.Rounding

namespace Wireframe.Binary64

open Float.Model Float.Model.UnpackedFloat

variable {x y : Float}

theorem unpack_zero : (0.0 : Float).toModel.unpack = .zero .positive := rfl

theorem unpack_one :
    (1.0 : Float).toModel.unpack = .finite .positive (2 ^ 52) (-52) (by decide) := by
  have h : (1.0 : Float).toModel.toBits = 0x3FF0000000000000 := by decide +kernel
  show unpack format (1.0 : Float).toModel.toBits.toBitVec = _
  rw [h, unpack_eq]
  rfl

theorem nonneg_iff : 0.0 ≤ x ↔ Nonneg x.toModel.unpack := by
  rw [le_iff, unpack_zero]
  cases x.toModel.unpack with
  | notANumber => simp [UnpackedFloat.compare, Nonneg]
  | zero s => simp [UnpackedFloat.compare, Nonneg]
  | infinity s => cases s <;> simp [UnpackedFloat.compare, Nonneg]
  | finite s => cases s <;> simp [UnpackedFloat.compare, Nonneg]

/-- A float is a number of steps of the least positive one above zero. -/
inductive Steps : UnpackedFloat → Nat → Prop
  | zero (s : Sign) : Steps (.zero s) 0
  | finite (m : Nat) (e : Int) (h : 0 < m) :
      Steps (.finite .positive m e h) (m * 2 ^ (e + 1074).toNat)

theorem steps_zero : Steps (0.0 : Float).toModel.unpack 0 := Steps.zero .positive

theorem steps_one : Steps (1.0 : Float).toModel.unpack (2 ^ 1074) := by
  have h := Steps.finite (2 ^ 52) (-52) (by decide)
  rw [show ((-52 : Int) + 1074).toNat = 1022 from rfl, ← pow_add,
    show 52 + 1022 = 1074 from rfl] at h
  rw [unpack_one]
  exact h

/-- A canonical float with the lesser exponent is the lesser one. -/
theorem steps_lt_of_exponent_lt {m m' : Nat} {e e' : Int} (hm : m < 2 ^ 53) (hm' : 2 ^ 52 ≤ m')
    (he : -1074 ≤ e) (hlt : e < e') :
    m * 2 ^ (e + 1074).toNat < m' * 2 ^ (e' + 1074).toNat := by
  have hpow : 2 * 2 ^ (e + 1074).toNat ≤ 2 ^ (e' + 1074).toNat := by
    rw [← pow_succ']
    exact Nat.pow_le_pow_right (by decide) (by omega)
  calc m * 2 ^ (e + 1074).toNat < 2 ^ 53 * 2 ^ (e + 1074).toNat :=
        Nat.mul_lt_mul_of_pos_right hm (by positivity)
    _ = 2 ^ 52 * (2 * 2 ^ (e + 1074).toNat) := by
        rw [← mul_assoc]
        rfl
    _ ≤ m' * 2 ^ (e' + 1074).toNat := Nat.mul_le_mul hm' hpow

theorem compare_of_steps {u v : UnpackedFloat} {a b : Nat} (hu : Steps u a) (hv : Steps v b)
    (hcu : Canonical u) (hcv : Canonical v) :
    UnpackedFloat.compare u v = some (compare a b) := by
  cases hu with
  | zero s =>
    cases hv with
    | zero s' => rfl
    | finite m e h =>
      have hpos : 0 < m * 2 ^ (e + 1074).toNat := by positivity
      exact congrArg some (Nat.compare_eq_lt.mpr hpos).symm
  | finite m e h =>
    cases hv with
    | zero s' =>
      have hpos : 0 < m * 2 ^ (e + 1074).toNat := by positivity
      exact congrArg some (Nat.compare_eq_gt.mpr hpos).symm
    | finite m' e' h' =>
      obtain ⟨hm, he, -, hn⟩ := hcu
      obtain ⟨hm', he', -, hn'⟩ := hcv
      refine congrArg some ?_
      -- Of two canonical numbers the one with the greater exponent is greater, and equal exponents
      -- leave the mantissas to decide.
      rcases lt_trichotomy e e' with hlt | rfl | hgt
      · rw [Int.compare_eq_lt.mpr hlt]
        exact (Nat.compare_eq_lt.mpr (steps_lt_of_exponent_lt hm (by omega) he hlt)).symm
      · rw [Int.compare_eq_eq.mpr rfl]
        have hpos : 0 < 2 ^ (e + 1074).toNat := by positivity
        show compare m m' = _
        rcases lt_trichotomy m m' with hlt | rfl | hgt
        · rw [Nat.compare_eq_lt.mpr hlt,
            Nat.compare_eq_lt.mpr (Nat.mul_lt_mul_of_pos_right hlt hpos)]
        · rw [Nat.compare_eq_eq.mpr rfl, Nat.compare_eq_eq.mpr rfl]
        · rw [Nat.compare_eq_gt.mpr hgt,
            Nat.compare_eq_gt.mpr (Nat.mul_lt_mul_of_pos_right hgt hpos)]
      · rw [Int.compare_eq_gt.mpr hgt]
        exact (Nat.compare_eq_gt.mpr (steps_lt_of_exponent_lt hm' (by omega) he' hgt)).symm

theorem normalize_pos {n : Nat} (hn : 0 < n) (e : Int) (s : Sign) :
    UnpackedFloat.normalize format n e s = UnpackedFloat.round format .positive n e := by
  have h : compare (n : Int) 0 = .gt := Int.compare_eq_gt.mpr (by omega)
  unfold UnpackedFloat.normalize
  rw [h]
  rfl

/-- What is in range and not above one is canonical. -/
theorem InRange.canonical {m : Nat} {e : Int} (h : InRange m e) {k : Nat} (hk : k ≤ 2045)
    (s : Sign) (hm : 0 < m) (hle : m * 2 ^ (e + 1074).toNat ≤ 2 ^ k) :
    Canonical (.finite s m e hm) := by
  have hpow : 2 ^ (e + 1074).toNat ≤ 2 ^ k := (Nat.le_mul_of_pos_left _ hm).trans hle
  have := (Nat.pow_le_pow_iff_right (by decide)).mp hpow
  exact ⟨h.1, h.2.1, by omega, h.2.2⟩

/-- A mantissa that is scaled to a lesser exponent. -/
theorem scaled_steps {m : Nat} {e l : Int} (hl : l ≤ e) (hl' : -1074 ≤ l) :
    m * 2 ^ (e - l).toNat * 2 ^ (l + 1074).toNat = m * 2 ^ (e + 1074).toNat := by
  rw [mul_assoc, ← pow_add]
  congr 2
  omega

/-- Two floats above zero are whole numbers of a common unit, and their sum and their difference are
those of the two numbers. -/
theorem exists_common_unit {m m' : Nat} {e e' : Int} (hm : 0 < m) (hm' : 0 < m') (he : -1074 ≤ e)
    (he' : -1074 ≤ e') :
    ∃ (l : Int) (a b : Nat), -1074 ≤ l ∧ 0 < a ∧
      a * 2 ^ (l + 1074).toNat = m * 2 ^ (e + 1074).toNat ∧
      b * 2 ^ (l + 1074).toNat = m' * 2 ^ (e' + 1074).toNat ∧
      UnpackedFloat.add format (.finite .positive m e hm) (.finite .positive m' e' hm') =
        UnpackedFloat.normalize format ((a : Int) + b) l .positive ∧
      UnpackedFloat.sub format (.finite .positive m e hm) (.finite .positive m' e' hm') =
        UnpackedFloat.normalize format ((a : Int) - b) l .positive := by
  refine ⟨min e e', m * 2 ^ (e - min e e').toNat, m' * 2 ^ (e' - min e e').toNat, by omega,
    by positivity, scaled_steps (by omega) (by omega), scaled_steps (by omega) (by omega), ?_, ?_⟩
  · simp only [UnpackedFloat.add, decreaseExponent_eq, Sign.apply]
  · simp only [UnpackedFloat.sub, decreaseExponent_eq, Sign.apply]

theorem add_finite {m m' : Nat} {e e' : Int} (hm : 0 < m) (hm' : 0 < m') (he : -1074 ≤ e)
    (he' : -1074 ≤ e') :
    ∃ n l h, UnpackedFloat.add format (.finite .positive m e hm) (.finite .positive m' e' hm') =
        .finite .positive n l h ∧ InRange n l ∧
      Rounds (m * 2 ^ (e + 1074).toNat + m' * 2 ^ (e' + 1074).toNat)
        (n * 2 ^ (l + 1074).toNat) := by
  obtain ⟨d, a, b, hd, hpos, ha, hb, hadd, -⟩ := exists_common_unit hm hm' he he'
  obtain ⟨n, l, h, hround, hrange, hvalue⟩ :=
    round_finite .positive (m := a + b) (e := d) (by omega) hd
  rw [add_mul, ha, hb] at hvalue
  refine ⟨n, l, h, ?_, hrange, hvalue⟩
  rw [hadd, ← Nat.cast_add, normalize_pos (by omega), hround]

theorem sub_finite {m m' : Nat} {e e' : Int} (hm : 0 < m) (hm' : 0 < m') (he : -1074 ≤ e)
    (he' : -1074 ≤ e') (hlt : m' * 2 ^ (e' + 1074).toNat < m * 2 ^ (e + 1074).toNat) :
    ∃ n l h, UnpackedFloat.sub format (.finite .positive m e hm) (.finite .positive m' e' hm') =
        .finite .positive n l h ∧ InRange n l ∧
      Rounds (m * 2 ^ (e + 1074).toNat - m' * 2 ^ (e' + 1074).toNat)
        (n * 2 ^ (l + 1074).toNat) := by
  obtain ⟨d, a, b, hd, -, ha, hb, -, hsub⟩ := exists_common_unit hm hm' he he'
  have hba : b < a := by
    rw [← ha, ← hb] at hlt
    exact Nat.lt_of_mul_lt_mul_right hlt
  obtain ⟨n, l, h, hround, hrange, hvalue⟩ :=
    round_finite .positive (m := a - b) (e := d) (by omega) hd
  rw [Nat.sub_mul, ha, hb] at hvalue
  refine ⟨n, l, h, ?_, hrange, hvalue⟩
  rw [hsub, ← Nat.cast_sub hba.le, normalize_pos (by omega), hround]

theorem sub_finite_self {m m' : Nat} {e e' : Int} (hm : 0 < m) (hm' : 0 < m') (he : -1074 ≤ e)
    (he' : -1074 ≤ e') (heq : m' * 2 ^ (e' + 1074).toNat = m * 2 ^ (e + 1074).toNat) :
    UnpackedFloat.sub format (.finite .positive m e hm) (.finite .positive m' e' hm') =
      .zero .positive := by
  obtain ⟨d, a, b, -, -, ha, hb, -, hsub⟩ := exists_common_unit hm hm' he he'
  obtain rfl : b = a := by
    rw [← ha, ← hb] at heq
    exact Nat.eq_of_mul_eq_mul_right (by positivity) heq
  rw [hsub, sub_self]
  rfl

theorem unpack_add (x y : Float) : (x + y).toModel.unpack =
    (Float.Model.pack (UnpackedFloat.add format x.toModel.unpack y.toModel.unpack)).unpack := rfl

theorem unpack_sub (x y : Float) : (x - y).toModel.unpack =
    (Float.Model.pack (UnpackedFloat.sub format x.toModel.unpack y.toModel.unpack)).unpack := rfl

theorem unpack_div (x y : Float) : (x / y).toModel.unpack =
    (Float.Model.pack (UnpackedFloat.div format x.toModel.unpack y.toModel.unpack)).unpack := rfl

theorem le_iff_of_steps {a b : Nat} (hx : Steps x.toModel.unpack a)
    (hy : Steps y.toModel.unpack b) : x ≤ y ↔ a ≤ b := by
  rw [le_iff, compare_of_steps hx hy (canonical_unpack _) (canonical_unpack _)]
  rw [Option.some_inj, Option.some_inj, Nat.compare_eq_lt, Nat.compare_eq_eq]
  omega

theorem steps_of_finite {m k : Nat} {e : Int} (hm : 0 < m) (h : InRange m e) (hk : k ≤ 2045)
    (hle : m * 2 ^ (e + 1074).toNat ≤ 2 ^ k) :
    Steps (Float.Model.pack (.finite .positive m e hm)).unpack (m * 2 ^ (e + 1074).toNat) := by
  rw [unpack_pack_of_canonical (h.canonical hk .positive hm hle)]
  exact Steps.finite m e hm

/-- The sum of two floats that are not negative is the other one if one of them is zero, and is rounded
if neither is. -/
theorem add_cases_of_steps {a b : Nat} (hx : Steps x.toModel.unpack a)
    (hy : Steps y.toModel.unpack b) :
    ((a = 0 ∨ b = 0) ∧ Steps (x + y).toModel.unpack (a + b)) ∨
      ∃ n l h, (x + y).toModel.unpack = (Float.Model.pack (.finite .positive n l h)).unpack ∧
        InRange n l ∧ Rounds (a + b) (n * 2 ^ (l + 1074).toNat) := by
  have hcx := canonical_unpack x.toModel
  have hcy := canonical_unpack y.toModel
  rw [unpack_add]
  generalize x.toModel.unpack = u at *
  generalize y.toModel.unpack = v at *
  -- Nothing is rounded where a summand is zero.
  cases hx with
  | zero s =>
    refine .inl ⟨.inl rfl, ?_⟩
    rw [zero_add]
    cases hy with
    | zero s' => cases s <;> cases s' <;> exact Steps.zero _
    | finite m' e' h' =>
      show Steps (Float.Model.pack (.finite .positive m' e' h')).unpack _
      rw [unpack_pack_of_canonical hcy]
      exact Steps.finite m' e' h'
  | finite m e h =>
    cases hy with
    | zero s' =>
      refine .inl ⟨.inr rfl, ?_⟩
      show Steps (Float.Model.pack (.finite .positive m e h)).unpack _
      rw [add_zero, unpack_pack_of_canonical hcx]
      exact Steps.finite m e h
    | finite m' e' h' =>
      obtain ⟨n, l, hn, hadd, hrange, hvalue⟩ := add_finite h h' hcx.2.1 hcy.2.1
      exact .inr ⟨n, l, hn, by rw [hadd], hrange, hvalue⟩

/-- The sum of two floats that exceeds one by less than half a unit is at most one. -/
theorem steps_add {a b : Nat} (hx : Steps x.toModel.unpack a) (hy : Steps y.toModel.unpack b)
    (ha : a ≤ 2 ^ 1074) (hb : b ≤ 2 ^ 1074) (hab : a + b ≤ 2 ^ 1074 + 2 ^ 1020) :
    ∃ c, Steps (x + y).toModel.unpack c ∧ c ≤ 2 ^ 1074 := by
  obtain ⟨hzero, hsum⟩ | ⟨n, l, hn, hadd, hrange, hvalue⟩ := add_cases_of_steps hx hy
  · exact ⟨a + b, hsum, by omega⟩
  · have hle := hvalue.le_two_pow (j := 1074) (k := 1020) rfl hab
    rw [hadd]
    exact ⟨_, steps_of_finite hn hrange (by decide) hle, hle⟩

theorem one_canonical : Canonical (.finite .positive (2 ^ 52) (-52) (by decide)) :=
  ⟨by decide, by decide, by decide, by decide⟩

/-- What is left of one is off by at most half a unit. -/
theorem steps_one_sub {a : Nat} (hx : Steps x.toModel.unpack a) (ha : a ≤ 2 ^ 1074) :
    ∃ c, Steps (1.0 - x).toModel.unpack c ∧ c ≤ 2 ^ 1074 ∧ a + c ≤ 2 ^ 1074 + 2 ^ 1020 := by
  have hcx := canonical_unpack x.toModel
  have hone := Steps.finite (2 ^ 52) (-52) (by decide)
  rw [unpack_sub, unpack_one]
  generalize x.toModel.unpack = u at *
  -- One is so many of the least steps.
  have h1074 : 2 ^ 52 * 2 ^ ((-52 : Int) + 1074).toNat = 2 ^ 1074 := by
    rw [show ((-52 : Int) + 1074).toNat = 1022 from rfl, ← pow_add,
      show 52 + 1022 = 1074 from rfl]
  cases hx with
  | zero s =>
    refine ⟨2 ^ 1074, ?_, le_rfl, by omega⟩
    show Steps (Float.Model.pack (.finite .positive (2 ^ 52) (-52) (by decide))).unpack _
    rw [unpack_pack_of_canonical one_canonical, ← h1074]
    exact hone
  | finite m e h =>
    -- Below one the difference is rounded; at one it is exactly zero.
    rcases ha.lt_or_eq with hlt | heq
    · rw [← h1074] at hlt
      obtain ⟨n, l, hn, hsub, hrange, hvalue⟩ :=
        sub_finite (by decide) h (by decide) hcx.2.1 hlt
      rw [h1074] at hvalue
      -- Rounding is off by half of a step at most, which is where the slack in the sum comes from.
      have hle := hvalue.le_two_pow (j := 1074) (k := 1020) rfl (by omega)
      have hnear := hvalue.near (j := 1074) (k := 1020) rfl (by omega)
      rw [hsub]
      exact ⟨_, steps_of_finite hn hrange (by decide) hle, hle, by omega⟩
    · rw [sub_finite_self (by decide) h (by decide) hcx.2.1 (heq.trans h1074.symm)]
      refine ⟨0, ?_, Nat.zero_le _, by omega⟩
      exact Steps.zero .positive

/-- What is out of range is packed as an infinity. -/
theorem unpack_pack_of_large {m : Nat} {e : Int} (s : Sign) (hm : 0 < m) (he : 971 < e) :
    (Float.Model.pack (.finite s m e hm)).unpack = .infinity s := by
  have hpack : UnpackedFloat.pack format (.finite s m e hm) = packedInfinity format s := by
    unfold UnpackedFloat.pack
    refine if_pos ?_
    show 2 ^ 11 ≤ (e + 1023 + 52).toNat + 1
    omega
  rw [unpack_pack, hpack]
  unfold packedInfinity
  rw [unpack_packComponents]
  rfl

/-- What a canonical float amounts to in steps has 53 binary digits. -/
theorem dvd_steps {u : UnpackedFloat} {a : Nat} (h : Steps u a) (hu : Canonical u) :
    2 ^ (a.log2 - 52) ∣ a := by
  cases h with
  | zero s => exact Nat.dvd_zero _
  | finite m e h =>
    have hlog : m.log2 < 53 := (Nat.log2_lt h.ne').mpr hu.1
    rw [log2_mul_two_pow h]
    exact Dvd.dvd.mul_left (Nat.pow_dvd_pow 2 (by omega)) m

/-- A float that is a number of steps or more, possibly infinite. -/
inductive AtLeast (a : Nat) : UnpackedFloat → Prop
  | infinity : AtLeast a (.infinity .positive)
  | finite (m : Nat) (e : Int) (h : 0 < m) (hle : a ≤ m * 2 ^ (e + 1074).toNat) :
      AtLeast a (.finite .positive m e h)

theorem atLeast_unpack_pack {a m : Nat} {e : Int} (hm : 0 < m) (h : InRange m e)
    (hle : a ≤ m * 2 ^ (e + 1074).toNat) :
    AtLeast a (Float.Model.pack (.finite .positive m e hm)).unpack := by
  by_cases he : e ≤ 971
  · have hc : Canonical (.finite .positive m e hm) := ⟨h.1, h.2.1, he, h.2.2⟩
    rw [unpack_pack_of_canonical hc]
    exact AtLeast.finite m e hm hle
  · rw [unpack_pack_of_large .positive hm (by omega)]
    exact AtLeast.infinity

theorem mul_finite {m k : Nat} {e d : Int} (hm : 0 < m) (hk : 0 < k) (he : -1074 ≤ e + d)
    (ht : 2 ^ 52 ≤ m * k) :
    ∃ n l h, UnpackedFloat.mul format (.finite .positive m e hm) (.finite .positive k d hk) =
        .finite .positive n l h ∧ InRange n l ∧
      Rounds (m * k * 2 ^ (e + d + 1074).toNat) (n * 2 ^ (l + 1074).toNat) := by
  have hpos : 0 < m * k := Nat.mul_pos hm hk
  have hlog : 52 ≤ (m * k).log2 := (Nat.le_log2 hpos.ne').mpr ht
  exact roundWithAccuracy_exact .positive hpos he
    (by
      rw [targetExponent_eq]
      omega)

/-- A whole number in the unit of the product has a product that is not rounded below one. -/
theorem one_le_mul {m m' : Nat} {e e' : Int} (hm : 0 < m) (hm' : 0 < m') (he : -1074 ≤ e + e')
    (ht : 2 ^ 52 ≤ m * m') (hone : 2 ^ 1074 ≤ m * m' * 2 ^ (e + e' + 1074).toNat) :
    AtLeast (2 ^ 1074) (Float.Model.pack (UnpackedFloat.mul format (.finite .positive m e hm)
      (.finite .positive m' e' hm'))).unpack := by
  obtain ⟨n, l, h, hmul, hrange, hvalue⟩ := mul_finite hm hm' he ht
  rw [hmul]
  exact atLeast_unpack_pack h hrange
    (hvalue.le_of_le (dvd_steps steps_one (canonical_unpack _)) hone)

/-- The float of a whole number that fits 53 bits has a mantissa of full length, and is not rounded
below one. -/
theorem exists_toModel_toFloat {n : Nat} (hn : 0 < n) (hlt : n < 2 ^ 53) :
    ∃ m e h, n.toUInt64.toFloat.toModel = Float.Model.pack (.finite .positive m e h) ∧
      Canonical (.finite .positive m e h) ∧ 2 ^ 52 ≤ m ∧ -1022 ≤ e ∧
      2 ^ 1074 ≤ m * 2 ^ (e + 1074).toNat := by
  -- The number is rounded as it is, as it has at most 53 binary digits.
  obtain ⟨m, e, h, hround, hrange, hvalue⟩ :=
    round_finite .positive (m := n) (e := 0) hn (by decide)
  have hnat : n.toUInt64.toNat = n := by
    show n % 2 ^ 64 = n
    omega
  have hfloat : n.toUInt64.toFloat.toModel = Float.Model.pack (.finite .positive m e h) := by
    show Float.Model.pack (UnpackedFloat.normalize format (n.toUInt64.toNat : Int) 0 .positive) = _
    rw [hnat, normalize_pos hn, hround]
  rw [show (0 : Int) + 1074 = (1074 : Nat) from rfl, Int.toNat_natCast] at hvalue
  -- It is at least one, which is a number itself and so not passed by rounding.
  have hone : 2 ^ 1074 ≤ m * 2 ^ (e + 1074).toNat :=
    hvalue.le_of_le (dvd_steps steps_one (canonical_unpack _)) (Nat.le_mul_of_pos_left _ hn)
  -- That bounds the exponent from below, and with it makes the mantissa a full one.
  have he : -1022 ≤ e := by
    have hpos : m * 2 ^ (e + 1074).toNat ≠ 0 := (Nat.mul_pos h (Nat.two_pow_pos _)).ne'
    have hlog : 1074 ≤ (m * 2 ^ (e + 1074).toNat).log2 := by
      generalize 1074 = k at hone ⊢
      exact (Nat.le_log2 hpos).mpr hone
    have hm : m.log2 < 53 := (Nat.log2_lt h.ne').mpr hrange.1
    rw [log2_mul_two_pow h] at hlog
    omega
  have hnormal : 2 ^ 52 ≤ m := by
    rcases hrange.2.2 with h52 | h1074
    · exact h52
    · omega
  have hcanonical : Canonical (.finite .positive m e h) := by
    refine hrange.canonical (k := 1127) (by decide) .positive h ?_
    refine hvalue.le_two_pow (j := 1127) (k := 1073) rfl ?_
    rw [show 1127 = 53 + 1074 from rfl, pow_add]
    exact Nat.le_add_right_of_le (Nat.mul_le_mul_right _ hlt.le)
  exact ⟨m, e, h, hfloat, hcanonical, hnormal, he, hone⟩

/-- The float of a whole number above zero is one or more, however large the number. -/
theorem one_le_ofNat {n : Nat} (hn : 0 < n) :
    AtLeast (2 ^ 1074) (Float.ofNat n).toModel.unpack := by
  show AtLeast (2 ^ 1074) (Float.ofScientific n false 0).toModel.unpack
  unfold Float.ofScientific
  by_cases hlt : n < 2 ^ 53
  -- a number of 53 bits is converted and multiplied by one, the power of ten
  · obtain ⟨m, e, h, hfloat, hcanonical, hnormal, he, hone⟩ := exists_toModel_toFloat hn hlt
    have hunit : (Float.ofBits 0x3FF0000000000000).toModel.unpack =
        .finite .positive (2 ^ 52) (-52) (by decide) := by
      rw [← unpack_one]
      congr 2
    rw [dif_pos ⟨hlt, by decide⟩]
    show AtLeast (2 ^ 1074) (Float.Model.pack (UnpackedFloat.mul format
      n.toUInt64.toFloat.toModel.unpack (Float.ofBits 0x3FF0000000000000).toModel.unpack)).unpack
    rw [hfloat, hunit, unpack_pack_of_canonical hcanonical]
    refine one_le_mul h (by decide) (by omega) (by omega) ?_
    rwa [mul_assoc, ← pow_add, show 52 + (e + -52 + 1074).toNat = (e + 1074).toNat by omega]
  -- a longer one is multiplied as it is, and rounded once
  · rw [dif_neg (by omega)]
    show AtLeast (2 ^ 1074)
      (Float.Model.pack (UnpackedFloat.ofScientific format n (0 : Int))).unpack
    have hbits : (2 : Int) ^ format.exponentBits = 2048 := rfl
    unfold UnpackedFloat.ofScientific
    rw [dif_neg hn.ne', hbits, if_neg (by decide), if_neg (by omega), if_pos le_rfl]
    have hplaces : n <<< format.mantissaBits = n * 2 ^ 53 := Nat.shiftLeft_eq _ _
    refine one_le_mul _ _ (by decide) ?_ ?_ <;> rw [hplaces]
    · show 2 ^ 52 ≤ n * 2 ^ 53 * 1
      omega
    · have hexponent : (-(format.mantissaBits : Int) + 0 + 1074).toNat = 1021 := rfl
      have hpower : 10 ^ (0 : Int).toNat = 1 := rfl
      rw [hexponent, hpower, mul_one, mul_assoc, ← pow_add, show 53 + 1021 = 1074 from rfl]
      exact Nat.le_mul_of_pos_left _ hn

/-- A float above zero. -/
inductive Positive : UnpackedFloat → Prop
  | infinity : Positive (.infinity .positive)
  | finite (m : Nat) (e : Int) (h : 0 < m) : Positive (.finite .positive m e h)

theorem AtLeast.positive {a : Nat} {u : UnpackedFloat} (h : AtLeast a u) : Positive u := by
  cases h with
  | infinity => exact Positive.infinity
  | finite m e h => exact Positive.finite m e h

/-- The float of a whole number above zero is above zero, however large the number. -/
theorem positive_ofNat {n : Nat} (hn : 0 < n) : Positive (Float.ofNat n).toModel.unpack :=
  (one_le_ofNat hn).positive

/-- A product of finite numbers is a number, if not a finite one. -/
theorem isNaN_mul (hx : x.isFinite = true) (hy : y.isFinite = true) : (x * y).isNaN = false := by
  change UnpackedFloat.isFinite x.toModel.unpack = true at hx
  change UnpackedFloat.isFinite y.toModel.unpack = true at hy
  show (Float.Model.pack
    (UnpackedFloat.mul format x.toModel.unpack y.toModel.unpack)).unpack.isNaN = false
  -- Of finite numbers, none of the products that are left is the undefined one of zero and
  -- infinity.
  apply isNaN_unpack_pack
  generalize x.toModel.unpack = u at hx
  generalize y.toModel.unpack = v at hy
  cases u with
  | notANumber => cases hx
  | infinity s => cases hx
  | zero s =>
    cases v with
    | notANumber => cases hy
    | infinity s' => cases hy
    | _ => rfl
  | finite s m e h =>
    cases v with
    | notANumber => cases hy
    | infinity s' => cases hy
    | zero s' => rfl
    | finite s' m' e' h' =>
      show (roundWithAccuracy format _ _ _ _).isNaN = false
      unfold roundWithAccuracy
      simp only
      split <;> rfl

/-- A quotient by what is above zero is a number and not below zero if the dividend is not. -/
theorem nonneg_div {u v : UnpackedFloat} (hu : Nonneg u) (hfin : u.isFinite) (hv : Positive v) :
    Nonneg (UnpackedFloat.div format u v) := by
  cases u with
  | notANumber => cases hu
  | infinity s => cases hfin
  | zero s => cases hv <;> trivial
  | finite s m e h =>
    obtain rfl : s = .positive := hu
    cases hv with
    | infinity => trivial
    | finite m' e' h' =>
      show Nonneg (roundWithAccuracy format .positive _ _ _)
      unfold roundWithAccuracy
      simp only
      split
      · trivial
      · rfl

/-- What lies between zero and a number of steps is a number of steps. -/
theorem steps_of_le {n : Nat} (h0 : 0.0 ≤ x) (hy : Steps y.toModel.unpack n) (hle : x ≤ y) :
    ∃ a, Steps x.toModel.unpack a ∧ a ≤ n := by
  have hsteps : ∃ a, Steps x.toModel.unpack a := by
    rw [nonneg_iff] at h0
    rw [le_iff] at hle
    generalize x.toModel.unpack = u at *
    generalize y.toModel.unpack = v at *
    cases u with
    | notANumber => cases h0
    | infinity s =>
      obtain rfl : s = .positive := h0
      cases hy <;> simp [UnpackedFloat.compare] at hle
    | zero s => exact ⟨0, Steps.zero s⟩
    | finite s m e h =>
      obtain rfl : s = .positive := h0
      exact ⟨_, Steps.finite m e h⟩
  obtain ⟨a, ha⟩ := hsteps
  exact ⟨a, ha, (le_iff_of_steps ha hy).mp hle⟩

theorem isFinite_of_steps {n : Nat} (h : Steps x.toModel.unpack n) : x.isFinite = true := by
  show UnpackedFloat.isFinite x.toModel.unpack = true
  generalize x.toModel.unpack = u at h
  cases h <;> rfl

theorem isFinite_of_unit (h0 : 0.0 ≤ x) (h1 : x ≤ 1.0) : x.isFinite = true := by
  obtain ⟨a, ha, -⟩ := steps_of_le h0 steps_one h1
  exact isFinite_of_steps ha

theorem one_sub_unit (h0 : 0.0 ≤ x) (h1 : x ≤ 1.0) : 0.0 ≤ 1.0 - x ∧ 1.0 - x ≤ 1.0 := by
  obtain ⟨a, ha, ha1⟩ := steps_of_le h0 steps_one h1
  obtain ⟨c, hc, hc1, -⟩ := steps_one_sub ha ha1
  exact ⟨(le_iff_of_steps steps_zero hc).mpr (Nat.zero_le c),
    (le_iff_of_steps hc steps_one).mpr hc1⟩

/-- A place and an extent that is at most what the place leaves of one add up to one at most,
although both the difference and the sum are rounded. -/
theorem add_le_one (hx0 : 0.0 ≤ x) (hx1 : x ≤ 1.0) (hy0 : 0.0 ≤ y) (hy : y ≤ 1.0 - x) :
    x + y ≤ 1.0 := by
  obtain ⟨a, ha, ha1⟩ := steps_of_le hx0 steps_one hx1
  obtain ⟨c, hc, hc1, hac⟩ := steps_one_sub ha ha1
  obtain ⟨b, hb, hbc⟩ := steps_of_le hy0 hc hy
  obtain ⟨d, hd, hd1⟩ := steps_add ha hb ha1 (hbc.trans hc1) (by omega)
  exact (le_iff_of_steps hd steps_one).mpr hd1

end Wireframe.Binary64
