/-
Colours and the texts that name them.

A text names a colour by six or eight hexadecimal digits in either case, behind any number of number
signs and between blanks.  Six digits are those of red, green and blue, and nothing shows through;
eight begin with those of the opacity.  A colour is written with the fewest digits, in lower case.

* `IsHex`, `hexNumber` — hexadecimal digits, and the number that they stand for;
* `ofHex?_eq_some_iff`, `hexDigits_hexNumber` — digits read and written;
* `Shows`, `shade` — the digits that a text shows, and the colour that they are those of;
* `parse?_eq_some_iff` — the texts that name colours;
* `parse?_text`, `text_of_shade` — the text of a colour;
* `texts_exact` — colours and texts together.
-/
import Mathlib.Data.Nat.Digits.Defs
import Wireframe.Design.Color
import Wireframe.Proofs.Json.Quoted
import Wireframe.Proofs.Text.Letters
import Wireframe.Proofs.Text.Trimming

namespace Wireframe.Design.Color

open Json Text

/-! ### Opacity -/

theorem alpha_eq_iff {c : Color} : c.alpha = 0xFF ↔ c.argb.toNat / 2 ^ 24 = 255 := by
  have hlt := c.argb.toNat_lt
  rw [← UInt8.toNat_inj]
  simp [alpha, Nat.shiftRight_eq_div_pow]
  omega

theorem toNat_ofRgb {n : Nat} (h : n < 2 ^ 24) :
    (ofRgb n.toUInt32).argb.toNat = 0xFF000000 + n := by
  have hlow : n.toUInt32.toNat = n := by
    simp only [Nat.toUInt32, UInt32.toNat_ofNat']
    omega
  -- the opaque byte and the 24 bits below it do not overlap
  have hmask : n &&& 0x00FFFFFF = n := by
    rw [show 0x00FFFFFF = 2 ^ 24 - 1 from rfl, Nat.and_two_pow_sub_one_eq_mod, Nat.mod_eq_of_lt h]
  have hjoin : 0xFF000000 ||| n = 0xFF000000 + n :=
    (Nat.shiftLeft_add_eq_or_of_lt (i := 24) h 255).symm
  rw [ofRgb, UInt32.toNat_or, UInt32.toNat_and, hlow]
  change 0xFF000000 ||| (n &&& 0x00FFFFFF) = _
  rw [hmask, hjoin]

/-! ### Digits -/

/-- The hexadecimal digits in lower case, in the order of what they count. -/
def lowerDigits : List Char := "0123456789abcdef".toList

/-- A hexadecimal digit in either case. -/
def IsHex (c : Char) : Prop := c.toLower ∈ lowerDigits

instance (c : Char) : Decidable (IsHex c) := inferInstanceAs (Decidable (_ ∈ _))

/-- What a hexadecimal digit counts. -/
def hexWorth (c : Char) : Nat := lowerDigits.idxOf c.toLower

/-- The number that hexadecimal digits stand for. -/
def hexNumber (digits : List Char) : Nat := Nat.ofDigits 16 (digits.map hexWorth).reverse

theorem toNat_lt_of_isHex {c : Char} (h : IsHex c) : c.toNat < 128 := by
  by_contra hc
  have hupper : ¬ c.isUpper := by
    rw [isUpper_iff]
    omega
  have ascii : lowerDigits.all (·.toNat < 128) = true := by decide
  rw [IsHex, toLower_of_not_isUpper hupper] at h
  exact hc (of_decide_eq_true (List.all_eq_true.mp ascii c h))

theorem plain_of_isHex {c : Char} (h : IsHex c) : isBlank c = false ∧ c ≠ '#' := by
  have ascii : ∀ n < 128, IsHex (Char.ofNat n) →
      isBlank (Char.ofNat n) = false ∧ Char.ofNat n ≠ '#' := by decide +kernel
  have hplain := ascii c.toNat (toNat_lt_of_isHex h)
  rw [Char.ofNat_toNat] at hplain
  exact hplain h

theorem hexWorth_lt {c : Char} (h : IsHex c) : hexWorth c < 16 := List.idxOf_lt_length_iff.mpr h

theorem hexDigit_hexWorth {c : Char} (h : IsHex c) : hexDigit (hexWorth c) = c.toLower := by
  have digits : lowerDigits.all (fun d => hexDigit (lowerDigits.idxOf d) == d) = true := by decide
  exact beq_iff_eq.mp (List.all_eq_true.mp digits _ h)

theorem hexValue?_eq (c : Char) : hexValue? c = if IsHex c then some (hexWorth c) else none := by
  by_cases hc : c.toNat < 128
  · have ascii : ∀ n < 128, hexValue? (Char.ofNat n) =
        if IsHex (Char.ofNat n) then some (hexWorth (Char.ofNat n)) else none := by decide +kernel
    simpa only [Char.ofNat_toNat] using ascii c.toNat hc
  · have hrange {low high : Char} (h : high.toNat < 128) : ¬ (low ≤ c ∧ c ≤ high) := by
      rintro ⟨-, hle⟩
      exact hc (Nat.lt_of_le_of_lt hle h)
    rw [hexValue?, if_neg (hrange (by decide)), if_neg (hrange (by decide)),
      if_neg (hrange (by decide)), if_neg fun h => hc (toNat_lt_of_isHex h)]

theorem foldl_eq_ofDigits (values : List Nat) (n : Nat) :
    values.foldl (fun n d => n * 16 + d) n =
      n * 16 ^ values.length + Nat.ofDigits 16 values.reverse := by
  induction values generalizing n with
  | nil => simp
  | cons d rest ih =>
    rw [List.foldl_cons, ih, List.reverse_cons, Nat.ofDigits_append, List.length_reverse,
      Nat.ofDigits_singleton, List.length_cons, pow_succ]
    ring

theorem mapM_hexValue?_eq_some_iff {digits : List Char} {values : List Nat} :
    digits.mapM hexValue? = some values ↔
      (∀ d ∈ digits, IsHex d) ∧ values = digits.map hexWorth := by
  induction digits generalizing values with
  | nil => simp [eq_comm]
  | cons d rest ih =>
    rw [List.mapM_cons, hexValue?_eq, List.forall_mem_cons]
    by_cases hd : IsHex d
    · simp only [if_pos hd, Option.bind_eq_bind, Option.bind_some, Option.bind_eq_some_iff, ih,
        Option.pure_def, Option.some_inj]
      constructor
      · rintro ⟨others, ⟨hrest, rfl⟩, rfl⟩
        exact ⟨⟨hd, hrest⟩, rfl⟩
      · rintro ⟨⟨-, hrest⟩, rfl⟩
        exact ⟨_, ⟨hrest, rfl⟩, rfl⟩
    · rw [if_neg hd]
      exact ⟨nofun, fun h => absurd h.1.1 hd⟩

/-- Characters are read as a number exactly if all of them are digits. -/
theorem ofHex?_eq_some_iff {digits : List Char} {n : Nat} :
    ofHex? digits = some n ↔ (∀ d ∈ digits, IsHex d) ∧ n = hexNumber digits := by
  have hnumber : (digits.map hexWorth).foldl (fun n d => n * 16 + d) 0 = hexNumber digits := by
    rw [foldl_eq_ofDigits, Nat.zero_mul, Nat.zero_add, hexNumber]
  rw [ofHex?, Option.map_eq_some_iff]
  simp only [mapM_hexValue?_eq_some_iff]
  constructor
  · rintro ⟨values, ⟨hdigits, rfl⟩, rfl⟩
    exact ⟨hdigits, hnumber⟩
  · rintro ⟨hdigits, rfl⟩
    exact ⟨_, ⟨hdigits, rfl⟩, hnumber⟩

theorem hexNumber_concat (digits : List Char) (d : Char) :
    hexNumber (digits ++ [d]) = hexNumber digits * 16 + hexWorth d := by
  simp only [hexNumber, List.map_append, List.map_singleton, List.reverse_append,
    List.reverse_singleton, List.singleton_append, Nat.ofDigits_cons]
  ring

theorem hexNumber_lt {digits : List Char} (h : ∀ d ∈ digits, IsHex d) :
    hexNumber digits < 16 ^ digits.length := by
  have hlt := Nat.ofDigits_lt_base_pow_length (b := 16) (l := (digits.map hexWorth).reverse)
    (by decide) fun n hn => by
      obtain ⟨d, hd, rfl⟩ := List.mem_map.mp (List.mem_reverse.mp hn)
      exact hexWorth_lt (h d hd)
  rwa [List.length_reverse, List.length_map] at hlt

theorem length_hexDigits (count n : Nat) : (hexDigits count n).length = count := by
  induction count generalizing n with
  | zero => rfl
  | succ count ih => rw [hexDigits, List.length_append, ih, List.length_singleton]

/-- The digits of the number that some digits stand for are these, in lower case. -/
theorem hexDigits_hexNumber {digits : List Char} (h : ∀ d ∈ digits, IsHex d) :
    hexDigits digits.length (hexNumber digits) = digits.map Char.toLower := by
  induction digits using List.reverseRecOn with
  | nil => rfl
  | append_singleton digits d ih =>
    obtain ⟨hdigits, hd⟩ := List.forall_mem_append.mp h
    have hd := hd d List.mem_cons_self
    have hlt := hexWorth_lt hd
    have hdiv : (hexNumber digits * 16 + hexWorth d) / 16 = hexNumber digits := by omega
    have hmod : hexDigit (hexNumber digits * 16 + hexWorth d) = hexDigit (hexWorth d) := by
      simp only [hexDigit, Nat.mul_add_mod_self_right]
    rw [hexNumber_concat, List.length_append, List.length_singleton, hexDigits, hdiv, ih hdigits,
      hmod, hexDigit_hexWorth hd, List.map_append, List.map_singleton]

theorem isHex_hexDigit (n : Nat) : IsHex (hexDigit n) ∧ hexWorth (hexDigit n) = n % 16 := by
  have digits : ∀ d < 16, IsHex (Nat.digitChar d) ∧ hexWorth (Nat.digitChar d) = d := by decide
  exact digits (n % 16) (Nat.mod_lt n (by decide))

theorem isHex_of_mem_hexDigits {count n : Nat} {d : Char} (h : d ∈ hexDigits count n) :
    IsHex d := by
  induction count generalizing n with
  | zero => cases h
  | succ count ih =>
      rcases List.mem_append.mp h with h | h
      · exact ih h
      · rw [List.mem_singleton.mp h]
        exact (isHex_hexDigit n).1

/-- The lowest digits of a number stand for what is left of it modulo a power of sixteen. -/
theorem hexNumber_hexDigits (count n : Nat) : hexNumber (hexDigits count n) = n % 16 ^ count := by
  induction count generalizing n with
  | zero => rw [pow_zero, Nat.mod_one]; rfl
  | succ count ih =>
      rw [hexDigits, hexNumber_concat, ih, (isHex_hexDigit n).2, pow_succ', Nat.mod_mul]
      ring

/-- The digits of a number in two parts. -/
theorem hexDigits_add (count more n : Nat) :
    hexDigits (count + more) n = hexDigits count (n / 16 ^ more) ++ hexDigits more n := by
  induction more generalizing n with
  | zero => simp [hexDigits]
  | succ more ih =>
    rw [← Nat.add_assoc, hexDigits, ih, hexDigits, Nat.div_div_eq_div_mul, ← pow_succ',
      List.append_assoc]

theorem hexDigits_mod (count n : Nat) : hexDigits count (n % 16 ^ count) = hexDigits count n := by
  induction count generalizing n with
  | zero => rfl
  | succ count ih =>
    have hdiv : n % 16 ^ (count + 1) / 16 = n / 16 % 16 ^ count := by
      rw [pow_succ', Nat.mod_mul_right_div_self]
    have hmod : n % 16 ^ (count + 1) % 16 = n % 16 :=
      Nat.mod_mod_of_dvd n (Dvd.intro_left _ (pow_succ 16 count).symm)
    rw [hexDigits, hdiv, ih, hexDigit, hmod, hexDigits, hexDigit]

/-- The digits of a colour: those of its opacity, and those of what is below it. -/
theorem hexDigits_eight (n : Nat) : hexDigits 8 n = hexDigits 2 (n / 2 ^ 24) ++ hexDigits 6 n :=
  hexDigits_add 2 6 n

/-! ### Texts that name colours -/

/-- A text shows six or eight hexadecimal digits, behind any number of number signs and between
blanks. -/
structure Shows (text : String) (digits : List Char) : Prop where
  isHex : ∀ d ∈ digits, IsHex d
  length : digits.length = 6 ∨ digits.length = 8
  around : ∃ before signs after, text.toList = before ++ (signs ++ digits) ++ after ∧
    (∀ c ∈ before, isBlank c) ∧ (∀ c ∈ signs, c = '#') ∧ ∀ c ∈ after, isBlank c

/-- Opacity, red, green and blue of the colour with given digits, as one number; nothing shows through
if the digits of the opacity are left out. -/
def shade (digits : List Char) : Nat :=
  if digits.length = 6 then 0xFF000000 + hexNumber digits else hexNumber digits

/-- What is left of a text that shows digits. -/
theorem Shows.trimmed {text : String} {digits : List Char} (h : Shows text digits) :
    (trimWhile isBlank text.toList).dropWhile (· == '#') = digits := by
  obtain ⟨before, signs, after, htext, hbefore, hsigns, hafter⟩ := h.around
  have hsign : ∀ c ∈ signs, (c == '#') = true := fun c hc => beq_iff_eq.mpr (hsigns c hc)
  have hplain : ∀ c ∈ signs ++ digits, isBlank c = false := by
    rw [List.forall_mem_append]
    refine ⟨fun c hc => ?_, fun c hc => (plain_of_isHex (h.isHex c hc)).1⟩
    rw [hsigns c hc]
    rfl
  rw [htext, trimWhile_append hbefore hafter, trimWhile_of_all hplain,
    List.dropWhile_append_of_pos hsign]
  exact dropWhile_of_all fun c hc => beq_eq_false_iff_ne.mpr (plain_of_isHex (h.isHex c hc)).2

theorem shows_of_trimmed {text : String} {digits : List Char}
    (h : (trimWhile isBlank text.toList).dropWhile (· == '#') = digits)
    (hhex : ∀ d ∈ digits, IsHex d) (hlength : digits.length = 6 ∨ digits.length = 8) :
    Shows text digits := by
  obtain ⟨before, after, htext, hblank⟩ := exists_trimWhile isBlank text.toList
  obtain ⟨hbefore, hafter⟩ := List.forall_mem_append.mp hblank
  have hsigns : ∀ c ∈ (trimWhile isBlank text.toList).takeWhile (· == '#'), c = '#' := by
    intro c hc
    have hsign := List.mem_takeWhile_imp hc
    exact beq_iff_eq.mp hsign
  refine ⟨hhex, hlength, before, (trimWhile isBlank text.toList).takeWhile (· == '#'), after, ?_,
    hbefore, hsigns, hafter⟩
  rw [← h, List.takeWhile_append_dropWhile]
  exact htext

theorem shade_lt {digits : List Char} (hhex : ∀ d ∈ digits, IsHex d)
    (hlength : digits.length = 6 ∨ digits.length = 8) : shade digits < 2 ^ 32 := by
  have hsmall := hexNumber_lt hhex
  unfold shade
  rcases hlength with hsix | height
  · rw [hsix] at hsmall
    rw [if_pos hsix]
    omega
  · rw [height] at hsmall
    rw [if_neg (by omega)]
    omega

/-- A text that shows digits names the colour of these. -/
theorem Shows.parse?_eq {text : String} {digits : List Char} (h : Shows text digits) :
    parse? text = some ⟨(shade digits).toUInt32⟩ := by
  have hn := ofHex?_eq_some_iff.mpr ⟨h.isHex, rfl⟩
  have hsmall := hexNumber_lt h.isHex
  rw [parse?, h.trimmed, hn]
  rcases h.length with hsix | height
  · rw [hsix] at hsmall ⊢
    have hshade := toNat_ofRgb hsmall
    rw [shade, if_pos hsix, ← hshade]
    exact congrArg (some ∘ Color.mk) UInt32.ofNat_toNat.symm
  · rw [height, shade, if_neg (by omega)]
    rfl

/-- A text names a colour exactly if it shows digits, and it is the colour of these. -/
theorem parse?_eq_some_iff {text : String} {c : Color} :
    parse? text = some c ↔ ∃ digits, Shows text digits ∧ c.argb.toNat = shade digits := by
  constructor
  · intro h
    obtain ⟨digits, hshows⟩ : ∃ digits, Shows text digits := by
      unfold parse? at h
      extract_lets digits at h
      refine ⟨digits, ?_⟩
      split at h
      · rename_i n hn hsix
        exact shows_of_trimmed rfl (ofHex?_eq_some_iff.mp hn).1 (.inl hsix)
      · rename_i n hn height
        exact shows_of_trimmed rfl (ofHex?_eq_some_iff.mp hn).1 (.inr height)
      · cases h
    rw [hshows.parse?_eq] at h
    obtain rfl := Option.some.inj h
    exact ⟨digits, hshows, UInt32.toNat_ofNat_of_lt' (shade_lt hshows.isHex hshows.length)⟩
  · rintro ⟨digits, hshows, hc⟩
    rw [hshows.parse?_eq, ← hc]
    exact congrArg (some ∘ Color.mk) UInt32.ofNat_toNat

/-! ### Texts of colours -/

theorem shows_hexDigits {count : Nat} (h : count = 6 ∨ count = 8) (n : Nat) :
    Shows (String.ofList ('#' :: hexDigits count n)) (hexDigits count n) where
  isHex _ hd := isHex_of_mem_hexDigits hd
  length := by rwa [length_hexDigits]
  around := ⟨[], ['#'], [], by rw [String.toList_ofList, List.append_nil]; rfl, by simp, by simp,
    by simp⟩

/-- The text of a colour names the colour. -/
theorem parse?_text (c : Color) : parse? c.text = some c := by
  have hlt := c.argb.toNat_lt
  refine parse?_eq_some_iff.mpr ?_
  unfold text
  split
  · rename_i halpha
    have hfull := alpha_eq_iff.mp halpha
    refine ⟨_, shows_hexDigits (.inl rfl) _, ?_⟩
    rw [shade, if_pos (length_hexDigits 6 _), hexNumber_hexDigits]
    omega
  · refine ⟨_, shows_hexDigits (.inr rfl) _, ?_⟩
    rw [shade, length_hexDigits, if_neg (by decide), hexNumber_hexDigits]
    omega

/-- The digits that the colour with given digits is written with. -/
def writtenDigits (digits : List Char) : List Char :=
  let lower := digits.map Char.toLower
  if lower.length = 8 ∧ lower.take 2 = ['f', 'f'] then lower.drop 2 else lower

/-- The colour of some digits is written with the same digits, in lower case, and without those of its
opacity if nothing shows through. -/
theorem text_of_shade {digits : List Char} {c : Color} (hhex : ∀ d ∈ digits, IsHex d)
    (hlength : digits.length = 6 ∨ digits.length = 8) (hc : c.argb.toNat = shade digits) :
    c.text = String.ofList ('#' :: writtenDigits digits) := by
  have hsmall := hexNumber_lt hhex
  have hdigits := hexDigits_hexNumber hhex
  rcases hlength with hsix | height
  · rw [hsix] at hsmall hdigits
    rw [shade, if_pos hsix] at hc
    have hfull : c.alpha = 0xFF := alpha_eq_iff.mpr (by omega)
    have hlow : c.argb.toNat % 16 ^ 6 = hexNumber digits := by omega
    rw [text, if_pos hfull, ← hexDigits_mod, hlow, hdigits, writtenDigits, List.length_map,
      if_neg (by omega)]
  · rw [height] at hsmall hdigits
    rw [hexDigits_eight] at hdigits
    rw [shade, if_neg (by omega)] at hc
    have htop := length_hexDigits 2 (hexNumber digits / 2 ^ 24)
    rw [text, hexDigits_eight, hc, writtenDigits, ← hdigits, List.take_left' htop,
      List.drop_left' htop, List.length_append, htop, length_hexDigits]
    -- the first two digits show whether anything shows through
    have hfull : hexDigits 2 (hexNumber digits / 2 ^ 24) = ['f', 'f'] ↔ c.alpha = 0xFF := by
      rw [alpha_eq_iff, hc]
      refine ⟨fun h => ?_, fun h => by rw [h]; rfl⟩
      have hvalue := hexNumber_hexDigits 2 (hexNumber digits / 2 ^ 24)
      rw [h, show hexNumber ['f', 'f'] = 255 from rfl] at hvalue
      omega
    by_cases h : c.alpha = 0xFF
    · rw [if_pos h, if_pos ⟨rfl, hfull.mpr h⟩]
    · rw [if_neg h, if_neg fun hff => h (hfull.mp hff.2)]

theorem length_text (c : Color) : c.text.length = if c.alpha = 0xFF then 7 else 9 := by
  unfold text
  split <;> rw [String.length_ofList, List.length_cons, length_hexDigits]

/-- A text names a colour exactly if it shows six or eight hexadecimal digits, and the colour is that
of the digits.  Every colour is named by its own text, which is written with the digits of any text
that names the colour, in lower case, and with six of them exactly if nothing shows through. -/
theorem texts_exact :
    (∀ text, (parse? text).isSome ↔ ∃ digits, Shows text digits) ∧
      (∀ text c, parse? text = some c ↔
        ∃ digits, Shows text digits ∧ c.argb.toNat = shade digits) ∧
      (∀ c : Color, parse? c.text = some c) ∧
      (∀ text digits c, Shows text digits → parse? text = some c →
        c.text = String.ofList ('#' :: writtenDigits digits)) ∧
      ∀ c : Color, c.text.length = if c.alpha = 0xFF then 7 else 9 := by
  refine ⟨fun text => ⟨fun h => ?_, fun h => ?_⟩, fun text c => parse?_eq_some_iff, parse?_text,
    fun text digits c hshows hc => ?_, length_text⟩
  · obtain ⟨c, hc⟩ := Option.isSome_iff_exists.mp h
    obtain ⟨digits, hshows, -⟩ := parse?_eq_some_iff.mp hc
    exact ⟨digits, hshows⟩
  · obtain ⟨digits, hshows⟩ := h
    rw [hshows.parse?_eq]
    rfl
  · obtain ⟨others, hothers, hshade⟩ := parse?_eq_some_iff.mp hc
    -- a text shows the same digits in any way that it is taken apart
    obtain rfl : others = digits := hothers.trimmed.symm.trans hshows.trimmed
    exact text_of_shade hothers.isHex hothers.length hshade

theorem texts_exact_paleRed :
    Shows " ##7Fd0000A\n" "7Fd0000A".toList ∧
      parse? " ##7Fd0000A\n" = some ⟨0x7FD0000A⟩ ∧
      (⟨0x7FD0000A⟩ : Color).text = "#7fd0000a" ∧ (ofRgb 0xD0000A).text.length = 7 ∧
      (∀ text ∈ ["+12345", "# 123456", "#0000123456", "##"], ¬ ∃ digits, Shows text digits) := by
  obtain ⟨hsome, hnames, -, hwritten, hlength⟩ := texts_exact
  have hshows : Shows " ##7Fd0000A\n" "7Fd0000A".toList := by
    refine ⟨?_, .inr rfl, [' '], ['#', '#'], ['\n'], by decide, ?_, ?_, ?_⟩
    · have hdigits : "7Fd0000A".toList.all (IsHex ·) = true := by decide
      exact fun d hd => of_decide_eq_true (List.all_eq_true.mp hdigits d hd)
    · exact List.forall_mem_singleton.mpr rfl
    · exact List.forall_mem_cons.mpr ⟨rfl, List.forall_mem_singleton.mpr rfl⟩
    · exact List.forall_mem_singleton.mpr rfl
  have hparse : parse? " ##7Fd0000A\n" = some ⟨0x7FD0000A⟩ :=
    (hnames _ _).mpr ⟨_, hshows, by decide⟩
  refine ⟨hshows, hparse, hwritten _ _ _ hshows hparse, hlength _, fun text htext => ?_⟩
  rw [← hsome]
  revert text
  decide +kernel

end Wireframe.Design.Color
