/-
Numbers that are read back.

A number is read up to the first character that it cannot go on with.  In a document a comma or a
line break stands there, or the document ends.

* `Stops` — what no number goes on into;
* `Number.ReadsBack` — the text of the number is read as the number itself;
* `Number.ReadsBack.read` — it is so read in front of anything that stops it;
* `readsBack_int` — whole numbers of 64 bits are read back.
-/
import Mathlib.Data.List.Basic
import Wireframe.Json.Printer
import Wireframe.Json.Reader
import Wireframe.Proofs.Json.Quoted
import Wireframe.Proofs.Outcome

namespace Wireframe.Json

/-- Nothing, or something that no number goes on with. -/
def Stops : Source → Prop
  | [] => True
  | .char c :: _ => c = ',' ∨ c = '\n'
  | .stray _ :: _ => False

/-- The text of the number is read as the number itself. -/
def Number.ReadsBack (n : Number) : Prop := readNumber (Source.ofChars n.text) = .ok (n, [])

deriving instance DecidableEq for Number

instance (n : Number) : Decidable n.ReadsBack :=
  inferInstanceAs (Decidable (readNumber (Source.ofChars n.text) = .ok (n, [])))

/-! ### What follows a number -/

section Append

variable {rest : Source}

theorem readDigits_of_stops (h : Stops rest) : readDigits rest = ([], rest) := by
  match rest, h with
  | [], _ => rfl
  | .char c :: tail, h =>
      rcases h with rfl | rfl <;> rfl

theorem readDigits_append (h : Stops rest) (source : Source) :
    readDigits (source ++ rest) = ((readDigits source).1, (readDigits source).2 ++ rest) := by
  induction source with
  | nil => exact readDigits_of_stops h
  | cons symbol source ih =>
      cases symbol with
      | stray b => rfl
      | char c =>
          rw [List.cons_append, readDigits, readDigits]
          cases digit? c with
          | none => rfl
          | some d => rw [ih]

theorem readDigits1_eq_ok {source : Source} {digits : List Nat} {left : Source} :
    readDigits1 source = .ok (digits, left) ↔ readDigits source = (digits, left) ∧ digits ≠ [] := by
  unfold readDigits1
  cases hread : readDigits source with
  | mk ds left' =>
      cases ds with
      | nil =>
          cases source <;> simp only [reduceCtorEq, Prod.mk.injEq, false_iff, not_and]
          · rintro ⟨rfl, -⟩ hne
            exact hne rfl
          · rintro ⟨rfl, -⟩ hne
            exact hne rfl
      | cons d ds =>
          simp only [Except.ok.injEq, Prod.mk.injEq]
          constructor
          · rintro ⟨rfl, rfl⟩
            exact ⟨⟨rfl, rfl⟩, List.cons_ne_nil d ds⟩
          · rintro ⟨h, -⟩
            exact h

/-- A number that is read up to its end is read up to there in front of anything that stops it; so
is each of its parts. -/
theorem readDigits1_append (h : Stops rest) {source left : Source} {digits : List Nat}
    (hread : readDigits1 source = .ok (digits, left)) :
    readDigits1 (source ++ rest) = .ok (digits, left ++ rest) := by
  obtain ⟨hdigits, hne⟩ := readDigits1_eq_ok.mp hread
  refine readDigits1_eq_ok.mpr ⟨?_, hne⟩
  rw [readDigits_append h, hdigits]

namespace Numeral

theorem readWhole_append (h : Stops rest) {source left : Source} {digits : List Nat}
    (hread : readWhole source = .ok (digits, left)) :
    readWhole (source ++ rest) = .ok (digits, left ++ rest) := by
  rw [readWhole, bind_eq_ok] at hread
  obtain ⟨⟨ds, behind⟩, hdigits, hread⟩ := hread
  rw [readWhole]
  refine bind_eq_ok.mpr ⟨_, readDigits1_append h hdigits, ?_⟩
  dsimp only at hread ⊢
  split at hread
  · cases hread
  · cases hread
    rfl

theorem readFraction_append (h : Stops rest) {source left : Source} {fraction : Option (List Nat)}
    (hread : readFraction source = .ok (fraction, left)) :
    readFraction (source ++ rest) = .ok (fraction, left ++ rest) := by
  match source with
  | [] =>
      -- Nothing is left, so the fraction is absent if what follows opens with none.
      cases hread
      match rest, h with
      | [], _ => rfl
      | .char c :: tail, h => rcases h with rfl | rfl <;> rfl
  | .stray b :: source =>
      cases hread
      rfl
  | .char c :: source =>
      by_cases hc : c = '.'
      -- Only a point opens a fraction.
      · subst hc
        simp only [readFraction, List.cons_append, bind_eq_ok] at hread ⊢
        obtain ⟨⟨ds, behind⟩, hdigits, hread⟩ := hread
        cases hread
        exact ⟨_, readDigits1_append h hdigits, rfl⟩
      -- Any other letter is left, whatever follows it.
      · have hpass (tail : Source) :
            readFraction (.char c :: tail) = .ok (none, .char c :: tail) := by
          rw [readFraction]
          rintro rest heq
          cases heq
          exact hc rfl
        rw [hpass] at hread
        cases hread
        exact hpass (source ++ rest)

theorem readPowerSign_append (h : Stops rest) (source : Source) :
    readPowerSign (source ++ rest) =
      ((readPowerSign source).1, (readPowerSign source).2 ++ rest) := by
  match source with
  | [] =>
      match rest, h with
      | [], _ => rfl
      | .char c :: tail, h => rcases h with rfl | rfl <;> rfl
  | .stray b :: source => rfl
  | .char c :: source =>
      rw [List.cons_append]
      unfold readPowerSign
      split <;> simp_all

theorem readPower_append (h : Stops rest) {source left : Source} {power : Option Int}
    (hread : readPower source = .ok (power, left)) :
    readPower (source ++ rest) = .ok (power, left ++ rest) := by
  match source with
  | [] =>
      cases hread
      match rest, h with
      | [], _ => rfl
      | .char c :: tail, h => rcases h with rfl | rfl <;> rfl
  | .stray b :: source =>
      cases hread
      rfl
  | .char c :: source =>
      rw [List.cons_append]
      simp only [readPower] at hread ⊢
      -- Only these two letters open an exponent; any other is left as it is.
      by_cases hc : c = 'e' ∨ c = 'E'
      · rw [if_pos hc] at hread ⊢
        rw [readPowerSign_append h]
        obtain ⟨⟨ds, behind⟩, hdigits, hread⟩ := bind_eq_ok.mp hread
        cases hread
        exact bind_eq_ok.mpr ⟨_, readDigits1_append h hdigits, rfl⟩
      · rw [if_neg hc] at hread ⊢
        cases hread
        rfl

theorem readUnsigned_append (h : Stops rest) {negative : Bool} {source left : Source} {n : Numeral}
    (hread : readUnsigned negative source = .ok (n, left)) :
    readUnsigned negative (source ++ rest) = .ok (n, left ++ rest) := by
  rw [readUnsigned, bind_eq_ok] at hread
  obtain ⟨⟨whole, behindWhole⟩, hwhole, hread⟩ := hread
  obtain ⟨⟨fraction, behindFraction⟩, hfraction, hread⟩ := bind_eq_ok.mp hread
  obtain ⟨⟨power, behindPower⟩, hpower, hread⟩ := bind_eq_ok.mp hread
  cases hread
  rw [readUnsigned]
  refine bind_eq_ok.mpr ⟨_, readWhole_append h hwhole, ?_⟩
  refine bind_eq_ok.mpr ⟨_, readFraction_append h hfraction, ?_⟩
  exact bind_eq_ok.mpr ⟨_, readPower_append h hpower, rfl⟩

theorem read_append (h : Stops rest) {source left : Source} {n : Numeral}
    (hread : read source = .ok (n, left)) : read (source ++ rest) = .ok (n, left ++ rest) := by
  match source with
  | [] => cases hread
  | .stray b :: source => cases hread
  | .char c :: source =>
      by_cases hc : c = '-'
      · subst hc
        change readUnsigned true (source ++ rest) = _
        exact readUnsigned_append h hread
      · have hunsigned (tail : Source) :
            read (.char c :: tail) = readUnsigned false (.char c :: tail) := by
          rw [read]
          rintro rest heq
          cases heq
          exact hc rfl
        rw [hunsigned] at hread
        rw [List.cons_append, hunsigned]
        exact readUnsigned_append h hread

end Numeral

theorem readNumber_append (h : Stops rest) {source left : Source} {n : Number}
    (hread : readNumber source = .ok (n, left)) :
    readNumber (source ++ rest) = .ok (n, left ++ rest) := by
  rw [readNumber, bind_eq_ok] at hread
  obtain ⟨⟨numeral, behind⟩, hnumeral, hread⟩ := hread
  rw [readNumber]
  refine bind_eq_ok.mpr ⟨_, Numeral.read_append h hnumeral, ?_⟩
  dsimp only at hread ⊢
  cases hvalue : numeral.evaluate with
  | none =>
      rw [hvalue] at hread
      cases hread
  | some value =>
      rw [hvalue] at hread
      cases hread
      rfl

/-- A number that is read back is so in front of anything that stops it. -/
theorem Number.ReadsBack.read {n : Number} (hn : n.ReadsBack) (h : Stops rest) :
    readNumber (Source.ofChars n.text ++ rest) = .ok (n, rest) :=
  readNumber_append h hn

end Append

/-! ### How a number starts -/

theorem exists_digit_of_readDigits1 {source : Source} {result : List Nat × Source}
    (h : readDigits1 source = .ok result) : ∃ c tail, source = .char c :: tail ∧ c.isDigit := by
  obtain ⟨hdigits, hne⟩ := readDigits1_eq_ok.mp h
  match source with
  | [] =>
      rw [readDigits] at hdigits
      · exact absurd (congrArg Prod.fst hdigits).symm hne
      · simp
  | .stray b :: source => exact absurd (congrArg Prod.fst hdigits).symm hne
  | .char c :: source =>
      by_cases hc : c.isDigit
      · exact ⟨c, source, rfl, hc⟩
      · rw [readDigits, digit?, if_neg hc] at hdigits
        exact absurd (congrArg Prod.fst hdigits).symm hne

theorem Numeral.exists_digit_of_readUnsigned {negative : Bool} {source : Source}
    {result : Numeral × Source} (h : Numeral.readUnsigned negative source = .ok result) :
    ∃ c tail, source = .char c :: tail ∧ c.isDigit := by
  rw [Numeral.readUnsigned, bind_eq_ok] at h
  obtain ⟨whole, hwhole, -⟩ := h
  rw [Numeral.readWhole, bind_eq_ok] at hwhole
  obtain ⟨digits, hdigits, -⟩ := hwhole
  exact exists_digit_of_readDigits1 hdigits

theorem exists_startsNumber_of_readNumber {source : Source} {result : Number × Source}
    (h : readNumber source = .ok result) :
    ∃ c tail, source = .char c :: tail ∧ startsNumber c := by
  rw [readNumber, bind_eq_ok] at h
  obtain ⟨n, hread, -⟩ := h
  unfold Numeral.read at hread
  split at hread
  · exact ⟨'-', _, rfl, rfl⟩
  · obtain ⟨c, tail, rfl, hc⟩ := Numeral.exists_digit_of_readUnsigned hread
    exact ⟨c, tail, rfl, by simp [startsNumber, hc]⟩

/-! ### Whole numbers -/

/-- The decimal digits of a number. -/
def decimals (m : Nat) : List Nat := (Nat.toDigits 10 m).map fun c => c.toNat - '0'.toNat

theorem decimals_of_lt {m : Nat} (h : m < 10) : decimals m = [m] := by
  have digits : ∀ d < 10, (Nat.digitChar d).toNat - '0'.toNat = d := by decide
  rw [decimals, Nat.toDigits_of_lt_base h, List.map_singleton, digits m h]

theorem decimals_of_le {m : Nat} (h : 10 ≤ m) : decimals m = decimals (m / 10) ++ [m % 10] := by
  have hlast := decimals_of_lt (Nat.mod_lt m (by decide : 0 < 10))
  rw [decimals, Nat.toDigits_of_lt_base (Nat.mod_lt m (by decide))] at hlast
  rw [decimals, Nat.toDigits_of_base_le (by decide) h, List.map_append, ← hlast]
  rfl

/-- A number without its last digit. -/
theorem decimals_induction {P : Nat → Prop} (small : ∀ m < 10, P m)
    (large : ∀ m, 10 ≤ m → P (m / 10) → P m) (m : Nat) : P m := by
  induction m using Nat.strongRecOn with
  | ind m ih =>
      by_cases h : m < 10
      · exact small m h
      · exact large m (Nat.le_of_not_lt h) (ih (m / 10) (by omega))

theorem readDigits_decimals (m : Nat) :
    readDigits (Source.ofChars (Nat.toDigits 10 m)) = (decimals m, []) := by
  have hread (cs : List Char) (h : ∀ c ∈ cs, c.isDigit) : readDigits (Source.ofChars cs) =
      (cs.map fun c => c.toNat - '0'.toNat, []) := by
    induction cs with
    | nil => rfl
    | cons c cs ih =>
        have hc := h c List.mem_cons_self
        rw [Source.ofChars_cons, readDigits, digit?, if_pos hc,
          ih fun d hd => h d (List.mem_cons_of_mem c hd)]
        rfl
  exact hread _ fun c hc => Nat.isDigit_of_mem_toDigits (by decide) (by decide) hc

/-- Only zero starts with a zero. -/
theorem decimals_head (m : Nat) : ∃ d ds, decimals m = d :: ds ∧ (d = 0 → ds = []) := by
  have hpos (m : Nat) : 0 < m → ∃ d ds, decimals m = d :: ds ∧ d ≠ 0 := by
    induction m using decimals_induction with
    | small m h => exact fun hm => ⟨m, [], decimals_of_lt h, by omega⟩
    | large m h ih =>
        intro _
        obtain ⟨d, ds, hds, hd⟩ := ih (by omega)
        have hsplit : decimals m = d :: (ds ++ [m % 10]) := by
          rw [decimals_of_le h, hds]
          rfl
        exact ⟨d, ds ++ [m % 10], hsplit, hd⟩
  by_cases hm : m = 0
  · subst hm
    exact ⟨0, [], rfl, fun _ => rfl⟩
  · obtain ⟨d, ds, hds, hd⟩ := hpos m (by omega)
    exact ⟨d, ds, hds, fun hzero => absurd hzero hd⟩

theorem collect_append {significand value : Nat} {ds es : List Nat}
    (h : Numeral.collect significand ds = (value, 0)) :
    Numeral.collect significand (ds ++ es) = Numeral.collect value es := by
  induction ds generalizing significand with
  | nil =>
      cases h
      rfl
  | cons d ds ih =>
      rw [Numeral.collect] at h
      rw [List.cons_append, Numeral.collect]
      split at h
      · rename_i hle
        rw [if_pos hle]
        exact ih h
      · exact absurd (congrArg Prod.snd h) (Nat.succ_ne_zero ds.length)

theorem collect_decimals (m : Nat) :
    m ≤ Numeral.significandLimit → Numeral.collect 0 (decimals m) = (m, 0) := by
  induction m using decimals_induction with
  | small m h =>
      intro hm
      rw [decimals_of_lt h, Numeral.collect, Nat.zero_mul, Nat.zero_add, if_pos hm]
      rfl
  | large m h ih =>
      intro hm
      have hvalue : m / 10 * 10 + m % 10 = m := by omega
      rw [decimals_of_le h, collect_append (ih (by omega)), Numeral.collect, hvalue, if_pos hm]
      rfl

theorem readUnsigned_decimals (negative : Bool) (m : Nat) :
    Numeral.readUnsigned negative (Source.ofChars (Nat.toDigits 10 m)) =
      .ok (⟨negative, decimals m, none, none⟩, []) := by
  obtain ⟨d, ds, hds, hzero⟩ := decimals_head m
  have hne : decimals m ≠ [] := by
    rw [hds]
    exact List.cons_ne_nil d ds
  have hdigits : readDigits1 (Source.ofChars (Nat.toDigits 10 m)) = .ok (decimals m, []) :=
    readDigits1_eq_ok.mpr ⟨readDigits_decimals m, hne⟩
  have hwhole : Numeral.readWhole (Source.ofChars (Nat.toDigits 10 m)) = .ok (decimals m, []) := by
    rw [Numeral.readWhole, hdigits]
    dsimp only [bind, Except.bind]
    split
    -- a zero that more digits follow is refused
    · rename_i heq
      rw [hds] at heq
      cases heq
      cases hzero rfl
    · rfl
  rw [Numeral.readUnsigned, hwhole]
  rfl

/-- The whole numbers that a document can hold. -/
def IsWhole (n : Int) : Prop := -0x8000000000000000 ≤ n ∧ n ≤ 0xFFFFFFFFFFFFFFFF

theorem toList_toString_ofNat (m : Nat) :
    (toString (Int.ofNat m)).toList = Nat.toDigits 10 m := Nat.toList_repr

theorem toList_toString_negSucc (m : Nat) :
    (toString (Int.negSucc m)).toList = '-' :: Nat.toDigits 10 (m + 1) := by
  change ("-" ++ Nat.repr (m + 1)).toList = _
  rw [String.toList_append, Nat.toList_repr]
  rfl

theorem read_digits (m : Nat) : Numeral.read (Source.ofChars (Nat.toDigits 10 m)) =
    .ok (⟨false, decimals m, none, none⟩, []) := by
  rw [Numeral.read]
  · exact readUnsigned_decimals false m
  -- no digit is a sign
  · intro rest heq
    obtain ⟨c, cs, hcs, hc, -⟩ := List.map_eq_cons_iff.mp heq
    cases hc
    have hdigit : ('-').isDigit := Nat.isDigit_of_mem_toDigits (b := 10) (n := m)
      (by decide) (by decide) (hcs ▸ List.mem_cons_self)
    exact absurd hdigit (by decide)

theorem read_minus_digits (m : Nat) : Numeral.read (Source.ofChars ('-' :: Nat.toDigits 10 m)) =
    .ok (⟨true, decimals m, none, none⟩, []) := readUnsigned_decimals true m

theorem readsBack_int {n : Int} (h : IsWhole n) : (Number.int n).ReadsBack := by
  obtain ⟨hlow, hhigh⟩ := h
  rw [Number.ReadsBack, Number.text, readNumber]
  cases n with
  | ofNat m =>
      have hm : m ≤ Numeral.significandLimit := by
        have hcast : Int.ofNat m = (m : Int) := rfl
        simp only [Numeral.significandLimit]
        omega
      simp only [toList_toString_ofNat, read_digits, bind, Except.bind, Numeral.evaluate,
        collect_decimals m hm, Bool.false_eq_true, if_false]
      rfl
  | negSucc m =>
      have hm : m + 1 ≤ 0x8000000000000000 := by
        have hcast : Int.negSucc m = -((m : Int) + 1) := Int.negSucc_eq m
        omega
      have hcollect := collect_decimals (m + 1) (Nat.le_trans hm (by decide))
      simp only [toList_toString_negSucc, read_minus_digits, bind, Except.bind, Numeral.evaluate,
        hcollect, if_true, if_pos (And.intro (Nat.succ_pos m) hm)]
      rfl

end Wireframe.Json
