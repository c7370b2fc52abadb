/-
How far reading reaches.

Reading takes some symbols off a document, and what it makes of them is the same whatever stands
behind them.  Only a number looks at the symbol behind it, to see whether it goes on.

* `Ends`, `Alike` — what no number goes on with, and what may stand in one another's place;
* `Takes` — a step takes symbols off a source;
* `Takes.bind`, `Takes.cons`, `Takes.blanks` — steps after one another, after a symbol and after
  blanks;
* `takes_readNumber`, `takes_readString`, `takes_skipString` — numbers and strings.
-/
import Wireframe.Json.Reader
import Wireframe.Proofs.Json.Numeral
import Wireframe.Proofs.Outcome

namespace Wireframe.Json

open Source

/-! ### What stands behind -/

/-- A character that a number goes on with. -/
def goesOn (c : Char) : Bool := c.isDigit || c == '.' || c == 'e' || c == 'E'

/-- No number goes on with what stands here. -/
def Ends : Source → Prop
  | .char c :: _ => goesOn c = false
  | _ => True

/-- Behind something that has been read `other` may stand in the place of `rest`: it starts alike,
or else no number goes on with it. -/
def Alike (rest other : Source) : Prop := other.head? = rest.head? ∨ Ends other

section Alike

variable {rest other : Source}

theorem ends_nil : Ends [] := trivial

theorem Alike.refl (rest : Source) : Alike rest rest := .inl rfl

theorem Ends.alike (h : Ends other) (rest : Source) : Alike rest other := .inr h

theorem Alike.append (h : Alike rest other) (taken : Source) :
    Alike (taken ++ rest) (taken ++ other) := by
  cases taken with
  | nil => exact h
  | cons symbol taken => exact .inl rfl

/-- A number that does not go on with `rest` does not go on with `other`. -/
theorem Alike.head?_ne {c : Char} (h : Alike rest other) (hc : goesOn c = true)
    (hrest : rest.head? ≠ some (.char c)) : other.head? ≠ some (.char c) := by
  intro hother
  rcases h with h | h
  · exact hrest (h ▸ hother)
  · obtain ⟨tail, rfl⟩ := List.head?_eq_some_iff.mp hother
    exact Bool.false_ne_true (h.symm.trans hc)

end Alike

/-! ### What is taken -/

variable {α β γ : Type}

/-- A step takes some symbols off a source and leaves the rest, and it makes the same of them
whatever stands behind them; `make` joins what it makes to what it leaves. -/
def Takes (read : Source → Except Problem β) (source : Source) (make : Source → β)
    (rest : Source) : Prop :=
  ∃ taken, source = taken ++ rest ∧
    ∀ other, Alike rest other → read (taken ++ other) = .ok (make other)

namespace Takes

variable {read : Source → Except Problem β} {source rest : Source} {make : Source → β}

theorem nothing (h : ∀ other, Alike source other → read other = .ok (make other)) :
    Takes read source make source :=
  ⟨[], rfl, h⟩

/-- After a symbol the step goes on as another one. -/
theorem cons {next : Source → Except Problem β} {symbol : Symbol}
    (h : Takes next source make rest) (hnext : ∀ source, read (symbol :: source) = next source) :
    Takes read (symbol :: source) make rest := by
  obtain ⟨taken, rfl, hread⟩ := h
  exact ⟨symbol :: taken, rfl, fun other hother => (hnext _).trans (hread other hother)⟩

theorem bind {f : β → Except Problem γ} {middle : Source} {make' : Source → γ}
    (hread : Takes read source make middle)
    (hf : Takes (fun left => f (make left)) middle make' rest) :
    Takes (fun source => read source >>= f) source make' rest := by
  obtain ⟨taken, rfl, hread⟩ := hread
  obtain ⟨more, rfl, hf⟩ := hf
  refine ⟨taken ++ more, (List.append_assoc _ _ _).symm, fun other hother => ?_⟩
  have hmiddle := hread (more ++ other) (hother.append more)
  simp only [List.append_assoc, hmiddle]
  exact hf other hother

/-- What is made of the symbols is passed on. -/
theorem map {f : β → Except Problem γ} {make' : Source → γ} (hread : Takes read source make rest)
    (hf : ∀ left, f (make left) = .ok (make' left)) :
    Takes (fun source => read source >>= f) source make' rest :=
  hread.bind (.nothing fun other _ => hf other)

/-- What is passed over in front does not matter. -/
theorem behind (h : Takes read source make rest) (front : Source)
    (hfront : ∀ source, read (front ++ source) = read source) :
    Takes read (front ++ source) make rest := by
  obtain ⟨taken, rfl, hread⟩ := h
  refine ⟨front ++ taken, (List.append_assoc _ _ _).symm, fun other hother => ?_⟩
  rw [List.append_assoc, hfront, hread other hother]

theorem read_eq (h : Takes read source make rest) : read source = .ok (make rest) := by
  obtain ⟨taken, rfl, hread⟩ := h
  exact hread rest (.refl rest)

/-- A step that makes nothing of an empty source takes at least one symbol. -/
theorem exists_cons (h : Takes read source make rest) (hnil : ∀ b, read [] ≠ .ok b) :
    ∃ symbol taken, source = symbol :: (taken ++ rest) ∧
      ∀ other, Alike rest other → read (symbol :: (taken ++ other)) = .ok (make other) := by
  obtain ⟨taken, rfl, hread⟩ := h
  cases taken with
  | nil => exact absurd (hread [] (ends_nil.alike rest)) (hnil _)
  | cons symbol taken => exact ⟨symbol, taken, rfl, hread⟩

/-- A step that goes on as another one whenever a source starts with a given symbol. -/
theorem of_cons {next : Source → Except Problem β} {symbol : Symbol}
    (h : Takes next (symbol :: source) make rest) (hnil : ∀ b, next [] ≠ .ok b)
    (hnext : ∀ source, read (symbol :: source) = next (symbol :: source)) :
    Takes read (symbol :: source) make rest := by
  obtain ⟨first, taken, hsource, hread⟩ := h.exists_cons hnil
  obtain ⟨rfl, rfl⟩ := List.cons_eq_cons.mp hsource
  exact ⟨symbol :: taken, rfl, fun other hother => (hnext _).trans (hread other hother)⟩

end Takes

/-! ### Blanks -/

theorem exists_blanks (source : Source) : ∃ blanks, source = blanks ++ skipSpace source ∧
    ∀ other, skipSpace (blanks ++ other) = skipSpace other := by
  induction source with
  | nil => exact ⟨[], rfl, fun _ => rfl⟩
  | cons symbol source ih =>
    match symbol with
    | .stray b => exact ⟨[], rfl, fun _ => rfl⟩
    | .char c =>
      by_cases hc : isSpace c = true
      · obtain ⟨blanks, hsource, hskip⟩ := ih
        refine ⟨.char c :: blanks, ?_, fun other => ?_⟩
        · rw [skipSpace, if_pos hc, List.cons_append, ← hsource]
        · rw [List.cons_append, skipSpace, if_pos hc, hskip]
      · refine ⟨[], ?_, fun _ => rfl⟩
        rw [skipSpace, if_neg hc, List.nil_append]

@[simp] theorem skipSpace_skipSpace (source : Source) :
    skipSpace (skipSpace source) = skipSpace source := by
  obtain ⟨blanks, hsource, hskip⟩ := exists_blanks source
  conv_rhs => rw [hsource]
  exact (hskip _).symm

/-- The first symbol behind blanks is no blank. -/
theorem skipSpace_of_eq_cons {source tail : Source} {symbol : Symbol}
    (h : skipSpace source = symbol :: tail) (other : Source) :
    skipSpace (symbol :: other) = symbol :: other := by
  have hsame : skipSpace (symbol :: tail) = symbol :: tail := by rw [← h, skipSpace_skipSpace]
  cases symbol with
  | stray b => rfl
  | char c =>
    rw [skipSpace] at hsame ⊢
    split at hsame
    · -- a blank would have been passed over
      have hlength : (skipSpace tail).length ≤ tail.length := by
        obtain ⟨blanks, htail, -⟩ := exists_blanks tail
        have hsum := congrArg List.length htail
        rw [List.length_append] at hsum
        omega
      rw [hsame, List.length_cons] at hlength
      omega
    · rename_i hc
      exact if_neg hc

/-- Blanks in front do not matter to a step that passes over them. -/
theorem Takes.blanks {read : Source → Except Problem β} {source rest : Source} {make : Source → β}
    (hskip : ∀ source, read (skipSpace source) = read source)
    (h : Takes read (skipSpace source) make rest) : Takes read source make rest := by
  obtain ⟨blanks, hsource, hblanks⟩ := exists_blanks source
  obtain ⟨taken, htaken, hread⟩ := h
  refine ⟨blanks ++ taken, ?_, fun other hother => ?_⟩
  · rw [List.append_assoc, ← htaken, ← hsource]
  · rw [← hskip, List.append_assoc, hblanks, hskip, hread other hother]

/-! ### Words -/

theorem takes_expectWord {word : List Char} {source rest : Source}
    (h : expectWord word source = .ok rest) : Takes (expectWord word) source id rest := by
  induction word generalizing source with
  | nil =>
    cases h
    exact .nothing fun _ _ => rfl
  | cons c word ih =>
    match source with
    | .char d :: source =>
      rw [expectWord] at h
      split at h
      · rename_i hc
        exact (ih h).cons fun _ => if_pos hc
      · cases h

/-! ### Numbers -/

theorem readDigits_of_head? {source : Source}
    (h : ∀ c, c.isDigit = true → source.head? ≠ some (.char c)) :
    readDigits source = ([], source) := by
  match source with
  | [] => rfl
  | .stray b :: source => rfl
  | .char c :: source =>
    have hc : ¬ c.isDigit = true := fun hc => h c hc rfl
    rw [readDigits, digit?, if_neg hc]

/-- The first symbol behind digits is no digit. -/
theorem exists_readDigits (source : Source) :
    ∃ taken, source = taken ++ (readDigits source).2 ∧
      ∀ other, Alike (readDigits source).2 other →
        readDigits (taken ++ other) = ((readDigits source).1, other) := by
  -- No digit in front: nothing is taken, here or before anything that begins alike.
  have hnone {source : Source} (h : ∀ c, c.isDigit = true → source.head? ≠ some (.char c)) :
      ∃ taken, source = taken ++ (readDigits source).2 ∧
        ∀ other, Alike (readDigits source).2 other →
          readDigits (taken ++ other) = ((readDigits source).1, other) := by
    rw [readDigits_of_head? h]
    refine ⟨[], rfl, fun other hother => readDigits_of_head? fun c hc => ?_⟩
    exact hother.head?_ne (by simp [goesOn, hc]) (h c hc)
  induction source with
  | nil => exact hnone fun c hc => by simp
  | cons symbol source ih =>
    match symbol with
    | .stray b => exact hnone fun c hc => by simp
    | .char c =>
      by_cases hc : c.isDigit = true
      -- A digit is taken and the rest read by induction; what follows may change as long as it
      -- begins alike.
      · obtain ⟨taken, hsource, hread⟩ := ih
        have hdigit : digit? c = some (c.toNat - '0'.toNat) := if_pos hc
        refine ⟨.char c :: taken, ?_, ?_⟩
        · simp only [readDigits, hdigit]
          rw [List.cons_append, ← hsource]
        · intro other hother
          simp only [readDigits, hdigit] at hother ⊢
          rw [List.cons_append, readDigits]
          simp only [hdigit, hread other hother]
      · refine hnone fun d hd hhead => hc ?_
        cases hhead
        exact hd

theorem takes_readDigits1 {source rest : Source} {digits : List Nat}
    (h : readDigits1 source = .ok (digits, rest)) : Takes readDigits1 source (digits, ·) rest := by
  obtain ⟨hdigits, hne⟩ := readDigits1_eq_ok.mp h
  obtain ⟨taken, hsource, hread⟩ := exists_readDigits source
  rw [hdigits] at hsource hread
  exact ⟨taken, hsource, fun other hother => readDigits1_eq_ok.mpr ⟨hread other hother, hne⟩⟩

namespace Numeral

theorem takes_readWhole {source rest : Source} {digits : List Nat}
    (h : readWhole source = .ok (digits, rest)) : Takes readWhole source (digits, ·) rest := by
  obtain ⟨⟨digits', left⟩, hdigits, h⟩ := bind_eq_ok.mp h
  refine (takes_readDigits1 hdigits).bind ?_
  dsimp only at h ⊢
  split at h
  · cases h
  · cases h
    exact .nothing fun _ _ => rfl

theorem readFraction_of_head? {source : Source} (h : source.head? ≠ some (.char '.')) :
    readFraction source = .ok (none, source) := by
  unfold readFraction
  split
  · exact absurd rfl h
  · rfl

theorem takes_readFraction {source rest : Source} {fraction : Option (List Nat)}
    (h : readFraction source = .ok (fraction, rest)) :
    Takes readFraction source (fraction, ·) rest := by
  by_cases hhead : source.head? = some (.char '.')
  · obtain ⟨tail, rfl⟩ := List.head?_eq_some_iff.mp hhead
    obtain ⟨⟨digits, left⟩, hdigits, h⟩ := bind_eq_ok.mp h
    cases h
    refine Takes.cons ?_ fun _ => rfl
    exact (takes_readDigits1 hdigits).map fun _ => rfl
  · rw [readFraction_of_head? hhead] at h
    cases h
    refine .nothing fun other hother => readFraction_of_head? ?_
    exact hother.head?_ne rfl hhead

theorem readPower_of_head? {source : Source} (h : source.head? ≠ some (.char 'e'))
    (hE : source.head? ≠ some (.char 'E')) : readPower source = .ok (none, source) := by
  match source with
  | [] => rfl
  | .stray b :: source => rfl
  | .char c :: source =>
    have hc : ¬ (c = 'e' ∨ c = 'E') := by
      rintro (rfl | rfl)
      · exact h rfl
      · exact hE rfl
    rw [readPower, if_neg hc]
    rfl

theorem readPowerSign_of_isDigit {c : Char} (hc : c.isDigit = true) (source : Source) :
    readPowerSign (.char c :: source) = (false, .char c :: source) := by
  unfold readPowerSign
  split
  · rename_i heq
    cases heq
    cases hc
  · rename_i heq
    cases heq
    cases hc
  · rfl

/-- The sign of a power stands in front of its digits. -/
theorem exists_readPowerSign {source rest : Source} {digits : List Nat}
    (h : readDigits1 (readPowerSign source).2 = .ok (digits, rest)) :
    ∃ taken, source = taken ++ rest ∧ ∀ other, Alike rest other →
      (readPowerSign (taken ++ other)).1 = (readPowerSign source).1 ∧
        readDigits1 (readPowerSign (taken ++ other)).2 = .ok (digits, other) := by
  unfold readPowerSign at h
  split at h
  · obtain ⟨taken, rfl, hread⟩ := takes_readDigits1 h
    exact ⟨.char '+' :: taken, rfl, fun other hother => ⟨rfl, hread other hother⟩⟩
  · obtain ⟨taken, rfl, hread⟩ := takes_readDigits1 h
    exact ⟨.char '-' :: taken, rfl, fun other hother => ⟨rfl, hread other hother⟩⟩
  · obtain ⟨c, tail, rfl, hc⟩ := exists_digit_of_readDigits1 h
    obtain ⟨symbol, taken, hsource, hread⟩ := (takes_readDigits1 h).exists_cons nofun
    obtain ⟨rfl, rfl⟩ := List.cons_eq_cons.mp hsource
    refine ⟨.char c :: taken, rfl, fun other hother => ?_⟩
    rw [List.cons_append, readPowerSign_of_isDigit hc, readPowerSign_of_isDigit hc]
    exact ⟨rfl, hread other hother⟩

theorem readPower_exponent {c : Char} (hc : c = 'e' ∨ c = 'E') (source : Source) :
    readPower (.char c :: source) = (readDigits1 (readPowerSign source).2 >>= fun read =>
      .ok (some (if (readPowerSign source).1 then -(ofDigits read.1 : Int) else ofDigits read.1),
        read.2)) := by
  rw [readPower, if_pos hc]
  rfl

theorem takes_readPower {source rest : Source} {power : Option Int}
    (h : readPower source = .ok (power, rest)) : Takes readPower source (power, ·) rest := by
  by_cases hhead : source.head? = some (.char 'e') ∨ source.head? = some (.char 'E')
  · obtain ⟨c, tail, rfl, hc⟩ : ∃ c tail, source = .char c :: tail ∧ (c = 'e' ∨ c = 'E') := by
      rcases hhead with hhead | hhead
      · obtain ⟨tail, rfl⟩ := List.head?_eq_some_iff.mp hhead
        exact ⟨'e', tail, rfl, .inl rfl⟩
      · obtain ⟨tail, rfl⟩ := List.head?_eq_some_iff.mp hhead
        exact ⟨'E', tail, rfl, .inr rfl⟩
    rw [readPower_exponent hc] at h
    obtain ⟨⟨digits, left⟩, hdigits, h⟩ := bind_eq_ok.mp h
    obtain ⟨taken, htaken, hread⟩ := exists_readPowerSign hdigits
    cases h
    refine ⟨.char c :: taken, by rw [htaken, List.cons_append], fun other hother => ?_⟩
    obtain ⟨hsign, hdigits⟩ := hread other hother
    rw [List.cons_append, readPower_exponent hc, hdigits, hsign]
    rfl
  · obtain ⟨he, hE⟩ := not_or.mp hhead
    rw [readPower_of_head? he hE] at h
    cases h
    refine .nothing fun other hother => ?_
    exact readPower_of_head? (hother.head?_ne rfl he) (hother.head?_ne rfl hE)

theorem takes_readUnsigned {negative : Bool} {source rest : Source} {n : Numeral}
    (h : readUnsigned negative source = .ok (n, rest)) :
    Takes (readUnsigned negative) source (n, ·) rest := by
  obtain ⟨⟨whole, left⟩, hwhole, h⟩ := bind_eq_ok.mp h
  obtain ⟨⟨fraction, left'⟩, hfraction, h⟩ := bind_eq_ok.mp h
  obtain ⟨⟨power, left''⟩, hpower, h⟩ := bind_eq_ok.mp h
  cases h
  exact (takes_readWhole hwhole).bind <| (takes_readFraction hfraction).bind <|
    (takes_readPower hpower).map fun _ => rfl

theorem takes_read {source rest : Source} {n : Numeral} (h : read source = .ok (n, rest)) :
    Takes read source (n, ·) rest := by
  unfold read at h
  split at h
  · exact (takes_readUnsigned h).cons fun _ => rfl
  · obtain ⟨c, tail, rfl, hc⟩ := exists_digit_of_readUnsigned h
    refine (takes_readUnsigned h).of_cons nofun fun source => ?_
    unfold read
    split
    · rename_i heq
      cases heq
      cases hc
    · rfl

end Numeral

theorem takes_readNumber {source rest : Source} {n : Number}
    (h : readNumber source = .ok (n, rest)) : Takes readNumber source (n, ·) rest := by
  obtain ⟨⟨numeral, left⟩, hread, h⟩ := bind_eq_ok.mp h
  refine (Numeral.takes_read hread).bind ?_
  dsimp only at h ⊢
  split at h
  · cases h
    exact .nothing fun _ _ => rfl
  · cases h

/-! ### Strings -/

/-- What stands for one character in front of a string. -/
theorem Takes.charsBehind {source rest : Source} {c : Char} {chars : List Char}
    (h : Takes readChars source (chars, ·) rest) (front : Source)
    (hfront : ∀ {source rest chars}, readChars source = .ok (chars, rest) →
      readChars (front ++ source) = .ok (c :: chars, rest)) :
    Takes readChars (front ++ source) (c :: chars, ·) rest := by
  obtain ⟨taken, rfl, hread⟩ := h
  refine ⟨front ++ taken, (List.append_assoc _ _ _).symm, fun other hother => ?_⟩
  rw [List.append_assoc]
  exact hfront (hread other hother)

theorem takes_readChars {source rest : Source} {chars : List Char}
    (h : readChars source = .ok (chars, rest)) : Takes readChars source (chars, ·) rest := by
  fun_induction readChars source generalizing chars
  -- the closing quote
  case case4 =>
    cases h
    exact Takes.cons (.nothing fun _ _ => rfl) fun _ => rfl
  -- the two halves of a pair
  case case9 a b c d high hhigh hlow hpair a' b' c' d' more low hsecond hhalf chars left hread ih =>
    cases h
    refine (ih hread).charsBehind [.char '\\', .char 'u', .char a, .char b, .char c, .char d,
      .char '\\', .char 'u', .char a', .char b', .char c', .char d'] fun h => ?_
    simp only [List.cons_append, List.nil_append, readChars, hhigh, hlow, hpair, hsecond, hhalf, h,
      if_true, Bool.false_eq_true, if_false]
  case case14 a b c d more high hhigh hlow hpair chars left hread ih =>
    cases h
    refine (ih hread).charsBehind [.char '\\', .char 'u', .char a, .char b, .char c, .char d]
      fun h => ?_
    simp only [List.cons_append, List.nil_append, readChars, hhigh, hlow, hpair, h,
      Bool.false_eq_true, if_false]
  case case17 e more he c hescaped chars left hread ih =>
    cases h
    exact (ih hread).charsBehind [.char '\\', .char e] fun h => readChars_escaped hescaped h
  case case21 c more hquote hback hc chars left hread ih =>
    cases h
    exact (ih hread).charsBehind [.char c] fun h => readChars_plain hquote hback hc h
  all_goals cases h

theorem takes_readString {source rest : Source} {text : String}
    (h : readString source = .ok (text, rest)) : Takes readString source (text, ·) rest := by
  unfold readString at h
  split at h
  · rename_i chars left hread
    cases h
    obtain ⟨taken, hsource, hchars⟩ := takes_readChars hread
    refine ⟨taken, hsource, fun other hother => ?_⟩
    rw [readString, hchars other hother]
  · cases h

theorem takes_skipString {source rest : Source} (h : skipString source = .ok rest) :
    Takes skipString source id rest := by
  fun_induction skipString source
  case case2 byte more ih => exact (ih h).cons fun _ => rfl
  case case3 =>
    cases h
    exact Takes.cons (.nothing fun _ _ => rfl) fun _ => rfl
  case case6 a b c d more hunit ih =>
    refine (ih h).behind [.char '\\', .char 'u', .char a, .char b, .char c, .char d] fun more => ?_
    simp only [List.cons_append, List.nil_append, skipString, hunit, if_true]
  case case9 e more he hescaped ih =>
    refine (ih h).behind [.char '\\', .char e] fun more => ?_
    simp only [List.cons_append, List.nil_append]
    rw [skipString, if_pos hescaped]
    exact he
  case case12 c more hquote hback hc ih =>
    refine (ih h).behind [.char c] fun more => ?_
    rw [List.cons_append, List.nil_append, skipString, if_neg hc]
    · exact hquote
    · exact hback
  all_goals cases h

end Wireframe.Json
