/-
Values that are passed over.

A value that does not matter is passed over symbol by symbol, whatever is open around it.  Like a
value that is read it takes the symbols that it takes whatever stands behind them.

* `PassesOver` — what is expected is passed over with two units of fuel for each symbol;
* `passesOver_value`, `passesOver_opened` — a value, and what happens inside a container;
* `takes_skipValue` — a whole value.
-/
import Wireframe.Proofs.Json.Members

namespace Wireframe.Json

open Source

/-! ### Numbers and names -/

theorem takes_skipNumber {source rest : Source} (h : skipNumber source = .ok rest) :
    Takes skipNumber source id rest := by
  unfold skipNumber at h
  split at h
  · rename_i n left hread
    cases h
    obtain ⟨taken, hsource, htaken⟩ := Numeral.takes_read hread
    refine ⟨taken, hsource, fun other hother => ?_⟩
    rw [skipNumber, htaken other hother]
    rfl
  · cases h

theorem takes_skipName {source rest : Source} (h : skipName source = .ok rest) :
    Takes skipName source id rest := by
  refine .blanks (fun source => ?_) ?_
  · simp only [skipName, skipSpace_skipSpace]
  · unfold skipName at h
    split at h
    · cases h
    · rename_i hsource
      rw [hsource]
      obtain ⟨behind, hname, hcolon⟩ := bind_eq_ok.mp h
      exact Takes.cons ((takes_skipString hname).bind (takes_expectColon hcolon)) fun _ => rfl
    · cases h

/-! ### What is expected -/

/-- How many units of fuel are needed where no symbol is taken. -/
def Expectation.slack : Expectation → Nat
  | .start => 2
  | _ => 1

/-- Passing over what is expected takes some symbols off a source; two units of fuel are enough for
each of them. -/
def PassesOver (opened : List Opened) (expectation : Expectation) (source rest : Source) : Prop :=
  ∃ taken, source = taken ++ rest ∧ ∀ other, Alike rest other →
    ∀ fuel, 2 * taken.length + expectation.slack ≤ fuel →
      skipFrom fuel opened expectation (taken ++ other) = .ok other

section PassesOver

variable {fuel : Nat} {opened opened' : List Opened} {expectation expectation' : Expectation}
  {source left rest : Source}

theorem Expectation.slack_pos (expectation : Expectation) : 0 < expectation.slack := by
  cases expectation <;> decide

theorem skipFrom_skips (h : opened ≠ [] ∨ expectation = .value) (fuel : Nat) (source : Source) :
    skipFrom fuel opened expectation (skipSpace source) =
      skipFrom fuel opened expectation source := by
  cases fuel with
  | zero => rfl
  | succ fuel =>
    cases expectation with
    | value => simp only [skipFrom, skipSpace_skipSpace]
    | start | comma =>
      cases opened with
      | nil => exact absurd rfl (h.resolve_right nofun)
      | cons innermost opened => simp only [skipFrom, skipSpace_skipSpace]

theorem PassesOver.blanks (hopened : opened ≠ [] ∨ expectation = .value)
    (h : PassesOver opened expectation (skipSpace source) rest) :
    PassesOver opened expectation source rest := by
  obtain ⟨blanks, hsource, hblanks⟩ := exists_blanks source
  obtain ⟨taken, htaken, hskip⟩ := h
  refine ⟨blanks ++ taken, ?_, fun other hother fuel hfuel => ?_⟩
  · rw [List.append_assoc, ← htaken, ← hsource]
  · rw [List.length_append] at hfuel
    rw [← skipFrom_skips hopened, List.append_assoc, hblanks, skipFrom_skips hopened]
    exact hskip other hother fuel (by omega)

/-- A symbol, what `step` takes behind it, and what is passed over then. -/
theorem PassesOver.cons {step : Source → Except Problem Source} {symbol : Symbol}
    (hstep : Takes step source id left) (hnext : PassesOver opened' expectation' left rest)
    (hslack : expectation'.slack ≤ expectation.slack + 1)
    (hskip : ∀ fuel source, skipFrom (fuel + 1) opened expectation (symbol :: source) =
      step source >>= skipFrom fuel opened' expectation') :
    PassesOver opened expectation (symbol :: source) rest := by
  obtain ⟨taken, rfl, hstep⟩ := hstep
  obtain ⟨more, rfl, hnext⟩ := hnext
  refine ⟨symbol :: (taken ++ more), by rw [List.cons_append, List.append_assoc],
    fun other hother fuel hfuel => ?_⟩
  rw [List.length_cons, List.length_append] at hfuel
  obtain ⟨fuel, rfl⟩ : ∃ n, fuel = n + 1 := Nat.exists_eq_add_one_of_ne_zero (by omega)
  rw [List.cons_append, List.append_assoc, hskip, hstep _ (hother.append more)]
  exact hnext other hother fuel (by omega)

/-- A symbol, what `step` takes behind it, and what is passed over then, as they stand in a reading. -/
theorem PassesOver.bind {step : Source → Except Problem Source} {symbol : Symbol}
    (h : step source >>= skipFrom fuel opened' expectation' = .ok rest)
    (hstep : ∀ {left}, step source = .ok left → Takes step source id left)
    (hnext : ∀ {opened expectation source},
      skipFrom fuel opened expectation source = .ok rest →
        PassesOver opened expectation source rest)
    (hslack : expectation'.slack ≤ expectation.slack + 1)
    (hskip : ∀ fuel source, skipFrom (fuel + 1) opened expectation (symbol :: source) =
      step source >>= skipFrom fuel opened' expectation') :
    PassesOver opened expectation (symbol :: source) rest := by
  obtain ⟨left, hleft, h⟩ := bind_eq_ok.mp h
  exact .cons (hstep hleft) (hnext h) hslack hskip

theorem passesOver_value (hnext : ∀ {opened expectation source},
      skipFrom fuel opened expectation source = .ok rest →
        PassesOver opened expectation source rest)
    (hsame : skipSpace source = source)
    (h : skipFrom (fuel + 1) opened .value source = .ok rest) :
    PassesOver opened .value source rest := by
  -- The cases are those of the first symbol, as in the reader of values.
  rw [skipFrom, hsame] at h
  split at h
  · cases h
  · cases h
  rename_i c tail
  split at h
  · rename_i hc
    subst hc
    exact .bind h takes_expectWord hnext (by decide) fun _ _ => by rw [skipFrom]; rfl
  rename_i hnull
  split at h
  · rename_i hc
    subst hc
    exact .bind h takes_expectWord hnext (by decide) fun _ _ => by rw [skipFrom]; rfl
  rename_i htrue
  split at h
  · rename_i hc
    subst hc
    exact .bind h takes_expectWord hnext (by decide) fun _ _ => by rw [skipFrom]; rfl
  rename_i hfalse
  split at h
  · rename_i hc
    obtain ⟨left, hnumber, hleft⟩ := bind_eq_ok.mp h
    -- A number is passed over from its first letter on, which the reader has looked at already.
    obtain ⟨symbol, taken, hsource, htaken⟩ := (takes_skipNumber hnumber).exists_cons nofun
    obtain ⟨rfl, htail⟩ := List.cons_eq_cons.mp hsource
    have hstep : Takes (fun source => skipNumber (.char c :: source)) tail id left :=
      ⟨taken, htail, htaken⟩
    refine .cons hstep (hnext hleft) (by decide) fun fuel source => ?_
    simp only [skipFrom, skipSpace_of_eq_cons hsame, if_neg hnull, if_neg htrue, if_neg hfalse,
      if_pos hc]
  split at h
  · rename_i hc
    subst hc
    exact .bind h takes_skipString hnext (by decide) fun _ _ => by rw [skipFrom]; rfl
  -- A bracket opens something, and what is in it is passed over with it open.
  split at h
  · rename_i hc
    subst hc
    exact .cons (.nothing fun _ _ => rfl) (hnext h) (by decide) fun _ _ => by rw [skipFrom]; rfl
  split at h
  · rename_i hc
    subst hc
    exact .cons (.nothing fun _ _ => rfl) (hnext h) (by decide) fun _ _ => by rw [skipFrom]; rfl
  · cases h

/-- What stands in front of the value of an item or a member. -/
def skipLabel : Opened → Source → Except Problem Source
  | .array, source => .ok source
  | .object, source => skipName source

theorem takes_skipLabel {innermost : Opened} (h : skipLabel innermost source = .ok rest) :
    Takes (skipLabel innermost) source id rest := by
  cases innermost with
  | array =>
    cases h
    exact .nothing fun _ _ => rfl
  | object => exact takes_skipName h

/-- What happens inside a container. -/
theorem skipFrom_opened {c : Char} {innermost : Opened} (h : expectation ≠ .value)
    (hsame : skipSpace (.char c :: source) = .char c :: source) :
    skipFrom (fuel + 1) (innermost :: opened) expectation (.char c :: source) =
      if c = ']' ∧ innermost = .array ∨ c = '\x7d' ∧ innermost = .object then
        skipFrom fuel opened .comma source
      else if expectation = .start then
        skipLabel innermost (.char c :: source) >>= skipFrom fuel (innermost :: opened) .value
      else if c = ',' then
        skipLabel innermost source >>= skipFrom fuel (innermost :: opened) .value
      else .error .malformed := by
  cases expectation with
  | value => exact absurd rfl h
  | start | comma =>
    rw [skipFrom, hsame]
    · cases innermost <;> rfl
    · nofun

/-- The first item or member is passed over like any other. -/
theorem PassesOver.first {symbol : Symbol} {innermost : Opened}
    (hlabel : Takes (skipLabel innermost) (symbol :: source) id left)
    (hnext : PassesOver (innermost :: opened) .value left rest)
    (hskip : ∀ fuel source, skipFrom (fuel + 1) (innermost :: opened) .start (symbol :: source) =
      skipLabel innermost (symbol :: source) >>= skipFrom fuel (innermost :: opened) .value) :
    PassesOver (innermost :: opened) .start (symbol :: source) rest := by
  obtain ⟨taken, htaken, hlabel⟩ := hlabel
  obtain ⟨more, rfl, hnext⟩ := hnext
  -- neither an item nor a name is empty
  have hcons : ∃ tail, taken ++ more = symbol :: tail := by
    cases taken with
    | cons first taken =>
      obtain ⟨rfl, -⟩ := List.cons_eq_cons.mp htaken
      exact ⟨taken ++ more, rfl⟩
    | nil =>
      cases more with
      | cons first more =>
        obtain ⟨rfl, -⟩ := List.cons_eq_cons.mp htaken
        exact ⟨more, rfl⟩
      | nil => cases hnext [] (ends_nil.alike rest) 1 (Nat.le_refl 1)
  obtain ⟨tail, htail⟩ := hcons
  refine ⟨taken ++ more, by rw [htaken, List.append_assoc], fun other hother fuel hfuel => ?_⟩
  rw [List.length_append, Expectation.slack] at hfuel
  obtain ⟨fuel, rfl⟩ : ∃ n, fuel = n + 1 := Nat.exists_eq_add_one_of_ne_zero (by omega)
  have hstep := hlabel (more ++ other) (hother.append more)
  rw [← List.append_assoc, htail, List.cons_append] at hstep
  rw [htail, List.cons_append, hskip, hstep]
  exact hnext other hother fuel (by rw [Expectation.slack]; omega; nofun)

theorem passesOver_opened {innermost : Opened} (hexpectation : expectation ≠ .value)
    (hnext : ∀ {opened expectation source},
      skipFrom fuel opened expectation source = .ok rest →
        PassesOver opened expectation source rest)
    (hsame : skipSpace source = source)
    (h : skipFrom (fuel + 1) (innermost :: opened) expectation source = .ok rest) :
    PassesOver (innermost :: opened) expectation source rest := by
  have hslack : Expectation.slack .value ≤ expectation.slack + 1 := Nat.le_add_left 1 _
  match source with
  | [] =>
    cases expectation with
    | value => exact absurd rfl hexpectation
    | start | comma => cases h
  | .stray b :: source =>
    cases expectation with
    | value => exact absurd rfl hexpectation
    | start | comma => cases h
  | .char c :: source =>
    -- Something is open: it is closed, or goes on with a first part, or with a comma and another.
    rw [skipFrom_opened hexpectation hsame] at h
    split at h
    · rename_i hclose
      refine .cons (.nothing fun _ _ => rfl) (hnext h) hslack fun fuel other => ?_
      rw [skipFrom_opened hexpectation (skipSpace_of_eq_cons hsame other), if_pos hclose]
      rfl
    rename_i hclose
    split at h
    · rename_i hstart
      subst hstart
      obtain ⟨left, hlabel, h⟩ := bind_eq_ok.mp h
      refine .first (takes_skipLabel hlabel) (hnext h) fun fuel other => ?_
      rw [skipFrom_opened hexpectation (skipSpace_of_eq_cons hsame other), if_neg hclose,
        if_pos rfl]
    rename_i hstart
    split at h
    · rename_i hcomma
      refine .bind h takes_skipLabel hnext hslack fun fuel other => ?_
      rw [skipFrom_opened hexpectation (skipSpace_of_eq_cons hsame other), if_neg hclose,
        if_neg hstart, if_pos hcomma]
    · cases h

theorem passesOver_skipFrom (h : skipFrom fuel opened expectation source = .ok rest) :
    PassesOver opened expectation source rest := by
  induction fuel generalizing opened expectation source with
  | zero => cases h
  | succ fuel ih =>
    by_cases hvalue : expectation = .value
    · subst hvalue
      rw [← skipFrom_skips (.inr rfl)] at h
      exact .blanks (.inr rfl) (passesOver_value ih (skipSpace_skipSpace source) h)
    cases opened with
    | cons innermost opened =>
      have hopened : innermost :: opened ≠ [] := List.cons_ne_nil _ _
      rw [← skipFrom_skips (.inl hopened)] at h
      exact .blanks (.inl hopened) (passesOver_opened hvalue ih (skipSpace_skipSpace source) h)
    | nil =>
      -- nothing is open any more, so the value has been passed over
      have hdone (fuel : Nat) (other : Source) :
          skipFrom (fuel + 1) [] expectation other = .ok other := by
        cases expectation with
        | value => exact absurd rfl hvalue
        | start | comma => rfl
      rw [hdone] at h
      cases h
      refine ⟨[], rfl, fun other hother fuel hfuel => ?_⟩
      have hslack := expectation.slack_pos
      obtain ⟨fuel, rfl⟩ : ∃ n, fuel = n + 1 := Nat.exists_eq_add_one_of_ne_zero (by omega)
      exact hdone fuel other

end PassesOver

theorem takes_skipValue {source rest : Source} (h : skipValue source = .ok rest) :
    Takes skipValue source id rest := by
  obtain ⟨taken, rfl, hskip⟩ := passesOver_skipFrom h
  refine ⟨taken, rfl, fun other hother => hskip other hother _ ?_⟩
  rw [List.length_append, Expectation.slack]
  · omega
  · nofun

end Wireframe.Json
