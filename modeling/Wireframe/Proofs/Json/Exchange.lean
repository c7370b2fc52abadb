/-
Values that are exchanged.

Where a reader comes upon a value, any other text that can be read in its place may stand there: the
rest is read as it was before.

* `Alone`, `Given` — what may stand in a place;
* `Exchanges` — a source has a place where other texts may stand;
* `exchanges_listOf` — the items of a list.
-/
import Wireframe.Proofs.Json.Rounds

namespace Wireframe.Json

open Source

variable {α β γ δ : Type}

/-! ### Places -/

/-- A text that is read up to its end. -/
def Alone (read : Source → Except Problem (α × Source)) (text : Source) (a : α) : Prop :=
  read text = .ok (a, [])

/-- What stands for a value that may be missing: nothing, or its text with what belongs to it. -/
inductive Given (lead trail : Source) (read : Source → Except Problem (α × Source)) :
    Source → Option α → Prop
  | none : Given lead trail read [] none
  | some {text : Source} {a : α} (h : Alone read text a) :
      Given lead trail read (lead ++ text ++ trail) (some a)

/-- A source has a place for what `Fits`, where `a` stands, and whatever else stands there, `put`
tells what the source is read as. -/
def Exchanges (run : Source → Except Problem (β × Source)) (Fits : Source → α → Prop)
    (source : Source) (a : α) (put : α → β) (rest : Source) : Prop :=
  ∃ before text after, source = before ++ text ++ after ∧ Fits text a ∧
    ∀ other b, Fits other b → run (before ++ other ++ after) = .ok (put b, rest)

namespace Exchanges

variable {run : Source → Except Problem (β × Source)} {Fits : Source → α → Prop}
  {source rest : Source} {a : α} {put : α → β}

theorem run_eq (h : Exchanges run Fits source a put rest) : run source = .ok (put a, rest) := by
  obtain ⟨before, text, after, rfl, hfits, hrun⟩ := h
  exact hrun text a hfits

/-- What is read in front does not matter. -/
theorem behind {run' : Source → Except Problem (γ × Source)} {put' : α → γ} {rest' : Source}
    (h : Exchanges run Fits source a put rest) (front : Source)
    (hrun : ∀ {other b}, run other = .ok (put b, rest) →
      run' (front ++ other) = .ok (put' b, rest')) :
    Exchanges run' Fits (front ++ source) a put' rest' := by
  obtain ⟨before, text, after, rfl, hfits, hplace⟩ := h
  refine ⟨front ++ before, text, after, by simp only [List.append_assoc], hfits,
    fun other b hother => ?_⟩
  have hrun := hrun (hplace other b hother)
  simpa only [List.append_assoc] using hrun

/-- A value that is given may be exchanged for another one. -/
theorem of_given {read : Source → Except Problem (α × Source)} {lead trail : Source}
    {put : Option α → β} (h : Exchanges run (Given lead trail read) source (some a) put rest) :
    Exchanges run (Alone read) source a (fun b => put (some b)) rest := by
  obtain ⟨before, text, after, rfl, hgiven, hrun⟩ := h
  cases hgiven with
  | @some text _ halone =>
    refine ⟨before ++ lead, text, trail ++ after, by simp only [List.append_assoc], halone,
      fun other b hother => ?_⟩
    have hrun := hrun _ _ (Given.some hother)
    simpa only [List.append_assoc] using hrun

/-- A place inside a value is a place of the source that the value stands in. -/
theorem exists_text {inner : Source → Except Problem (γ × Source)} {c : γ} {put : γ → β}
    (h : Exchanges run (Alone inner) source c put rest) :
    ∃ text, Alone inner text c ∧ ∀ {Fits : Source → α → Prop} {a : α} {put' : α → γ},
      Exchanges inner Fits text a put' [] →
        Exchanges run Fits source a (fun b => put (put' b)) rest := by
  obtain ⟨before, text, after, rfl, halone, hrun⟩ := h
  refine ⟨text, halone, ?_⟩
  rintro Fits a put' ⟨before', text', after', rfl, hfits, hinner⟩
  refine ⟨before ++ before', text', after' ++ after, by simp only [List.append_assoc], hfits,
    fun other b hother => ?_⟩
  have hrun := hrun _ _ (hinner other b hother)
  simpa only [List.append_assoc] using hrun

/-- What is made of the result does not matter to the place. -/
theorem map {f : β × Source → Except Problem (γ × Source)} {put' : α → γ}
    (h : Exchanges run Fits source a put rest) (hf : ∀ b, f (put b, rest) = .ok (put' b, rest)) :
    Exchanges (fun source => run source >>= f) Fits source a put' rest := by
  obtain ⟨before, text, after, rfl, hfits, hrun⟩ := h
  exact ⟨before, text, after, rfl, hfits, fun other b hother =>
    bind_eq_ok.mpr ⟨_, hrun other b hother, hf b⟩⟩

end Exchanges

/-- Up to its first symbol that is no blank a source may be replaced by nothing else. -/
theorem Scans.exists_front {read : Source → Except Problem (α × Source)} (h : Scans read)
    {source tail : Source} {symbol : Symbol} (hsource : skipSpace source = symbol :: tail) :
    ∃ front, source = front ++ tail ∧ ∀ other, read (front ++ other) = read (symbol :: other) := by
  obtain ⟨blanks, hblanks, hskip⟩ := exists_blanks source
  refine ⟨blanks ++ [symbol], ?_, fun other => ?_⟩
  · rw [List.append_assoc, List.singleton_append, ← hsource, ← hblanks]
  · rw [← h.skips, List.append_assoc, List.singleton_append, hskip, h.skips]

/-! ### Lists -/

section Lists

variable {item : Source → Except Problem (α × Source)} {first : Bool} {fuel : Nat}
  {source rest : Source} {as : List α}

theorem ends_of_readItems (h : readItems item false fuel source = .ok (as, rest)) :
    Ends source := by
  cases fuel with
  | zero => cases h
  | succ fuel =>
    obtain ⟨onward, hnext, -⟩ := bind_eq_ok.mp h
    exact ends_of_nextItem hnext

/-- An item of an array may be exchanged. -/
theorem exchanges_readItems (hitem : Scans item)
    (h : readItems item first fuel source = .ok (as, rest)) {i : Nat} {a : α}
    (hi : as[i]? = some a) :
    Exchanges (fun source => readItems item first (source.length + 1) source) (Alone item) source a
      (fun b => as.set i b) rest := by
  -- Fuel as long as the source is enough wherever some fuel was.
  have henough {first : Bool} {fuel : Nat} {source : Source} {as : List α}
      (h : readItems item first fuel source = .ok (as, rest)) :
      readItems item first (source.length + 1) source = .ok (as, rest) :=
    (takes_readItems hitem h).takes.read_eq
  induction fuel generalizing first source as i with
  | zero => cases h
  | succ fuel ih =>
    rcases readItems_eq_ok.mp h with ⟨-, rfl⟩ | ⟨b, left, others, hround, hothers, rfl⟩
    · cases hi
    cases i with
    | zero =>
      -- The item is the first one: what stands before it and after it does not depend on its text.
      cases hi
      obtain ⟨lead, left', rfl, hread, hlead⟩ := exists_lead_item hitem hround
      obtain ⟨text, rfl, halone⟩ := hitem.exists_text hread
      refine ⟨lead, text, left, (List.append_assoc _ _ _).symm, halone, fun other b hother => ?_⟩
      rw [List.append_assoc]
      have hround := hlead (hitem.append hother (ends_of_readItems hothers))
      exact henough (readItems_eq_ok.mpr (.inr ⟨b, left, others, hround, hothers, rfl⟩))
    | succ i =>
      -- The item is further on: the first one is read again, since what follows it begins alike.
      obtain ⟨taken, rfl, htaken⟩ := takes_advance_item hitem hround
      refine (ih hothers hi).behind taken fun {other c} hother => ?_
      have hround := htaken other ((ends_of_readItems hother).alike left)
      exact henough (readItems_eq_ok.mpr (.inr ⟨b, other, _, hround, hother, rfl⟩))

end Lists

/-- An item of a list may be exchanged. -/
theorem exchanges_listOf {item : Reader α} (hitem : ∀ room, Scans (item room)) {room : Nat}
    {source rest : Source} {as : List α} (h : listOf item (room + 1) source = .ok (as, rest))
    {i : Nat} {a : α} (hi : as[i]? = some a) :
    Exchanges (listOf item (room + 1)) (Alone (item room)) source a (fun b => as.set i b) rest := by
  have hread := h
  unfold listOf at hread
  split at hread
  · rename_i hsource
    obtain ⟨front, rfl, hfront⟩ := (scans_listOf hitem (room + 1)).exists_front hsource
    refine (exchanges_readItems (hitem room) hread hi).behind front fun hother => ?_
    rw [hfront]
    exact hother
  · cases hread

end Wireframe.Json
