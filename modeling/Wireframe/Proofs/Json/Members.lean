/-
How far readers of members reach.

* `nextName_eq_done`, `nextName_eq_more` — the end of an object, and what stands in front of a name;
* `readMembers_eq_ok` — what reading the members of an object comes to;
* `scans_readValue` — any values.
-/
import Wireframe.Proofs.Json.Rounds

namespace Wireframe.Json

open Source

variable {α β : Type}

/-! ### Members -/

section Members

variable {first : Bool} {source rest : Source} {name : String}

theorem nameAt_eq_ok {onward : Onward String} : nameAt source = .ok onward ↔
    ∃ left name rest, source = .char '"' :: left ∧ readString left = .ok (name, rest) ∧
      onward = .more name rest := by
  unfold nameAt
  constructor
  · intro h
    split at h
    · cases h
    · rename_i left
      obtain ⟨⟨name, rest⟩, hread, h⟩ := bind_eq_ok.mp h
      cases h
      exact ⟨left, name, rest, rfl, hread, rfl⟩
    · cases h
  · rintro ⟨left, name, rest, rfl, hread, rfl⟩
    exact bind_eq_ok.mpr ⟨(name, rest), hread, rfl⟩

theorem takes_nameAt (h : nameAt source = .ok (.more name rest)) :
    Takes nameAt source (.more name) rest := by
  obtain ⟨left, name, rest, rfl, hread, h⟩ := nameAt_eq_ok.mp h
  cases h
  refine Takes.cons ?_ fun _ => rfl
  exact (takes_readString hread).map fun _ => rfl

theorem takes_nameAt_skipSpace (h : nameAt (skipSpace source) = .ok (.more name rest)) :
    Takes (fun source => nameAt (skipSpace source)) source (.more name) rest := by
  refine .blanks (fun source => by rw [skipSpace_skipSpace]) ?_
  obtain ⟨left, name, rest, hsource, -⟩ := nameAt_eq_ok.mp h
  rw [hsource] at h ⊢
  exact (takes_nameAt h).of_cons nofun fun _ => rfl

theorem nextName_skips (first : Bool) (source : Source) :
    nextName first (skipSpace source) = nextName first source := by
  simp only [nextName, skipSpace_skipSpace]

/-- The object ends here, or another member follows, at once or behind a comma. -/
theorem nextName_eq_ok {onward : Onward String} : nextName first source = .ok onward ↔
    (∃ rest, skipSpace source = .char '\x7d' :: rest ∧ onward = .done rest) ∨
      if first then nameAt (skipSpace source) = .ok onward
      else ∃ left, skipSpace source = .char ',' :: left ∧ nameAt (skipSpace left) = .ok onward := by
  unfold nextName
  constructor
  · intro h
    -- What is not at the end of the object is a name, behind a comma unless it is the first.
    split at h
    · cases h
    · rename_i c tail hsource
      split at h
      · rename_i hc
        cases h
        exact .inl ⟨tail, by rw [hsource, hc], rfl⟩
      split at h
      · rename_i hfirst
        refine .inr ?_
        rwa [if_pos hfirst, hsource]
      rename_i hfirst
      split at h
      · rename_i hcomma
        refine .inr ?_
        rw [if_neg hfirst]
        exact ⟨tail, by rw [hsource, hcomma], h⟩
      · cases h
    · cases h
  · rintro (⟨rest, hsource, rfl⟩ | h)
    · rw [hsource]
      rfl
    -- The first name opens with a quote, which is neither a brace nor a comma.
    · cases first with
      | true =>
        rw [if_pos rfl] at h
        obtain ⟨left, name, rest, hsource, -⟩ := nameAt_eq_ok.mp h
        rw [hsource] at h ⊢
        exact h
      | false =>
        obtain ⟨left, hsource, h⟩ := h
        rw [hsource]
        exact h

theorem nextName_eq_done :
    nextName first source = .ok (.done rest) ↔ skipSpace source = .char '\x7d' :: rest := by
  rw [nextName_eq_ok]
  constructor
  · rintro (⟨rest, hsource, h⟩ | h)
    · cases h
      exact hsource
    -- a name is no end
    · cases first with
      | true =>
        rw [if_pos rfl] at h
        obtain ⟨left, name, rest, -, -, h⟩ := nameAt_eq_ok.mp h
        cases h
      | false =>
        obtain ⟨left, -, h⟩ := h
        obtain ⟨left, name, rest, -, -, h⟩ := nameAt_eq_ok.mp h
        cases h
  · intro h
    exact .inl ⟨rest, h, rfl⟩

/-- Another member follows, at once or behind a comma. -/
theorem nextName_eq_more : nextName first source = .ok (.more name rest) ↔
    if first then nameAt (skipSpace source) = .ok (.more name rest)
    else ∃ left, skipSpace source = .char ',' :: left ∧
      nameAt (skipSpace left) = .ok (.more name rest) := by
  rw [nextName_eq_ok]
  constructor
  · rintro (⟨rest, -, h⟩ | h)
    · cases h
    · exact h
  · exact .inr

theorem takes_nextName_done (h : nextName first source = .ok (.done rest)) :
    Takes (nextName first) source .done rest := by
  refine .blanks (nextName_skips first) ?_
  rw [nextName_eq_done.mp h]
  exact Takes.cons (.nothing fun _ _ => rfl) fun _ => rfl

theorem takes_nextName_more (h : nextName first source = .ok (.more name rest)) :
    Takes (nextName first) source (.more name) rest := by
  refine .blanks (nextName_skips first) ?_
  have hskip := skipSpace_skipSpace source
  have hmore := nextName_eq_more.mp h
  cases first with
  | true =>
    rw [if_pos rfl] at hmore
    obtain ⟨left, name, rest, hsource, -⟩ := nameAt_eq_ok.mp hmore
    rw [hsource] at hmore ⊢
    exact (takes_nameAt hmore).of_cons nofun fun _ => rfl
  | false =>
    obtain ⟨left, hsource, hname⟩ := hmore
    rw [hsource]
    exact (takes_nameAt_skipSpace hname).cons fun _ => rfl

theorem ends_of_nextName {onward : Onward String} (h : nextName false source = .ok onward) :
    Ends source := by
  refine ends_of_skipSpace ?_
  cases onward with
  | done rest =>
    rw [nextName_eq_done.mp h]
    rfl
  | more name rest =>
    obtain ⟨left, hsource, -⟩ := nextName_eq_more.mp h
    rw [hsource]
    rfl

theorem expectColon_eq_ok :
    expectColon source = .ok rest ↔ skipSpace source = .char ':' :: rest := by
  unfold expectColon
  constructor
  · intro h
    split at h
    · cases h
    · rename_i hsource
      cases h
      exact hsource
    · cases h
  · intro h
    rw [h]
    rfl

theorem takes_expectColon (h : expectColon source = .ok rest) :
    Takes expectColon source id rest := by
  refine .blanks (fun source => ?_) ?_
  · simp only [expectColon, skipSpace_skipSpace]
  · rw [expectColon_eq_ok.mp h]
    exact Takes.cons (.nothing fun _ _ => rfl) fun _ => rfl

/-- The value of a member behind its name. -/
def readMember (value : Source → Except Problem (α × Source)) (name : String) (source : Source) :
    Except Problem ((String × α) × Source) := do
  let (a, rest) ← value (← expectColon source)
  return ((name, a), rest)

theorem readMembers_eq_ok {value : Source → Except Problem (α × Source)} {fuel : Nat}
    {members : List (String × α)} :
    readMembers value first (fuel + 1) source = .ok (members, rest) ↔
      nextName first source = .ok (.done rest) ∧ members = [] ∨
      ∃ member left others,
        advance (nextName first) (readMember value) source = .ok (.more member left) ∧
        readMembers value false fuel left = .ok (others, rest) ∧ members = member :: others := by
  rw [readMembers, bind_eq_ok]
  constructor
  · rintro ⟨onward, hnext, h⟩
    cases onward with
    | done rest =>
      cases h
      exact .inl ⟨hnext, rfl⟩
    | more name left =>
      -- A member is its name, a colon and a value, read one after the other in a round.
      obtain ⟨behind, hcolon, h⟩ := bind_eq_ok.mp h
      obtain ⟨⟨a, left'⟩, hread, h⟩ := bind_eq_ok.mp h
      obtain ⟨⟨others, rest⟩, hothers, h⟩ := bind_eq_ok.mp h
      cases h
      refine .inr ⟨(name, a), left', others, advance_eq_more.mpr ⟨name, left, hnext, ?_⟩, hothers,
        rfl⟩
      exact bind_eq_ok.mpr ⟨behind, hcolon, bind_eq_ok.mpr ⟨(a, left'), hread, rfl⟩⟩
  · rintro (⟨hnext, rfl⟩ | ⟨member, left, others, hround, hothers, rfl⟩)
    · exact ⟨_, hnext, rfl⟩
    -- A round that was made is taken apart again, and the reader does each of its steps.
    · obtain ⟨name, behind, hnext, h⟩ := advance_eq_more.mp hround
      obtain ⟨value, hcolon, h⟩ := bind_eq_ok.mp h
      obtain ⟨⟨a, left'⟩, hread, h⟩ := bind_eq_ok.mp h
      cases h
      exact ⟨_, hnext, bind_eq_ok.mpr ⟨_, hcolon, bind_eq_ok.mpr ⟨_, hread,
        bind_eq_ok.mpr ⟨_, hothers, rfl⟩⟩⟩⟩

/-- A round that goes on with a member takes its name and what is read behind it. -/
theorem takes_advance_name {body : String → Source → Except Problem (α × Source)} {a : α}
    (h : advance (nextName first) body source = .ok (.more a rest))
    (hbody : ∀ {name source rest}, body name source = .ok (a, rest) →
      Takes (body name) source (a, ·) rest) :
    Takes (advance (nextName first) body) source (.more a) rest := by
  obtain ⟨name, left, hnext, h⟩ := advance_eq_more.mp h
  exact (takes_nextName_more hnext).bind ((hbody h).map fun _ => rfl)

theorem takes_readMembers {value : Source → Except Problem (α × Source)} (hvalue : Scans value)
    {fuel : Nat} {members : List (String × α)}
    (h : readMembers value first fuel source = .ok (members, rest)) :
    TakesWithin (readMembers value first) source (members, ·) rest := by
  induction fuel generalizing first source members with
  | zero => cases h
  | succ fuel ih =>
    rcases readMembers_eq_ok.mp h with ⟨hdone, rfl⟩ | ⟨member, left, others, hround, hothers, rfl⟩
    · refine .last (takes_nextName_done hdone) nofun fun hdone => ?_
      exact readMembers_eq_ok.mpr (.inl ⟨hdone, rfl⟩)
    · refine .round (takes_advance_name hround fun h => ?_) nofun (ih hothers)
        fun hround hothers => ?_
      · obtain ⟨behind, hcolon, h⟩ := bind_eq_ok.mp h
        obtain ⟨⟨a, left'⟩, hread, h⟩ := bind_eq_ok.mp h
        cases h
        exact (takes_expectColon hcolon).bind ((hvalue.takes hread).map fun _ => rfl)
      · exact readMembers_eq_ok.mpr (.inr ⟨member, _, others, hround, hothers, rfl⟩)

end Members

/-! ### Values of any kind -/

/-- A word stands for a value. -/
theorem takes_word {letters : List Char} {value json : Json} {source rest : Source}
    (h : (do return (value, ← expectWord letters source)) = .ok (json, rest)) :
    Takes (fun source => do return (value, ← expectWord letters source)) source (json, ·) rest := by
  obtain ⟨left, hword, h⟩ := bind_eq_ok.mp h
  cases h
  exact (takes_expectWord hword).map fun _ => rfl

theorem scans_readValueWith {inner : Option (Source → Except Problem (Json × Source))}
    (h : ∀ read ∈ inner, Scans read) : Scans (readValueWith inner) := by
  refine .of_cons (fun source => ?_) nofun fun {symbol tail rest json} hsame hread => ?_
  · simp only [readValueWith, skipSpace_skipSpace]
  -- The cases are those of the first symbol; a number is told from the words before it by that
  -- symbol alone.
  unfold readValueWith at hread
  rw [hsame] at hread
  split at hread
  · cases hread
  · cases hread
  rename_i c _ heq
  cases heq
  split at hread
  · rename_i hc
    subst hc
    exact ⟨by decide, (takes_word hread).cons fun _ => rfl⟩
  rename_i hnull
  split at hread
  · rename_i hc
    subst hc
    exact ⟨by decide, (takes_word hread).cons fun _ => rfl⟩
  rename_i htrue
  split at hread
  · rename_i hc
    subst hc
    exact ⟨by decide, (takes_word hread).cons fun _ => rfl⟩
  rename_i hfalse
  split at hread
  · rename_i hc
    obtain ⟨⟨n, left⟩, hnumber, hread⟩ := bind_eq_ok.mp hread
    cases hread
    -- A number has no symbol in front that is given up, so all of it is taken with the first
    -- symbol.
    have htakes : Takes (fun source => readNumber source >>= fun read =>
        .ok (.number read.1, read.2)) (.char c :: tail) (Json.number n, ·) rest :=
      (takes_readNumber hnumber).map fun _ => rfl
    refine ⟨?_, htakes.of_cons nofun fun source => ?_⟩
    · rintro ⟨⟩
      cases hc
    · unfold readValueWith
      rw [skipSpace_of_eq_cons hsame]
      simp only [if_neg hnull, if_neg htrue, if_neg hfalse, if_pos hc]
      rfl
  split at hread
  · rename_i hc
    subst hc
    obtain ⟨⟨text, left⟩, htext, hread⟩ := bind_eq_ok.mp hread
    cases hread
    exact ⟨by decide, Takes.cons ((takes_readString htext).map fun _ => rfl) fun _ => rfl⟩
  split at hread
  · rename_i hc
    subst hc
    cases inner with
    | none => cases hread
    | some read =>
      -- An array and an object are taken as far as their items and members are.
      obtain ⟨⟨items, left⟩, hitems, hread⟩ := bind_eq_ok.mp hread
      cases hread
      refine ⟨by decide, Takes.cons ?_ fun _ => rfl⟩
      exact (takes_readItems (h read rfl) hitems).takes.map fun _ => rfl
  split at hread
  · rename_i hc
    subst hc
    cases inner with
    | none => cases hread
    | some read =>
      obtain ⟨⟨members, left⟩, hmembers, hread⟩ := bind_eq_ok.mp hread
      cases hread
      refine ⟨by decide, Takes.cons ?_ fun _ => rfl⟩
      exact (takes_readMembers (h read rfl) hmembers).takes.map fun _ => rfl
  · cases hread

theorem scans_readValue (room : Nat) : Scans (readValue room) := by
  induction room with
  | zero => exact scans_readValueWith nofun
  | succ room ih =>
    refine scans_readValueWith fun read hread => ?_
    cases hread
    exact ih

end Wireframe.Json
