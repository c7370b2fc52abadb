/-
How far readers of lists reach.

* `nextItem_eq_done`, `nextItem_eq_more` — the end of an array, and what stands in front of an item;
* `advance` — one round of a loop over items or members;
* `TakesWithin` — a loop takes symbols off a source if it has a unit of fuel for each of them;
* `scans_listOf` — a list is read like any value if its items are.
-/
import Wireframe.Proofs.Json.Scanning

namespace Wireframe.Json

open Source

variable {α β : Type}

/-! ### Items -/

/-- A source that starts so behind blanks is nothing that a number goes on with. -/
theorem ends_of_skipSpace {source : Source} (h : Ends (skipSpace source)) : Ends source := by
  match source with
  | [] => trivial
  | .stray b :: source => trivial
  | .char c :: source =>
    by_cases hc : isSpace c = true
    · simp only [isSpace, Bool.or_eq_true, beq_iff_eq] at hc
      rcases hc with ((rfl | rfl) | rfl) | rfl <;> rfl
    · rwa [skipSpace, if_neg hc] at h

section Items

variable {first : Bool} {source rest : Source}

theorem nextItem_eq_done :
    nextItem first source = .ok (.done rest) ↔ skipSpace source = .char ']' :: rest := by
  unfold nextItem
  constructor
  · intro h
    split at h
    · cases h
    · rename_i c tail hsource
      split at h
      · rename_i hc
        cases h
        rw [hsource, hc]
      split at h
      · cases h
      split at h
      · split at h <;> cases h
      · cases h
    · split at h <;> cases h
  · intro h
    rw [h]
    rfl

/-- Another item follows, at once or behind a comma. -/
theorem nextItem_eq_more : nextItem first source = .ok (.more () rest) ↔ OpensValue rest ∧
    if first then skipSpace source = rest
    else ∃ left, skipSpace source = .char ',' :: left ∧ skipSpace left = rest := by
  unfold nextItem
  constructor
  · intro h
    split at h
    · cases h
    · rename_i c left hsource
      split at h
      · cases h
      rename_i hc
      split at h
      · rename_i hfirst
        cases h
        exact ⟨fun hsymbol => hc (Symbol.char.inj hsymbol), by rwa [if_pos hfirst]⟩
      rename_i hfirst
      split at h
      · rename_i hcomma
        rw [if_neg hfirst]
        -- An item must follow the comma, as the array does not end there.
        split at h
        · cases h
        · cases h
        · rename_i hnil hbracket
          cases h
          refine ⟨?_, left, by rw [hsource, hcomma], rfl⟩
          cases hleft : skipSpace left with
          | nil => exact hnil hleft
          | cons symbol tail => exact fun hsymbol => hbracket tail (hsymbol ▸ hleft)
      · cases h
    -- Bytes that are no letter open a value that is refused later.
    · rename_i hnil hchar
      split at h
      · rename_i hfirst
        cases h
        refine ⟨?_, if_pos hfirst ▸ rfl⟩
        cases hsource : skipSpace source with
        | nil => exact hnil hsource
        | cons symbol tail => exact fun hsymbol => hchar _ tail (hsymbol ▸ hsource)
      · cases h
  · rintro ⟨hopens, h⟩
    -- Backwards, the first symbol is a value, so that it is neither the bracket nor a comma.
    cases first with
    | true =>
      rw [if_pos rfl] at h
      rw [h]
      match rest, hopens with
      | .stray b :: tail, _ => rfl
      | .char c :: tail, hsymbol =>
        have hc : ¬ c = ']' := fun hc => hsymbol (hc ▸ rfl)
        simp only [if_neg hc, if_true]
    | false =>
      rw [if_neg Bool.false_ne_true] at h
      obtain ⟨left, hsource, hleft⟩ := h
      have hcomma : ¬ ',' = ']' := by decide
      rw [hsource]
      simp only [if_neg hcomma, Bool.false_eq_true, if_false, if_true, hleft]
      split
      · exact absurd hopens id
      · exact absurd rfl hopens
      · rfl

/-- What stands in front of an item. -/
theorem exists_lead (h : nextItem first source = .ok (.more () rest)) :
    ∃ lead, source = lead ++ rest ∧ ∀ other, OpensValue (skipSpace other) →
      nextItem first (lead ++ other) = .ok (.more () (skipSpace other)) := by
  obtain ⟨-, h⟩ := nextItem_eq_more.mp h
  obtain ⟨blanks, hsource, hskip⟩ := exists_blanks source
  cases first with
  | true =>
    rw [if_pos rfl] at h
    refine ⟨blanks, h ▸ hsource, fun other hopens => nextItem_eq_more.mpr ⟨hopens, ?_⟩⟩
    exact (if_pos rfl).mpr (hskip other)
  | false =>
    rw [if_neg Bool.false_ne_true] at h
    obtain ⟨left, hcomma, rfl⟩ := h
    obtain ⟨more, hleft, hmore⟩ := exists_blanks left
    refine ⟨blanks ++ .char ',' :: more, ?_, fun other hopens =>
      nextItem_eq_more.mpr ⟨hopens, (if_neg Bool.false_ne_true).mpr ⟨more ++ other, ?_, ?_⟩⟩⟩
    · rw [List.append_assoc, List.cons_append, ← hleft, ← hcomma, ← hsource]
    · rw [List.append_assoc, hskip]
      rfl
    · exact hmore other

theorem ends_of_nextItem {onward : Onward Unit} (h : nextItem false source = .ok onward) :
    Ends source := by
  refine ends_of_skipSpace ?_
  cases onward with
  | done rest =>
    rw [nextItem_eq_done.mp h]
    rfl
  | more next rest =>
    obtain ⟨-, left, hsource, -⟩ := nextItem_eq_more.mp h
    rw [hsource]
    rfl

theorem closeArray_eq_ok : closeArray source = .ok rest ↔ skipSpace source = .char ']' :: rest := by
  unfold closeArray
  constructor
  · intro h
    split at h
    · cases h
    · rename_i hsource
      cases h
      exact hsource
    · cases h
  · intro h
    rw [h]
    rfl

end Items

/-! ### Rounds of a loop -/

/-- One round of a loop: where it goes on, `body` reads what comes next. -/
def advance {ν : Type} (next : Source → Except Problem (Onward ν))
    (body : ν → Source → Except Problem (α × Source)) (source : Source) :
    Except Problem (Onward α) := do
  match ← next source with
  | .done rest => return .done rest
  | .more n rest =>
      let (a, rest) ← body n rest
      return .more a rest

section Rounds

variable {ν : Type} {next : Source → Except Problem (Onward ν)}
  {body : ν → Source → Except Problem (α × Source)} {source rest : Source} {a : α}

theorem advance_eq_more : advance next body source = .ok (.more a rest) ↔
    ∃ n left, next source = .ok (.more n left) ∧ body n left = .ok (a, rest) := by
  unfold advance
  rw [bind_eq_ok]
  constructor
  · rintro ⟨onward, hnext, h⟩
    cases onward with
    | done rest => cases h
    | more n left =>
      obtain ⟨⟨b, rest⟩, hbody, h⟩ := bind_eq_ok.mp h
      cases h
      exact ⟨n, left, hnext, hbody⟩
  · rintro ⟨n, left, hnext, hbody⟩
    exact ⟨.more n left, hnext, bind_eq_ok.mpr ⟨(a, rest), hbody, rfl⟩⟩

end Rounds

/-- A loop takes some symbols off a source, like a step that takes them, if it has a unit of fuel
for each of them. -/
def TakesWithin (loop : Nat → Source → Except Problem β) (source : Source) (make : Source → β)
    (rest : Source) : Prop :=
  ∃ taken, source = taken ++ rest ∧ ∀ other, Alike rest other →
    ∀ fuel, taken.length ≤ fuel → loop fuel (taken ++ other) = .ok (make other)

namespace TakesWithin

variable {γ : Type} {step : Source → Except Problem α} {loop : Nat → Source → Except Problem β}
  {source left rest : Source} {make : Source → α} {make' : Source → β}

theorem last (hstep : Takes step source make rest) (hnil : ∀ a, step [] ≠ .ok a)
    (hloop : ∀ {fuel source rest}, step source = .ok (make rest) →
      loop (fuel + 1) source = .ok (make' rest)) : TakesWithin loop source make' rest := by
  obtain ⟨symbol, taken, hsource, htaken⟩ := hstep.exists_cons hnil
  refine ⟨symbol :: taken, hsource, fun other hother fuel hfuel => ?_⟩
  obtain ⟨fuel, rfl⟩ := Nat.exists_eq_add_one_of_ne_zero (Nat.ne_zero_of_lt hfuel)
  exact hloop (htaken other hother)

/-- One round and those behind it. -/
theorem round {loop' : Nat → Source → Except Problem γ} {make'' : Source → γ}
    (hstep : Takes step source make left) (hnil : ∀ a, step [] ≠ .ok a)
    (hnext : TakesWithin loop left make' rest)
    (hloop : ∀ {fuel source left rest}, step source = .ok (make left) →
      loop fuel left = .ok (make' rest) → loop' (fuel + 1) source = .ok (make'' rest)) :
    TakesWithin loop' source make'' rest := by
  obtain ⟨symbol, taken, hsource, htaken⟩ := hstep.exists_cons hnil
  obtain ⟨more, rfl, hnext⟩ := hnext
  refine ⟨symbol :: (taken ++ more), by rw [hsource, List.cons_append, List.append_assoc],
    fun other hother fuel hfuel => ?_⟩
  obtain ⟨fuel, rfl⟩ := Nat.exists_eq_add_one_of_ne_zero (Nat.ne_zero_of_lt hfuel)
  rw [List.length_cons, List.length_append] at hfuel
  rw [List.cons_append, List.append_assoc]
  exact hloop (htaken _ (hother.append more)) (hnext other hother fuel (by omega))

/-- With a unit of fuel for every symbol of a source nothing is missing. -/
theorem takes (h : TakesWithin loop source make' rest) :
    Takes (fun source => loop (source.length + 1) source) source make' rest := by
  obtain ⟨taken, rfl, hloop⟩ := h
  refine ⟨taken, rfl, fun other hother => hloop other hother _ ?_⟩
  rw [List.length_append]
  omega

end TakesWithin

/-! ### Lists -/

section Lists

variable {item : Source → Except Problem (α × Source)} {first : Bool} {source rest : Source}

/-- What stands in front of an item does not matter to it, and it does not matter which item stands
there. -/
theorem exists_lead_item (hitem : Scans item) {a : α}
    (h : advance (nextItem first) (fun _ => item) source = .ok (.more a rest)) :
    ∃ lead left, source = lead ++ left ∧ item left = .ok (a, rest) ∧
      ∀ {other b rest}, item other = .ok (b, rest) →
        advance (nextItem first) (fun _ => item) (lead ++ other) = .ok (.more b rest) := by
  obtain ⟨next, left, hnext, hread⟩ := advance_eq_more.mp h
  obtain ⟨lead, rfl, hlead⟩ := exists_lead hnext
  refine ⟨lead, left, rfl, hread, fun {other b rest} hother => ?_⟩
  obtain ⟨symbol, taken, hsource, hsymbol, -⟩ := hitem.starts hother
  have hopens : OpensValue (skipSpace other) := by
    rw [hsource]
    exact hsymbol
  rw [← hitem.skips] at hother
  exact advance_eq_more.mpr ⟨(), skipSpace other, hlead other hopens, hother⟩

theorem takes_nextItem_done (h : nextItem first source = .ok (.done rest)) :
    Takes (nextItem first) source .done rest := by
  refine .blanks (fun source => ?_) ?_
  · simp only [nextItem, skipSpace_skipSpace]
  · rw [nextItem_eq_done.mp h]
    exact Takes.cons (.nothing fun _ _ => rfl) fun _ => rfl

theorem takes_advance_item (hitem : Scans item) {a : α}
    (h : advance (nextItem first) (fun _ => item) source = .ok (.more a rest)) :
    Takes (advance (nextItem first) fun _ => item) source (.more a) rest := by
  obtain ⟨lead, left, rfl, hread, hlead⟩ := exists_lead_item hitem h
  obtain ⟨taken, htaken, hread⟩ := hitem.takes hread
  refine ⟨lead ++ taken, by rw [htaken, List.append_assoc], fun other hother => ?_⟩
  rw [List.append_assoc]
  exact hlead (hread other hother)

theorem advance_item_nil (onward : Onward α) :
    advance (nextItem first) (fun _ => item) [] ≠ .ok onward := nofun

theorem readItems_eq_ok {fuel : Nat} {as : List α} :
    readItems item first (fuel + 1) source = .ok (as, rest) ↔
      nextItem first source = .ok (.done rest) ∧ as = [] ∨
      ∃ a left others, advance (nextItem first) (fun _ => item) source = .ok (.more a left) ∧
        readItems item false fuel left = .ok (others, rest) ∧ as = a :: others := by
  rw [readItems, bind_eq_ok]
  constructor
  · rintro ⟨onward, hnext, h⟩
    cases onward with
    | done rest =>
      cases h
      exact .inl ⟨hnext, rfl⟩
    | more next left =>
      obtain ⟨⟨a, left'⟩, hread, h⟩ := bind_eq_ok.mp h
      obtain ⟨⟨others, rest⟩, hothers, h⟩ := bind_eq_ok.mp h
      cases h
      exact .inr ⟨a, left', others, advance_eq_more.mpr ⟨next, left, hnext, hread⟩, hothers, rfl⟩
  · rintro (⟨hnext, rfl⟩ | ⟨a, left, others, hround, hothers, rfl⟩)
    · exact ⟨_, hnext, rfl⟩
    · obtain ⟨next, left', hnext, hread⟩ := advance_eq_more.mp hround
      exact ⟨_, hnext, bind_eq_ok.mpr ⟨_, hread, bind_eq_ok.mpr ⟨_, hothers, rfl⟩⟩⟩

theorem takes_readItems (hitem : Scans item) {fuel : Nat} {as : List α}
    (h : readItems item first fuel source = .ok (as, rest)) :
    TakesWithin (readItems item first) source (as, ·) rest := by
  induction fuel generalizing first source as with
  | zero => cases h
  | succ fuel ih =>
    rcases readItems_eq_ok.mp h with ⟨hdone, rfl⟩ | ⟨a, left, others, hround, hothers, rfl⟩
    · refine .last (takes_nextItem_done hdone) nofun fun hdone => ?_
      exact readItems_eq_ok.mpr (.inl ⟨hdone, rfl⟩)
    · refine .round (takes_advance_item hitem hround) advance_item_nil (ih hothers)
        fun hround hothers => ?_
      exact readItems_eq_ok.mpr (.inr ⟨a, _, others, hround, hothers, rfl⟩)

end Lists

theorem scans_listOf {item : Reader α} (h : ∀ room, Scans (item room)) (room : Nat) :
    Scans (listOf item room) := by
  refine .of_cons (fun source => ?_) nofun fun {symbol tail rest as} hsame hread => ?_
  · simp only [listOf, skipSpace_skipSpace]
  · unfold listOf at hread
    rw [hsame] at hread
    split at hread
    · rename_i heq
      cases heq
      cases room with
      | zero => cases hread
      | succ room =>
        exact ⟨by decide, (takes_readItems (h room) hread).takes.cons fun _ => rfl⟩
    · cases hread

end Wireframe.Json
