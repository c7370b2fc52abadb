/-
How far readers of records reach.

* `readField` — a member of a record, read into a draft;
* `readNamed_eq_ok`, `readPositional_eq_ok` — what reading a record comes to, member by member and
  item by item;
* `scans_record` — a record is read like any value if its fields are.
-/
import Wireframe.Proofs.Json.PassingOver

namespace Wireframe.Json

open Source

variable {δ : Type}

/-- A member of a record behind its name, read into a draft. -/
def readField (room : Nat) (fields : List (RecordField δ)) (draft : δ) (name : String)
    (source : Source) : Except Problem (δ × Source) :=
  match fields.find? (·.name == name) with
  | some field =>
      if field.filled draft then .error (.mismatch (.duplicateField name))
      else do field.fill draft room (← expectColon source)
  | none => do return (draft, ← skipValue (← expectColon source))

/-- All fields are read like values. -/
def AllScan (room : Nat) (fields : List (RecordField δ)) : Prop :=
  ∀ field ∈ fields, ∀ draft, Scans (field.fill draft room)

section Records

variable {room : Nat} {fields : List (RecordField δ)} {field : RecordField δ} {first : Bool}
  {fuel count : Nat} {draft next done : δ} {name : String} {source rest : Source}

/-! ### By name -/

theorem readField_eq_ok : readField room fields draft name source = .ok (next, rest) ↔
    (∃ field left, fields.find? (·.name == name) = some field ∧ field.filled draft = false ∧
      expectColon source = .ok left ∧ field.fill draft room left = .ok (next, rest)) ∨
    (fields.find? (·.name == name) = none ∧ next = draft ∧
      ∃ left, expectColon source = .ok left ∧ skipValue left = .ok rest) := by
  unfold readField
  constructor
  · intro h
    -- A field that is known is filled once; a name that is not known is passed over with its value.
    split at h
    · rename_i field hfind
      split at h
      · cases h
      · rename_i hempty
        obtain ⟨left, hcolon, h⟩ := bind_eq_ok.mp h
        exact .inl ⟨field, left, hfind, Bool.eq_false_iff.mpr hempty, hcolon, h⟩
    · rename_i hfind
      obtain ⟨left, hcolon, h⟩ := bind_eq_ok.mp h
      obtain ⟨left', hskip, h⟩ := bind_eq_ok.mp h
      cases h
      exact .inr ⟨hfind, rfl, left, hcolon, hskip⟩
  · rintro (⟨field, left, hfind, hempty, hcolon, h⟩ | ⟨hfind, rfl, left, hcolon, hskip⟩)
    · simp only [hfind, hempty, Bool.false_eq_true, if_false]
      exact bind_eq_ok.mpr ⟨left, hcolon, h⟩
    · simp only [hfind]
      exact bind_eq_ok.mpr ⟨left, hcolon, bind_eq_ok.mpr ⟨rest, hskip, rfl⟩⟩

theorem takes_readField (hfields : AllScan room fields)
    (h : readField room fields draft name source = .ok (next, rest)) :
    Takes (readField room fields draft name) source (next, ·) rest := by
  rcases readField_eq_ok.mp h with ⟨field, left, hfind, hempty, hcolon, h⟩ |
    ⟨hfind, rfl, left, hcolon, hskip⟩
  · have hread : Takes (fun source => expectColon source >>= field.fill draft room) source
        (next, ·) rest :=
      (takes_expectColon hcolon).bind
        ((hfields field (List.mem_of_find?_eq_some hfind) draft).takes h)
    obtain ⟨taken, hsource, hread⟩ := hread
    refine ⟨taken, hsource, fun other hother => ?_⟩
    obtain ⟨left, hcolon, h⟩ := bind_eq_ok.mp (hread other hother)
    exact readField_eq_ok.mpr (.inl ⟨field, left, hfind, hempty, hcolon, h⟩)
  · obtain ⟨taken, hsource, hread⟩ := (takes_expectColon hcolon).bind (takes_skipValue hskip)
    refine ⟨taken, hsource, fun other hother => ?_⟩
    obtain ⟨left, hcolon, h⟩ := bind_eq_ok.mp (hread other hother)
    exact readField_eq_ok.mpr (.inr ⟨hfind, rfl, left, hcolon, h⟩)

/-- The record ends with nothing missing, or a member is read into the draft and others follow. -/
theorem readNamed_eq_ok : readNamed room fields first (fuel + 1) draft source = .ok (done, rest) ↔
    nextName first source = .ok (.done rest) ∧ missing? fields draft = none ∧ done = draft ∨
    ∃ next left, advance (nextName first) (readField room fields draft) source =
      .ok (.more next left) ∧ readNamed room fields false fuel next left = .ok (done, rest) := by
  rw [readNamed, bind_eq_ok]
  constructor
  · rintro ⟨onward, hnext, h⟩
    -- The reader has the two ways of treating a field in it; they are those of `readField`.
    cases onward with
    | done rest =>
      dsimp only at h
      split at h
      · cases h
      · rename_i hmissing
        cases h
        exact .inl ⟨hnext, hmissing, rfl⟩
    | more name left =>
      dsimp only at h
      split at h
      · rename_i field hfind
        split at h
        · cases h
        · rename_i hempty
          obtain ⟨behind, hcolon, h⟩ := bind_eq_ok.mp h
          obtain ⟨⟨next, left'⟩, hfill, h⟩ := bind_eq_ok.mp h
          refine .inr ⟨next, left', advance_eq_more.mpr ⟨name, left, hnext, ?_⟩, h⟩
          exact readField_eq_ok.mpr
            (.inl ⟨field, behind, hfind, Bool.eq_false_iff.mpr hempty, hcolon, hfill⟩)
      · rename_i hfind
        obtain ⟨behind, hcolon, h⟩ := bind_eq_ok.mp h
        obtain ⟨left', hskip, h⟩ := bind_eq_ok.mp h
        refine .inr ⟨draft, left', advance_eq_more.mpr ⟨name, left, hnext, ?_⟩, h⟩
        exact readField_eq_ok.mpr (.inr ⟨hfind, rfl, behind, hcolon, hskip⟩)
  · rintro (⟨hnext, hmissing, rfl⟩ | ⟨next, left, hround, h⟩)
    · refine ⟨_, hnext, ?_⟩
      simp only [hmissing]
      rfl
    -- Backwards, the round is taken apart into the name and the field.
    · obtain ⟨name, behind, hnext, hfield⟩ := advance_eq_more.mp hround
      refine ⟨_, hnext, ?_⟩
      rcases readField_eq_ok.mp hfield with ⟨field, left', hfind, hempty, hcolon, hfill⟩ |
        ⟨hfind, rfl, left', hcolon, hskip⟩
      · simp only [hfind, hempty, Bool.false_eq_true, if_false]
        exact bind_eq_ok.mpr ⟨left', hcolon, bind_eq_ok.mpr ⟨(next, left), hfill, h⟩⟩
      · simp only [hfind]
        exact bind_eq_ok.mpr ⟨left', hcolon, bind_eq_ok.mpr ⟨left, hskip, h⟩⟩

theorem takes_readNamed (hfields : AllScan room fields)
    (h : readNamed room fields first fuel draft source = .ok (done, rest)) :
    TakesWithin (fun fuel => readNamed room fields first fuel draft) source (done, ·) rest := by
  induction fuel generalizing first draft source with
  | zero => cases h
  | succ fuel ih =>
    rcases readNamed_eq_ok.mp h with ⟨hdone, hmissing, rfl⟩ | ⟨next, left, hround, h⟩
    · refine .last (takes_nextName_done hdone) nofun fun hdone => ?_
      exact readNamed_eq_ok.mpr (.inl ⟨hdone, hmissing, rfl⟩)
    · refine .round (takes_advance_name hround (takes_readField hfields)) nofun (ih h)
        fun hround h => ?_
      exact readNamed_eq_ok.mpr (.inr ⟨next, _, hround, h⟩)

/-! ### By place -/

/-- The record ends where nothing more is required, or an item is read into the draft and others
follow. -/
theorem readPositional_eq_ok :
    readPositional room (field :: fields) count draft source = .ok (done, rest) ↔
      nextItem (count == 0) source = .ok (.done rest) ∧
        (field :: fields).any (·.required) = false ∧ done = draft ∨
      ∃ next left, advance (nextItem (count == 0)) (fun _ => field.fill draft room) source =
        .ok (.more next left) ∧
          readPositional room fields (count + 1) next left = .ok (done, rest) := by
  rw [readPositional, bind_eq_ok]
  constructor
  · rintro ⟨onward, hnext, h⟩
    -- Fields that are left over must not be required; otherwise the next one is filled.
    cases onward with
    | done rest =>
      dsimp only at h
      split at h
      · cases h
      · rename_i hrequired
        cases h
        exact .inl ⟨hnext, Bool.eq_false_iff.mpr hrequired, rfl⟩
    | more next left =>
      obtain ⟨⟨next, left'⟩, hfill, h⟩ := bind_eq_ok.mp h
      exact .inr ⟨next, left', advance_eq_more.mpr ⟨_, left, hnext, hfill⟩, h⟩
  · rintro (⟨hnext, hrequired, rfl⟩ | ⟨next, left, hround, h⟩)
    · refine ⟨_, hnext, ?_⟩
      simp only [hrequired, Bool.false_eq_true, if_false]
      rfl
    · obtain ⟨_, left', hnext, hfill⟩ := advance_eq_more.mp hround
      exact ⟨_, hnext, bind_eq_ok.mpr ⟨(next, left), hfill, h⟩⟩

theorem readPositional_nil_eq_ok :
    readPositional room [] count draft source = .ok (done, rest) ↔
      nextItem (count == 0) source = .ok (.done rest) ∧ done = draft := by
  rw [nextItem_eq_done, ← closeArray_eq_ok, readPositional, bind_eq_ok]
  constructor
  · rintro ⟨left, hclose, h⟩
    cases h
    exact ⟨hclose, rfl⟩
  · rintro ⟨hclose, rfl⟩
    exact ⟨rest, hclose, rfl⟩

theorem takes_readPositional (hfields : AllScan room fields)
    (h : readPositional room fields count draft source = .ok (done, rest)) :
    Takes (readPositional room fields count draft) source (done, ·) rest := by
  induction fields generalizing count draft source with
  | nil =>
    obtain ⟨hdone, rfl⟩ := readPositional_nil_eq_ok.mp h
    obtain ⟨taken, hsource, hdone⟩ := takes_nextItem_done hdone
    exact ⟨taken, hsource, fun other hother =>
      readPositional_nil_eq_ok.mpr ⟨hdone other hother, rfl⟩⟩
  | cons field fields ih =>
    obtain ⟨hfield, hfields⟩ := List.forall_mem_cons.mp hfields
    rcases readPositional_eq_ok.mp h with ⟨hdone, hrequired, rfl⟩ | ⟨next, left, hround, h⟩
    · obtain ⟨taken, hsource, hdone⟩ := takes_nextItem_done hdone
      exact ⟨taken, hsource, fun other hother =>
        readPositional_eq_ok.mpr (.inl ⟨hdone other hother, hrequired, rfl⟩)⟩
    · obtain ⟨taken, hsource, hround⟩ := takes_advance_item (hfield draft) hround
      obtain ⟨more, hleft, hmore⟩ := ih hfields h
      rw [hleft] at hsource hround
      refine ⟨taken ++ more, by rw [hsource, List.append_assoc], fun other hother => ?_⟩
      rw [List.append_assoc]
      exact readPositional_eq_ok.mpr
        (.inr ⟨next, more ++ other, hround _ (hother.append more), hmore other hother⟩)

end Records

/-! ### Records -/

theorem scans_record {fields : List (RecordField δ)} (h : ∀ room, AllScan room fields) (empty : δ)
    (room : Nat) : Scans (record fields empty room) := by
  refine .of_cons (fun source => ?_) nofun fun {symbol tail rest done} hsame hread => ?_
  · simp only [record, skipSpace_skipSpace]
  · unfold record at hread
    rw [hsame] at hread
    split at hread
    · rename_i heq
      cases heq
      cases room with
      | zero => cases hread
      | succ room => exact ⟨by decide, (takes_readPositional (h room) hread).cons fun _ => rfl⟩
    · rename_i heq
      cases heq
      cases room with
      | zero => cases hread
      | succ room => exact ⟨by decide, (takes_readNamed (h room) hread).takes.cons fun _ => rfl⟩
    · cases hread

end Wireframe.Json
