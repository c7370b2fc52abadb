/-
Records as anyone may write them.

The members of an object may stand in any order, with blanks around them and with others among them
that mean nothing.

* `Member`, `objectText` — a member as it is written, and an object of such members;
* `FillsText` — the drafts that members lead to;
* `record_objectText` — a record whose members fill a draft with nothing missing;
* `FillsText.insert` — a member of a field that may be missing is put in anywhere.
-/
import Wireframe.Proofs.Json.RecordExchange

namespace Wireframe.Json

open Source

variable {α δ : Type}

/-! ### Members -/

/-- A member of an object as it is written: its name and the colon with blanks around them, its
value, and blanks behind it. -/
structure Member where
  name : String
  label : Source
  value : Source
  trail : Source
  reads_label (other : Source) : ∃ behind,
    nameAt (skipSpace (label ++ other)) = .ok (.more name behind) ∧
      expectColon behind = .ok other
  skips_trail (other : Source) : skipSpace (trail ++ other) = skipSpace other

/-- Members with a comma in front of each of them, but for the first one of an object. -/
def membersText (first : Bool) : List Member → Source
  | [] => []
  | member :: members =>
      (if first then [] else [.char ',']) ++ member.label ++ member.value ++ member.trail ++
        membersText false members

/-- An object of these members. -/
def objectText (members : List Member) : Source :=
  .char '\x7b' :: (membersText true members ++ [.char '\x7d'])

/-- A member as it is usually written. -/
def Member.plain (name : String) (value : Source) : Member where
  name := name
  label := ofChars (quote name) ++ [.char ':']
  value := value
  trail := []
  reads_label other := by
    refine ⟨.char ':' :: other, ?_, rfl⟩
    rw [List.append_assoc, skipSpace_quote]
    exact nameAt_quote name _
  skips_trail other := rfl

/-- Members that are read into a draft one by one lead to another one. -/
inductive FillsText (room : Nat) (fields : List (RecordField δ)) : δ → List Member → δ → Prop
  | nil (draft : δ) : FillsText room fields draft [] draft
  | cons {draft next done : δ} {member : Member} {members : List Member}
      (hread : readField room fields draft member.name (.char ':' :: member.value) =
        .ok (next, []))
      (hmembers : FillsText room fields next members done) :
      FillsText room fields draft (member :: members) done

section Members

variable {room : Nat} {fields : List (RecordField δ)} {draft next done : δ} {member : Member}
  {members : List Member} {first : Bool} {rest : Source}

theorem Member.nextName_eq (member : Member) (first : Bool) (other : Source) : ∃ behind,
    nextName first ((if first then [] else [.char ',']) ++ member.label ++ other) =
      .ok (.more member.name behind) ∧ expectColon behind = .ok other := by
  obtain ⟨behind, hname, hcolon⟩ := member.reads_label other
  refine ⟨behind, nextName_eq_more.mpr ?_, hcolon⟩
  cases first with
  | true => exact hname
  | false => exact ⟨member.label ++ other, rfl, hname⟩

theorem readField_congr {name : String} {source source' : Source}
    (h : expectColon source = expectColon source') :
    readField room fields draft name source = readField room fields draft name source' := by
  rw [readField, readField, h]

/-- A member that is read into a draft, in front of others. -/
theorem readNamed_member (hfields : AllScan room fields)
    (hread : readField room fields draft member.name (.char ':' :: member.value) = .ok (next, []))
    {fuel : Nat} {others : Source}
    (hothers : readNamed room fields false fuel next others = .ok (done, rest)) (first : Bool) :
    readNamed room fields first (fuel + 1) draft ((if first then [] else [.char ',']) ++
      member.label ++ member.value ++ member.trail ++ others) = .ok (done, rest) := by
  have hskip : nextName false (member.trail ++ others) = nextName false others := by
    rw [← nextName_skips, member.skips_trail, nextName_skips]
  rw [← readNamed_congr hskip] at hothers
  obtain ⟨taken, htaken, hfield⟩ := takes_readField hfields hread
  have hvalue := hfield _ ((ends_of_readNamed hothers).alike [])
  obtain ⟨behind, hname, hcolon⟩ :=
    member.nextName_eq first (member.value ++ (member.trail ++ others))
  have hsame : expectColon behind =
      expectColon (.char ':' :: member.value ++ (member.trail ++ others)) := hcolon
  rw [← List.append_nil taken, ← htaken, ← readField_congr hsame] at hvalue
  have hround := advance_eq_more.mpr ⟨member.name, behind, hname, hvalue⟩
  have hall := readNamed_eq_ok.mpr (.inr ⟨next, _, hround, hothers⟩)
  simpa only [List.append_assoc] using hall

/-- Members that fill a draft with nothing missing are read. -/
theorem readNamed_membersText (hfields : AllScan room fields)
    (h : FillsText room fields draft members done) (hmissing : missing? fields done = none)
    (first : Bool) (rest : Source) :
    readNamed room fields first (members.length + 1) draft
      (membersText first members ++ .char '\x7d' :: rest) = .ok (done, rest) := by
  induction h generalizing first with
  | nil draft => exact readNamed_eq_ok.mpr (.inl ⟨nextName_eq_done.mpr rfl, hmissing, rfl⟩)
  | cons hread hmembers ih =>
    have hall := readNamed_member hfields hread (ih hmissing false) first
    simpa only [membersText, List.append_assoc, List.length_cons] using hall

/-- A record whose members fill a draft with nothing missing is read. -/
theorem record_objectText (hfields : AllScan room fields)
    (h : FillsText room fields draft members done) (hmissing : missing? fields done = none) :
    record fields draft (room + 1) (objectText members) = .ok (done, []) :=
  readNamed_enough hfields (readNamed_membersText hfields h hmissing true [])

variable {target : RecordField δ} {read : Source → Except Problem (α × Source)}
  {set : δ → Option α → δ} {a : Option α}

/-- Other members leave the place of a field alone. -/
theorem FillsText.spares (hslot : Slot room fields target read set)
    (h : FillsText room fields (set draft a) members done)
    (hothers : ∀ member ∈ members, member.name ≠ target.name) :
    ∃ draft', done = set draft' a ∧
      ∀ b, FillsText room fields (set draft b) members (set draft' b) := by
  induction members generalizing draft with
  | nil =>
    cases h
    exact ⟨draft, rfl, fun b => .nil _⟩
  | cons member members ih =>
    obtain ⟨hother, hothers⟩ := List.forall_mem_cons.mp hothers
    cases h with
    | @cons _ next _ _ _ hread hmembers =>
      obtain ⟨draft', rfl, hdraft'⟩ := hslot.spares_readField hother hread
      obtain ⟨draft'', rfl, hdraft''⟩ := ih hmembers hothers
      exact ⟨draft'', rfl, fun b => .cons (hdraft' b) (hdraft'' b)⟩

/-- A member of a field that may be missing is put in anywhere. -/
theorem FillsText.insert (hslot : Slot room fields target read set) {earlier later : List Member}
    (h : FillsText room fields (set draft none) (earlier ++ later) done)
    (hothers : ∀ member ∈ earlier ++ later, member.name ≠ target.name) :
    ∃ draft', done = set draft' none ∧ ∀ member : Member, member.name = target.name →
      ∀ b, Alone read member.value b →
        FillsText room fields (set draft none) (earlier ++ member :: later)
          (set draft' (some b)) := by
  induction earlier generalizing draft with
  | nil =>
    obtain ⟨draft', rfl, hdraft'⟩ := h.spares hslot hothers
    refine ⟨draft', rfl, fun member hname b halone => .cons ?_ (hdraft' (some b))⟩
    rw [hname]
    exact hslot.readField_eq_ok.mpr ⟨member.value, b, rfl, halone, rfl⟩
  | cons first earlier ih =>
    obtain ⟨hother, hothers⟩ := List.forall_mem_cons.mp hothers
    cases h with
    | @cons _ next _ _ _ hread hmembers =>
      obtain ⟨draft', rfl, hdraft'⟩ := hslot.spares_readField hother hread
      obtain ⟨draft'', rfl, hinsert⟩ := ih hmembers hothers
      exact ⟨draft'', rfl, fun member hname b halone =>
        .cons (hdraft' none) (hinsert member hname b halone)⟩

end Members

end Wireframe.Json
