/-
Fields of a record that are exchanged.

A field that may be missing may be exchanged like any value, and it may also be left out and put in.

* `Slot` — a field that has a place of the draft for itself;
* `exchanges_readNamed`, `exchanges_readPositional` — a field by name, and the last one by place;
* `exchanges_record` — the last field of a record where it is given.
-/
import Wireframe.Proofs.Json.Container
import Wireframe.Proofs.Json.Exchange
import Wireframe.Proofs.Json.RecordExtent

namespace Wireframe.Json

open Source

variable {α δ : Type}

/-! ### Places of a draft -/

/-- A step that goes by the draft leaves one of its places alone: `set` tells what is there. -/
def Spares (set : δ → Option α → δ) (step : δ → Source → Except Problem (δ × Source)) : Prop :=
  ∀ {draft a source next rest}, step (set draft a) source = .ok (next, rest) →
    ∃ draft', next = set draft' a ∧ ∀ b, step (set draft b) source = .ok (set draft' b, rest)

/-- A field that may be missing and that has a place of the draft for itself, which `set` fills. -/
structure Slot (room : Nat) (fields : List (RecordField δ)) (target : RecordField δ)
    (read : Source → Except Problem (α × Source)) (set : δ → Option α → δ) : Prop where
  scans : Scans read
  found : fields.find? (·.name == target.name) = some target
  filled (draft : δ) (a : Option α) : target.filled (set draft a) = a.isSome
  fill (draft : δ) (source : Source) : target.fill (set draft none) room source =
    read source >>= fun result => .ok (set draft (some result.1), result.2)
  optional : ∀ field ∈ fields, field.name = target.name → field.required = false
  sparesFilled : ∀ field ∈ fields, field.name ≠ target.name → ∀ draft a b,
    field.filled (set draft a) = field.filled (set draft b)
  spares : ∀ field ∈ fields, field.name ≠ target.name →
    Spares set fun draft => field.fill draft room

namespace Slot

variable {room : Nat} {fields : List (RecordField δ)} {target : RecordField δ}
  {read : Source → Except Problem (α × Source)} {set : δ → Option α → δ} {first : Bool}
  {fuel : Nat} {draft next done : δ} {name : String} {source left rest : Source}

theorem missing?_set (h : Slot room fields target read set) (draft : δ) (a b : Option α) :
    missing? fields (set draft a) = missing? fields (set draft b) := by
  have hsame : ∀ field ∈ fields, (field.required && !field.filled (set draft a)) =
      (field.required && !field.filled (set draft b)) := by
    intro field hfield
    by_cases hname : field.name = target.name
    · rw [h.optional field hfield hname]
      rfl
    · rw [h.sparesFilled field hfield hname draft a b]
  rw [missing?, missing?, ← List.head?_filter, ← List.head?_filter, List.filter_congr hsame]

/-- What is filled with the value of the field. -/
theorem fill_eq_ok (h : Slot room fields target read set) :
    target.fill (set draft none) room source = .ok (next, rest) ↔
      ∃ a, read source = .ok (a, rest) ∧ next = set draft (some a) := by
  rw [h.fill, bind_eq_ok]
  constructor
  · rintro ⟨⟨a, left⟩, hread, h⟩
    cases h
    exact ⟨a, hread, rfl⟩
  · rintro ⟨a, hread, rfl⟩
    exact ⟨(a, rest), hread, rfl⟩

theorem readField_eq_ok (h : Slot room fields target read set) :
    readField room fields (set draft none) target.name source = .ok (next, rest) ↔
      ∃ left a, expectColon source = .ok left ∧ read left = .ok (a, rest) ∧
        next = set draft (some a) := by
  rw [Json.readField_eq_ok]
  constructor
  · rintro (⟨field, left, hfind, -, hcolon, hfill⟩ | ⟨hfind, -⟩)
    · rw [h.found] at hfind
      cases hfind
      obtain ⟨a, hread, rfl⟩ := h.fill_eq_ok.mp hfill
      exact ⟨left, a, hcolon, hread, rfl⟩
    · rw [h.found] at hfind
      cases hfind
  · rintro ⟨left, a, hcolon, hread, rfl⟩
    exact .inl ⟨target, left, h.found, h.filled draft none, hcolon,
      h.fill_eq_ok.mpr ⟨a, hread, rfl⟩⟩

/-- The value of another member does not touch the place of the field. -/
theorem spares_readField (h : Slot room fields target read set) (hname : name ≠ target.name) :
    Spares set fun draft => readField room fields draft name := by
  intro draft a source next rest hread
  rcases Json.readField_eq_ok.mp hread with ⟨field, left, hfind, hempty, hcolon, hfill⟩ |
    ⟨hfind, rfl, left, hcolon, hskip⟩
  · have hfield : field ∈ fields := List.mem_of_find?_eq_some hfind
    have hother : field.name ≠ target.name := by
      have hsame := List.find?_some hfind
      rw [beq_iff_eq] at hsame
      exact hsame ▸ hname
    obtain ⟨draft', hnext, hdraft'⟩ := h.spares field hfield hother hfill
    refine ⟨draft', hnext, fun b => Json.readField_eq_ok.mpr (.inl ⟨field, left, hfind, ?_,
      hcolon, hdraft' b⟩)⟩
    rw [← hempty]
    exact h.sparesFilled field hfield hother draft b a
  · exact ⟨draft, rfl, fun b => Json.readField_eq_ok.mpr (.inr ⟨hfind, rfl, left, hcolon, hskip⟩)⟩

/-- Once the field is filled, its name does not occur any more. -/
theorem readNamed_of_filled (h : Slot room fields target read set) {a : α}
    (hread : readNamed room fields first fuel (set draft (some a)) source = .ok (done, rest)) :
    ∃ draft', ∀ b, readNamed room fields first fuel (set draft b) source =
      .ok (set draft' b, rest) := by
  induction fuel generalizing first draft source with
  | zero => cases hread
  | succ fuel ih =>
    rcases readNamed_eq_ok.mp hread with ⟨hdone, hmissing, -⟩ | ⟨next, left, hround, hread⟩
    -- The record is at its end, and whether a field is missing does not depend on what the target
    -- has.
    · refine ⟨draft, fun b => readNamed_eq_ok.mpr (.inl ⟨hdone, ?_, rfl⟩)⟩
      rw [← hmissing]
      exact h.missing?_set draft b (some a)
    -- A field that comes later is another one: the target is filled, and a second value is refused.
    · obtain ⟨name, behind, hnext, hfield⟩ := advance_eq_more.mp hround
      have hname : name ≠ target.name := by
        rintro rfl
        rcases Json.readField_eq_ok.mp hfield with ⟨field, left, hfind, hempty, -⟩ | ⟨hfind, -⟩
        · rw [h.found] at hfind
          cases hfind
          rw [h.filled] at hempty
          cases hempty
        · rw [h.found] at hfind
          cases hfind
      obtain ⟨draft', rfl, hdraft'⟩ := h.spares_readField hname hfield
      obtain ⟨draft'', hdraft''⟩ := ih hread
      exact ⟨draft'', fun b => readNamed_eq_ok.mpr (.inr
        ⟨set draft' b, left, advance_eq_more.mpr ⟨name, behind, hnext, hdraft' b⟩, hdraft'' b⟩)⟩

end Slot

section Slots

variable {room : Nat} {fields : List (RecordField δ)} {target : RecordField δ}
  {read : Source → Except Problem (α × Source)} {set : δ → Option α → δ} {first : Bool}
  {fuel count : Nat} {draft done : δ} {name : String} {source left rest : Source}

theorem exists_nextName (h : readNamed room fields first fuel draft source = .ok (done, rest)) :
    ∃ onward, nextName first source = .ok onward := by
  cases fuel with
  | zero => cases h
  | succ fuel =>
    obtain ⟨onward, hnext, -⟩ := bind_eq_ok.mp h
    exact ⟨onward, hnext⟩

theorem ends_of_readNamed (h : readNamed room fields false fuel draft source = .ok (done, rest)) :
    Ends source := by
  obtain ⟨onward, hnext⟩ := exists_nextName h
  exact ends_of_nextName hnext

theorem ends_of_nextName_done (h : nextName first source = .ok (.done rest)) : Ends source := by
  refine ends_of_skipSpace ?_
  rw [nextName_eq_done.mp h]
  rfl

/-- The name of a member and its colon, in front of any value. -/
theorem exists_label (hnext : nextName first source = .ok (.more name left))
    (hcolon : expectColon left = .ok rest) :
    ∃ label, source = label ++ rest ∧ ∀ other, ∃ behind,
      nextName first (label ++ other) = .ok (.more name behind) ∧
        expectColon behind = .ok other := by
  obtain ⟨taken, rfl, hname⟩ := takes_nextName_more hnext
  obtain ⟨blanks, hleft, hskip⟩ := exists_blanks left
  rw [expectColon_eq_ok.mp hcolon] at hleft
  refine ⟨taken ++ (blanks ++ [.char ':']), ?_, fun other => ⟨blanks ++ .char ':' :: other, ?_, ?_⟩⟩
  · rw [hleft]
    simp only [List.append_assoc, List.singleton_append]
  · -- what follows the name starts with a blank or with the colon, as before
    have hother : Alike left (blanks ++ .char ':' :: other) := by
      rw [hleft]
      cases blanks <;> exact .inl rfl
    simpa only [List.append_assoc, List.singleton_append] using hname _ hother
  · exact expectColon_eq_ok.mpr (hskip _)

/-- A name as it is written, behind a comma unless it is the first one. -/
theorem nextName_quote (first : Bool) (name : String) (source : Source) :
    nextName first ((if first then [] else [.char ',']) ++ ofChars (quote name) ++ source) =
      .ok (.more name source) := by
  have hname : nameAt (skipSpace (ofChars (quote name) ++ source)) = .ok (.more name source) := by
    rw [skipSpace_quote, nameAt_quote]
  cases first with
  | true => exact nextName_eq_more.mpr hname
  | false => exact nextName_eq_more.mpr ⟨_, rfl, hname⟩

/-- The comma in front of a member is left out where the member comes first. -/
theorem exists_trail {onward : Onward String} (h : nextName false source = .ok onward)
    (first : Bool) :
    ∃ trail after, source = trail ++ after ∧ nextName first after = .ok onward := by
  cases first with
  | false => exact ⟨[], source, rfl, h⟩
  | true =>
    cases onward with
    | done rest => exact ⟨[], source, rfl, nextName_eq_done.mpr (nextName_eq_done.mp h)⟩
    | more name rest =>
      obtain ⟨left, hcomma, hname⟩ := nextName_eq_more.mp h
      obtain ⟨blanks, hsource, -⟩ := exists_blanks source
      refine ⟨blanks ++ [.char ','], left, ?_, nextName_eq_more.mpr hname⟩
      rw [List.append_assoc, List.singleton_append, ← hcomma, ← hsource]

theorem readNamed_congr {first' : Bool} {source' : Source}
    (h : nextName first source = nextName first' source') (fuel : Nat) (draft : δ) :
    readNamed room fields first fuel draft source =
      readNamed room fields first' fuel draft source' := by
  cases fuel with
  | zero => rfl
  | succ fuel => rw [readNamed, readNamed, h]

/-- A unit of fuel for each symbol is enough. -/
theorem readNamed_enough (hfields : AllScan room fields)
    (h : readNamed room fields first fuel draft source = .ok (done, rest)) :
    readNamed room fields first (source.length + 1) draft source = .ok (done, rest) :=
  (takes_readNamed hfields h).takes.read_eq

/-- A field that is missing may be put in at the end. -/
theorem exchanges_missing (hfields : AllScan room fields)
    (hslot : Slot room fields target read set) (hdone : nextName first source = .ok (.done rest))
    (hmissing : missing? fields (set draft none) = none) :
    Exchanges
      (fun source => readNamed room fields first (source.length + 1) (set draft none) source)
      (Given ((if first then [] else [.char ',']) ++ ofChars (quote target.name) ++ [.char ':']) []
        read) source none (set draft) rest := by
  -- Behind the place of the field the object ends, and it does so whatever the field has.
  have hend (first : Bool) (b : Option α) :
      readNamed room fields first 1 (set draft b) source = .ok (set draft b, rest) := by
    refine readNamed_eq_ok.mpr (.inl ⟨nextName_eq_done.mpr (nextName_eq_done.mp hdone), ?_, rfl⟩)
    rw [← hmissing]
    exact hslot.missing?_set draft b none
  -- The place is empty now; what is put in it is a comma, unless it is first, the name and a value.
  refine ⟨[], [], source, rfl, .none, fun other b hother => ?_⟩
  cases hother with
  | none => exact readNamed_enough hfields (hend first none)
  | @some text b halone =>
    refine readNamed_enough hfields
      (readNamed_eq_ok.mpr (.inr ⟨set draft (some b), source, ?_, hend false _⟩))
    have hvalue := hslot.scans.append halone (ends_of_nextName_done hdone)
    refine advance_eq_more.mpr ⟨target.name, .char ':' :: (text ++ source), ?_, ?_⟩
    · have hname := nextName_quote first target.name (.char ':' :: (text ++ source))
      simpa only [List.append_assoc, List.nil_append, List.append_nil, List.cons_append]
        using hname
    · exact hslot.readField_eq_ok.mpr ⟨text ++ source, b, rfl, hvalue, rfl⟩

/-- A field that is given may be exchanged, and left out with its name and a comma. -/
theorem exchanges_named (hfields : AllScan room fields) (hslot : Slot room fields target read set)
    {behind : Source} (hnext : nextName first source = .ok (.more target.name behind)) {a : α}
    (hfield : readField room fields (set draft none) target.name behind =
      .ok (set draft (some a), left))
    (hothers : readNamed room fields false fuel (set draft (some a)) left = .ok (done, rest)) :
    ∃ lead trail given draft', Exchanges
      (fun source => readNamed room fields first (source.length + 1) (set draft none) source)
      (Given lead trail read) source given (set draft') rest := by
  -- The field is split into its label, its value, and what follows up to the next name.
  obtain ⟨value, a, hcolon, hread, -⟩ := hslot.readField_eq_ok.mp hfield
  obtain ⟨draft', hdraft'⟩ := hslot.readNamed_of_filled hothers
  obtain ⟨label, rfl, hlabel⟩ := exists_label hnext hcolon
  obtain ⟨text, rfl, halone⟩ := hslot.scans.exists_text hread
  obtain ⟨onward, hnext'⟩ := exists_nextName hothers
  obtain ⟨trail, after, rfl, htrail⟩ := exists_trail hnext' first
  -- Leaving the field out leaves what follows in its place, so the comma goes with it.
  refine ⟨label, trail, some a, draft', [], label ++ text ++ trail, after, ?_, .some halone,
    fun other b hother => ?_⟩
  · simp only [List.append_assoc, List.nil_append]
  cases hother with
  | none =>
    have hleft := hdraft' none
    rw [← readNamed_congr (htrail.trans hnext'.symm)] at hleft
    exact readNamed_enough hfields hleft
  | @some other b halone =>
    -- With another value the round is made as before, and the rest is read from the draft that it
    -- gives.
    have hvalue := hslot.scans.append halone (ends_of_readNamed hothers)
    obtain ⟨behind, hnext, hcolon⟩ := hlabel (other ++ (trail ++ after))
    have hround : advance (nextName first) (readField room fields (set draft none))
        (label ++ (other ++ (trail ++ after))) =
          .ok (.more (set draft (some b)) (trail ++ after)) :=
      advance_eq_more.mpr ⟨target.name, behind, hnext,
        hslot.readField_eq_ok.mpr ⟨_, b, hcolon, hvalue, rfl⟩⟩
    have hall := readNamed_enough hfields
      (readNamed_eq_ok.mpr (.inr ⟨_, _, hround, hdraft' (some b)⟩))
    simpa only [List.append_assoc, List.nil_append] using hall

/-- A field of a record by name may be exchanged, left out and put in. -/
theorem exchanges_readNamed (hfields : AllScan room fields)
    (hslot : Slot room fields target read set)
    (h : readNamed room fields first fuel (set draft none) source = .ok (done, rest)) :
    ∃ lead trail given draft', Exchanges
      (fun source => readNamed room fields first (source.length + 1) (set draft none) source)
      (Given lead trail read) source given (set draft') rest := by
  induction fuel generalizing first draft source with
  | zero => cases h
  | succ fuel ih =>
    rcases readNamed_eq_ok.mp h with ⟨hdone, hmissing, -⟩ | ⟨next, left, hround, hothers⟩
    · exact ⟨_, [], none, draft, exchanges_missing hfields hslot hdone hmissing⟩
    obtain ⟨name, behind, hnext, hfield⟩ := advance_eq_more.mp hround
    by_cases hname : name = target.name
    · subst hname
      obtain ⟨value, a, -, -, rfl⟩ := hslot.readField_eq_ok.mp hfield
      exact exchanges_named hfields hslot hnext hfield hothers
    -- another member stands in front
    · obtain ⟨draft', rfl, -⟩ := hslot.spares_readField hname hfield
      obtain ⟨lead, trail, given, draft'', hplace⟩ := ih hothers
      obtain ⟨taken, rfl, htaken⟩ := takes_advance_name hround (takes_readField hfields)
      refine ⟨lead, trail, given, draft'', hplace.behind taken fun {other b} hother => ?_⟩
      have hround := htaken other ((ends_of_readNamed hother).alike left)
      exact readNamed_enough hfields (readNamed_eq_ok.mpr (.inr ⟨_, other, hround, hother⟩))

/-! ### Fields by place -/

theorem ends_of_nextItem_done (h : nextItem first source = .ok (.done rest)) : Ends source := by
  refine ends_of_skipSpace ?_
  rw [nextItem_eq_done.mp h]
  rfl

theorem ends_of_readPositional
    (h : readPositional room fields (count + 1) draft source = .ok (done, rest)) : Ends source := by
  cases fields with
  | nil => exact ends_of_nextItem_done (readPositional_nil_eq_ok.mp h).1
  | cons field fields =>
    obtain ⟨onward, hnext, -⟩ := bind_eq_ok.mp h
    exact ends_of_nextItem hnext

/-- An item that is read in front does not matter. -/
theorem Exchanges.behind_item {field : RecordField δ} {Fits : Source → α → Prop} {a : α}
    {put : α → δ} {next : δ} (hfield : Scans (field.fill draft room))
    (hround : advance (nextItem (count == 0)) (fun _ => field.fill draft room) source =
      .ok (.more next left))
    (h : Exchanges (readPositional room fields (count + 1) next) Fits left a put rest) :
    Exchanges (readPositional room (field :: fields) count draft) Fits source a put rest := by
  obtain ⟨taken, rfl, htaken⟩ := takes_advance_item hfield hround
  refine h.behind taken fun {other b} hother => ?_
  have hround := htaken other ((ends_of_readPositional hother).alike left)
  exact readPositional_eq_ok.mpr (.inr ⟨next, other, hround, hother⟩)

/-- A field that is required is given. -/
theorem advance_of_required {field : RecordField δ} (hrequired : field.required = true)
    (h : readPositional room (field :: fields) count draft source = .ok (done, rest)) :
    ∃ next left, advance (nextItem (count == 0)) (fun _ => field.fill draft room) source =
      .ok (.more next left) ∧
        readPositional room fields (count + 1) next left = .ok (done, rest) := by
  rcases readPositional_eq_ok.mp h with ⟨-, hoptional, -⟩ | hround
  · rw [List.any_cons, hrequired] at hoptional
    cases hoptional
  · exact hround

/-- An item that is put in behind a comma, unless it is the first one. -/
theorem advance_item_comma {item : Source → Except Problem (α × Source)} (hitem : Scans item)
    {a : α} (h : item source = .ok (a, rest)) (first : Bool) :
    advance (nextItem first) (fun _ => item) ((if first then [] else [.char ',']) ++ source) =
      .ok (.more a rest) := by
  obtain ⟨symbol, taken, hsource, hsymbol, -⟩ := hitem.starts h
  have hopens : OpensValue (skipSpace source) := by
    rw [hsource]
    exact hsymbol
  rw [← hitem.skips] at h
  refine advance_eq_more.mpr ⟨(), skipSpace source, nextItem_eq_more.mpr ⟨hopens, ?_⟩, h⟩
  cases first with
  | true => rfl
  | false => exact ⟨source, rfl, rfl⟩

/-- The last field of a record by place may be put in where nothing follows. -/
theorem readPositional_last (hfields : AllScan room fields)
    (hslot : Slot room fields target read set)
    (hdone : nextItem (count == 0) source = .ok (.done rest)) {text : Source} {a : α}
    (h : Alone read text a) (draft : δ) :
    readPositional room [target] count (set draft none)
      ((if count == 0 then [] else [.char ',']) ++ text ++ source) =
        .ok (set draft (some a), rest) := by
  have hscans := hfields target (List.mem_of_find?_eq_some hslot.found) (set draft none)
  have hvalue := hslot.scans.append h (ends_of_nextItem_done hdone)
  have hround := advance_item_comma hscans (hslot.fill_eq_ok.mpr ⟨a, hvalue, rfl⟩) (count == 0)
  have hclose : readPositional room [] (count + 1) (set draft (some a)) source =
      .ok (set draft (some a), rest) :=
    readPositional_nil_eq_ok.mpr ⟨nextItem_eq_done.mpr (nextItem_eq_done.mp hdone), rfl⟩
  rw [List.append_assoc]
  exact readPositional_eq_ok.mpr (.inr ⟨_, _, hround, hclose⟩)

/-- The last field of a record by place may be exchanged, left out and put in. -/
theorem exchanges_last (hfields : AllScan room fields) (hslot : Slot room fields target read set)
    (h : readPositional room [target] count (set draft none) source = .ok (done, rest)) :
    ∃ lead trail given, Exchanges (readPositional room [target] count (set draft none))
      (Given lead trail read) source given (set draft) rest := by
  have htarget := List.mem_of_find?_eq_some hslot.found
  -- The last field may be absent, as a field that can be exchanged is not required.
  have hrequired : [target].any (·.required) = false := by
    rw [List.any_cons, hslot.optional target htarget rfl]
    rfl
  rcases readPositional_eq_ok.mp h with ⟨hdone, -, -⟩ | ⟨next, left, hround, hclose⟩
  -- It is absent: a value in its place stands behind a comma, unless it is the only one.
  · refine ⟨if count == 0 then [] else [.char ','], [], none, [], [], source, rfl, .none,
      fun other b hother => ?_⟩
    cases hother with
    | none => exact readPositional_eq_ok.mpr (.inl ⟨hdone, hrequired, rfl⟩)
    | @some text b halone =>
      have hall := readPositional_last hfields hslot hdone halone draft
      simpa only [List.append_assoc, List.nil_append, List.append_nil] using hall
  -- It is there, and with it the bracket that closes the record.
  · obtain ⟨lead, left', rfl, hfill, hlead⟩ :=
      exists_lead_item (hfields target htarget (set draft none)) hround
    obtain ⟨a, hread, rfl⟩ := hslot.fill_eq_ok.mp hfill
    obtain ⟨text, rfl, halone⟩ := hslot.scans.exists_text hread
    obtain ⟨hdone, -⟩ := readPositional_nil_eq_ok.mp hclose
    refine ⟨lead, [], some a, [], lead ++ text ++ [], left, ?_, .some halone,
      fun other b hother => ?_⟩
    · simp only [List.append_assoc, List.nil_append]
    cases hother with
    | none =>
      exact readPositional_eq_ok.mpr
        (.inl ⟨nextItem_eq_done.mpr (nextItem_eq_done.mp hdone), hrequired, rfl⟩)
    | @some other b halone =>
      have hvalue := hslot.scans.append halone (ends_of_nextItem_done hdone)
      have hround := hlead (hslot.fill_eq_ok.mpr ⟨b, hvalue, rfl⟩)
      have hall := readPositional_eq_ok.mpr
        (.inr ⟨_, _, hround, readPositional_nil_eq_ok.mpr ⟨hdone, rfl⟩⟩)
      simpa only [List.append_assoc, List.nil_append, List.append_nil] using hall

/-- The last field of a record by place may be exchanged where it is given. -/
theorem exchanges_readPositional (hfields : AllScan room fields)
    (hslot : Slot room fields target read set) {earlier : List (RecordField δ)}
    (hearlier : ∀ field ∈ earlier, field ∈ fields ∧ field.name ≠ target.name)
    (h : readPositional room (earlier ++ [target]) count (set draft none) source = .ok (done, rest))
    (hfilled : target.filled done = true) :
    ∃ lead trail given draft',
      Exchanges (readPositional room (earlier ++ [target]) count (set draft none))
        (Given lead trail read) source given (set draft') rest := by
  induction earlier generalizing count draft source with
  | nil =>
    obtain ⟨lead, trail, given, hplace⟩ := exchanges_last hfields hslot h
    exact ⟨lead, trail, given, draft, hplace⟩
  | cons field earlier ih =>
    obtain ⟨⟨hfield, hname⟩, hearlier⟩ := List.forall_mem_cons.mp hearlier
    rcases readPositional_eq_ok.mp h with ⟨-, -, rfl⟩ | ⟨next, left, hround, h⟩
    · rw [hslot.filled] at hfilled
      cases hfilled
    · obtain ⟨behind, left', hnext, hfill⟩ := advance_eq_more.mp hround
      obtain ⟨draft', rfl, -⟩ := hslot.spares field hfield hname hfill
      obtain ⟨lead, trail, given, draft'', hplace⟩ := ih hearlier h
      exact ⟨lead, trail, given, draft'',
        hplace.behind_item (hfields field hfield (set draft none)) hround⟩

/-! ### Records -/

/-- A record is read by place or by name, behind what opens it. -/
theorem record_cases (hfields : ∀ room, AllScan room fields) {empty : δ}
    (h : record fields empty (room + 1) source = .ok (done, rest)) :
    ∃ front tail, source = front ++ tail ∧
      (readPositional room fields 0 empty tail = .ok (done, rest) ∧
        (∀ other, record fields empty (room + 1) (front ++ other) =
          readPositional room fields 0 empty other) ∨
      readNamed room fields true (tail.length + 1) empty tail = .ok (done, rest) ∧
        ∀ other, record fields empty (room + 1) (front ++ other) =
          readNamed room fields true (other.length + 1) empty other) := by
  have hread := h
  unfold record at hread
  split at hread
  · rename_i tail hsource
    obtain ⟨front, rfl, hfront⟩ := (scans_record hfields empty (room + 1)).exists_front hsource
    exact ⟨front, tail, rfl, .inl ⟨hread, hfront⟩⟩
  · rename_i tail hsource
    obtain ⟨front, rfl, hfront⟩ := (scans_record hfields empty (room + 1)).exists_front hsource
    exact ⟨front, tail, rfl, .inr ⟨hread, hfront⟩⟩
  · cases hread

/-- The last field of a record may be exchanged where it is given. -/
theorem exchanges_record (hfields : ∀ room, AllScan room fields)
    (hslot : Slot room fields target read set) {earlier : List (RecordField δ)}
    (hlast : fields = earlier ++ [target]) (hearlier : ∀ field ∈ earlier, field.name ≠ target.name)
    {empty : δ} (hempty : set empty none = empty)
    (h : record fields empty (room + 1) source = .ok (done, rest))
    (hfilled : target.filled done = true) :
    ∃ a draft', Exchanges (record fields empty (room + 1)) (Alone read) source a
      (fun b => set draft' (some b)) rest ∧ done = set draft' (some a) := by
  -- A record is read by place or by name, and the field has a place of its own either way.
  obtain ⟨lead, trail, given, draft', hplace⟩ : ∃ lead trail given draft',
      Exchanges (record fields empty (room + 1)) (Given lead trail read) source given
        (set draft') rest := by
    obtain ⟨front, tail, rfl, ⟨hread, hrecord⟩ | ⟨hread, hrecord⟩⟩ := record_cases hfields h
    · rw [← hempty, hlast] at hread
      have hmem : ∀ field ∈ earlier, field ∈ fields ∧ field.name ≠ target.name := by
        intro field hfield
        exact ⟨hlast ▸ List.mem_append_left _ hfield, hearlier field hfield⟩
      obtain ⟨lead, trail, given, draft', hplace⟩ :=
        exchanges_readPositional (hfields room) hslot hmem hread hfilled
      refine ⟨lead, trail, given, draft', hplace.behind front fun hother => ?_⟩
      rw [hempty, ← hlast] at hother
      rw [hrecord, hother]
    · rw [← hempty] at hread
      obtain ⟨lead, trail, given, draft', hplace⟩ := exchanges_readNamed (hfields room) hslot hread
      refine ⟨lead, trail, given, draft', hplace.behind front fun hother => ?_⟩
      rw [hempty] at hother
      rw [hrecord, hother]
  -- What was read is the draft with what was given, so that the field had a value.
  have hdone : done = set draft' given := by
    have hsame := h.symm.trans hplace.run_eq
    simp only [Except.ok.injEq, Prod.mk.injEq, and_true] at hsame
    exact hsame
  rw [hdone, hslot.filled] at hfilled
  obtain ⟨a, rfl⟩ := Option.isSome_iff_exists.mp hfilled
  exact ⟨a, draft', hplace.of_given, hdone⟩

end Slots

end Wireframe.Json
