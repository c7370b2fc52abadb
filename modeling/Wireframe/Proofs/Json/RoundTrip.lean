/-
Values and records that are read back.

A record is written as an object that has a member for every field with a value.  Its members are
read one by one into a draft.

* `readsAs_readText`, `readsAs_readFloat`, `readsAs_readInt32` — strings and numbers of a kind;
* `readsAs_readValue` — values of any kind;
* `readDocument_pretty` — whole documents;
* `Fills` — the drafts that members lead to;
* `ReadsAs.record` — a record whose members fill a draft with nothing missing.
-/
import Wireframe.Proofs.Json.Container

namespace Wireframe.Json

open Source

theorem startsValue_of_startsNumber {c : Char} {cs : List Char} (h : startsNumber c = true) :
    StartsValue (c :: cs) := by
  have hdigit : c = '-' ∨ c.isDigit = true := by simpa [startsNumber] using h
  constructor
  -- a blank is none of the characters that a number starts with
  · by_cases hspace : isSpace c = true
    · simp only [isSpace, Bool.or_eq_true, beq_iff_eq] at hspace
      rcases hspace with ((rfl | rfl) | rfl) | rfl <;> revert hdigit <;> decide
    · exact Bool.eq_false_iff.mpr hspace
  · rintro rfl
    revert hdigit
    decide

/-- The text of a number that is read back starts like a number. -/
theorem exists_text_eq {n : Number} (h : n.ReadsBack) :
    ∃ c cs, n.text = c :: cs ∧ startsNumber c = true := by
  obtain ⟨c, tail, hsource, hc⟩ := exists_startsNumber_of_readNumber h
  obtain ⟨c', cs, htext, heq, -⟩ := List.map_eq_cons_iff.mp hsource
  cases heq
  exact ⟨c, cs, htext, hc⟩

theorem startsValue_number {n : Number} (h : n.ReadsBack) : StartsValue n.text := by
  obtain ⟨c, cs, htext, hc⟩ := exists_text_eq h
  rw [htext]
  exact startsValue_of_startsNumber hc

theorem readsAs_readText (room : Nat) (s : String) : ReadsAs (readText room) (.string s) s where
  starts level := ⟨rfl, by decide⟩
  reads level {source rest} hsource hrest := by
    rw [readText, hsource, writePretty, quote, List.cons_append, ofChars_cons, ofChars_append,
      List.cons_append, List.append_assoc]
    exact readString_quote s rest

theorem readsAs_optional_readText (room : Nat) (s : String) :
    ReadsAs (optional readText room) (.string s) (some s) where
  starts level := ⟨rfl, by decide⟩
  reads level {source rest} hsource hrest := by
    have hread := (readsAs_readText room s).reads level
      (skipSpace_of_startsValue ((readsAs_readText room s).starts level) rest) hrest
    rw [optional, hsource]
    simp only [writePretty, quote, List.cons_append, ofChars_cons] at hread ⊢
    split
    · rename_i heq
      cases heq
    · rw [hread]
      rfl

theorem readAnyNumber_eq {n : Number} (h : n.ReadsBack) {room level : Nat} {source rest : Source}
    (hsource : skipSpace source = ofChars (writePretty level (.number n)) ++ rest)
    (hrest : Stops rest) : readAnyNumber room source = .ok (n, rest) := by
  obtain ⟨c, cs, htext, hc⟩ := exists_text_eq h
  have hread := h.read hrest
  rw [readAnyNumber, hsource, writePretty, htext, ofChars_cons, List.cons_append]
  simp only [hc, if_true]
  rwa [htext, ofChars_cons, List.cons_append] at hread

theorem readsAs_readFloat (room : Nat) {x : Float} (hfinite : x.isFinite = true)
    (h : (Number.float x).ReadsBack) : ReadsAs (readFloat room) (.ofFloat x) x := by
  rw [ofFloat, if_pos hfinite]
  refine ⟨fun level => startsValue_number h, ?_⟩
  intro level source rest hsource hrest
  rw [readFloat, readAnyNumber_eq h hsource hrest]
  rfl

theorem readsAs_readInt32 (room : Nat) (n : Int32) :
    ReadsAs (readInt32 room) (.ofInt n.toInt) n := by
  have hlow := n.le_toInt
  have hhigh := n.toInt_lt
  have h : (Number.int n.toInt).ReadsBack := readsBack_int (by constructor <;> omega)
  refine ⟨fun level => startsValue_number h, ?_⟩
  intro level source rest hsource hrest
  rw [readInt32, readAnyNumber_eq h hsource hrest]
  have hrange : -0x80000000 ≤ n.toInt ∧ n.toInt ≤ 0x7FFFFFFF := by
    constructor <;> omega
  simp only [bind, Except.bind, if_pos hrange, Int32.ofInt_toInt]
  rfl

/-! ### Values of any kind -/

theorem Readable.startsValue {room : Nat} {json : Json} (h : Readable room json) (level : Nat) :
    StartsValue (writePretty level json) := by
  cases h with
  | null => exact ⟨rfl, by decide⟩
  | bool b => cases b <;> exact ⟨rfl, by decide⟩
  | number h => exact startsValue_number h
  | string s => exact ⟨rfl, by decide⟩
  | @array _ items _ => cases items <;> exact ⟨rfl, by decide⟩
  | @object _ members _ _ => cases members <;> exact ⟨rfl, by decide⟩

theorem readValueWith_number {n : Number} (h : n.ReadsBack)
    (inner : Option (Source → Except Problem (Json × Source))) {level : Nat} {source rest : Source}
    (hsource : skipSpace source = ofChars (writePretty level (.number n)) ++ rest)
    (hrest : Stops rest) : readValueWith inner source = .ok (.number n, rest) := by
  obtain ⟨c, cs, htext, hc⟩ := exists_text_eq h
  have hread := h.read hrest
  have hword : c ≠ 'n' ∧ c ≠ 't' ∧ c ≠ 'f' := by
    refine ⟨?_, ?_, ?_⟩ <;> rintro rfl <;> exact absurd hc (by decide)
  rw [writePretty, htext, ofChars_cons, List.cons_append] at hsource
  rw [htext, ofChars_cons, List.cons_append] at hread
  rw [readValueWith, hsource]
  simp only [hword.1, hword.2.1, hword.2.2, hc, if_true, if_false, bind, Except.bind, hread]
  rfl

theorem readValueWith_string (s : String)
    (inner : Option (Source → Except Problem (Json × Source))) {level : Nat} {source rest : Source}
    (hsource : skipSpace source = ofChars (writePretty level (.string s)) ++ rest) :
    readValueWith inner source = .ok (.string s, rest) := by
  have hread := readString_quote s rest
  rw [writePretty, quote, List.cons_append, ofChars_cons, ofChars_append, List.cons_append,
    List.append_assoc] at hsource
  have hnumber : startsNumber '"' = false := by decide
  rw [readValueWith, hsource]
  simp only [Char.reduceEq, hnumber, if_true, if_false, Bool.false_eq_true]
  simp only [ofChars_cons, ofChars_nil, List.cons_append, List.nil_append, hread, bind, Except.bind]
  rfl

/-- A readable value is read back. -/
theorem readsAs_readValue {room : Nat} {json : Json} (h : Readable room json) :
    ReadsAs (readValue room) json json := by
  -- Words, numbers and texts are read without looking inside, whatever depth is left.
  induction h with
  | @null room =>
      refine ⟨fun level => ⟨rfl, by decide⟩, ?_⟩
      intro level source rest hsource hrest
      cases room <;> rw [readValue, readValueWith, hsource] <;> rfl
  | @bool room b =>
      refine ⟨(Readable.bool b : Readable room (.bool b)).startsValue, ?_⟩
      intro level source rest hsource hrest
      cases room <;> cases b <;> rw [readValue, readValueWith, hsource] <;> rfl
  | @number room n h =>
      refine ⟨fun level => startsValue_number h, ?_⟩
      intro level source rest hsource hrest
      cases room <;> exact readValueWith_number h _ hsource hrest
  | @string room s =>
      refine ⟨fun level => ⟨rfl, by decide⟩, ?_⟩
      intro level source rest hsource hrest
      cases room <;> exact readValueWith_string s _ hsource
  | @array room items h ih =>
      refine ⟨(Readable.array h).startsValue, fun {level source rest} hsource hrest => ?_⟩
      -- The items are written one level deeper, and read as they are.
      obtain ⟨tail, htail, hitems⟩ := exists_readItems_array (f := id) (g := id) ih level
      rw [List.map_id] at htail hitems
      rw [htail] at hsource
      have hnumber : startsNumber '[' = false := by decide
      rw [readValue, readValueWith, hsource]
      simp only [ofChars_cons, List.cons_append, Char.reduceEq, hnumber, if_true, if_false,
        Bool.false_eq_true, bind, Except.bind, hitems rest]
      rfl
  | @object room members horder h ih =>
      refine ⟨(Readable.object horder h).startsValue, fun {level source rest} hsource hrest => ?_⟩
      -- Members that are in order already are not put in order again.
      obtain ⟨tail, htail, hmembers⟩ := exists_readMembers_object ih level
      rw [htail] at hsource
      have hnumber : startsNumber '\x7b' = false := by decide
      rw [readValue, readValueWith, hsource]
      simp only [ofChars_cons, List.cons_append, Char.reduceEq, hnumber, if_true, if_false,
        Bool.false_eq_true, bind, Except.bind, hmembers rest, sorted_of_inOrder horder]
      rfl

/-! ### Documents -/

/-- A written document is read back. -/
theorem readDocument_pretty {α : Type} {reader : Reader α} {json : Json} {a : α}
    (h : ReadsAs (reader nestingLimit) json a) :
    readDocument reader (Source.ofString json.pretty) = .ok a := by
  -- the end of the document stops a number too
  have hread := h.reads 0 (skipSpace_of_startsValue (h.starts 0) []) trivial
  rw [List.append_nil] at hread
  have hsource : Source.ofString json.pretty = ofChars (writePretty 0 json) := by
    rw [Source.ofString, pretty, String.toList_ofList, ofChars]
  rw [readDocument, hsource, hread]
  rfl

/-! ### Records -/

section Records

variable {δ : Type}

/-- The members of an object lead from one draft to another; each of them belongs to a field that
has no value yet. -/
inductive Fills (room : Nat) (fields : List (RecordField δ)) : δ → List (String × Json) → δ → Prop
  | nil (draft : δ) : Fills room fields draft [] draft
  | cons {draft next done : δ} {name : String} {value : Json} {members : List (String × Json)}
      {field : RecordField δ} (hfield : fields.find? (·.name == name) = some field)
      (hempty : field.filled draft = false) (hread : ReadsAs (field.fill draft room) value next)
      (hmembers : Fills room fields next members done) :
      Fills room fields draft ((name, value) :: members) done

variable {room : Nat} {fields : List (RecordField δ)} {draft done : δ}
  {members : List (String × Json)}

theorem readNamed_writeMembers (h : Fills room fields draft members done)
    (hmissing : missing? fields done = none) (level outer : Nat) (rest : Source) {fuel : Nat}
    (hfuel : members.length < fuel) :
    readNamed room fields false fuel draft (ofChars (writeMembers level members) ++
      (ofChars (newLine outer) ++ .char '\x7d' :: rest)) = .ok (done, rest) := by
  induction h generalizing fuel with
  | nil draft =>
      obtain ⟨fuel, rfl⟩ := Nat.exists_eq_add_one_of_ne_zero (Nat.ne_zero_of_lt hfuel)
      rw [writeMembers, ofChars_nil, List.nil_append, readNamed, nextName_done]
      simp only [bind, Except.bind, hmissing]
      rfl
  | @cons draft next done name value members field hfield hempty hvalue hmembers ih =>
      obtain ⟨fuel, rfl⟩ := Nat.exists_eq_add_one_of_ne_zero (Nat.ne_zero_of_lt hfuel)
      have hread := hvalue.reads level (skipSpace_behindColon (hvalue.starts level) _)
        (stops_writeMembers level outer members (.char '\x7d' :: rest))
      -- the draft that the value was read into goes on to the members behind it
      have hrest := ih hmissing (Nat.lt_of_succ_lt_succ hfuel)
      rw [writeMembers]
      simp only [ofChars_cons, ofChars_append, List.cons_append, List.append_assoc]
      rw [readNamed, nextName_next]
      simp only [bind, Except.bind, hfield, hempty, Bool.false_eq_true, if_false, expectColon_colon,
        hread, hrest]

/-- The members of a written record are read back from behind its brace. -/
theorem exists_readNamed_object (h : Fills room fields draft members done)
    (hmissing : missing? fields done = none) (level : Nat) :
    ∃ tail, writePretty level (.object members) = '\x7b' :: tail ∧
      ∀ rest, readNamed room fields true ((ofChars tail ++ rest).length + 1) draft
        (ofChars tail ++ rest) = .ok (done, rest) := by
  cases h with
  | nil draft =>
      -- Nothing was written, so the object is closed at once.
      refine ⟨['\x7d'], rfl, ?_⟩
      intro rest
      rw [readNamed]
      have hname : nextName true (ofChars ['\x7d'] ++ rest) = .ok (.done rest) := rfl
      simp only [hname, bind, Except.bind, hmissing]
      rfl
  | @cons _ next _ name value members field hfield hempty hvalue hmembers =>
      -- The first member is read here, as no comma stands before it; the others by the lemma about
      -- them.
      refine ⟨_, writePretty_object_cons level name value members, fun rest => ?_⟩
      have hread := hvalue.reads (level + 1)
        (skipSpace_behindColon (hvalue.starts (level + 1)) _)
        (stops_writeMembers (level + 1) level members (.char '\x7d' :: rest))
      have hlength := length_lt_objectTail level name value members rest
      generalize (ofChars (objectTail level name value members) ++ rest).length = fuel at hlength ⊢
      rw [ofChars_objectTail_append, readNamed, nextName_first]
      simp only [bind, Except.bind, hfield, hempty, Bool.false_eq_true, if_false,
        expectColon_colon, hread]
      exact readNamed_writeMembers hmembers hmissing (level + 1) level rest hlength

/-- A record is read back member by member. -/
theorem ReadsAs.record (h : Fills room fields draft members done)
    (hmissing : missing? fields done = none) :
    ReadsAs (Json.record fields draft (room + 1)) (.object members) done where
  starts level := by cases members <;> exact ⟨rfl, by decide⟩
  reads level {source rest} hsource hrest := by
    obtain ⟨tail, htail, hmembers⟩ := exists_readNamed_object h hmissing level
    rw [htail] at hsource
    rw [Json.record, hsource]
    exact hmembers rest

end Records

end Wireframe.Json
