/-
Places in the parts of a design.

* `Beside`, `slot_last` — the last field of a record and the others;
* `exchanges_element` — the properties of an element, by name or by place;
* `exchanges_elements`, `exchanges_screens` — the elements of a screen and the screens of a project.
-/
import Wireframe.Proofs.Design.Stored
import Wireframe.Proofs.Json.RecordExchange

namespace Wireframe.Design

open Json

/-! ### Fields -/

section Fields

variable {δ α β : Type} {name : String} {required : Bool} {get : δ → Option β} {put : δ → β → δ}
  {reader : Reader β} {room : Nat}

theorem scans_fill (h : Scans (reader room)) (draft : δ) :
    Scans ((fieldAt name required get put reader).fill draft room) := by
  refine h.bind fun {b left next rest} hnext => ?_
  cases hnext
  exact ⟨rfl, fun _ => rfl⟩

theorem scans_readRecord {fields : List (RecordField δ)} (h : ∀ room, AllScan room fields)
    (empty : δ) (finish : δ → β) (room : Nat) : Scans (readRecord fields empty finish room) := by
  refine (scans_record h empty room).bind fun {done left b rest} hb => ?_
  cases hb
  exact ⟨rfl, fun _ => rfl⟩

theorem fill_eq_ok {draft next : δ} {source rest : Source} :
    (fieldAt name required get put reader).fill draft room source = .ok (next, rest) ↔
      ∃ b, reader room source = .ok (b, rest) ∧ next = put draft b := by
  refine bind_eq_ok.trans ⟨?_, ?_⟩
  · rintro ⟨⟨b, left⟩, hread, h⟩
    cases h
    exact ⟨b, hread, rfl⟩
  · rintro ⟨b, hread, rfl⟩
    exact ⟨(b, rest), hread, rfl⟩

/-- A required field of a record by place has been read. -/
theorem advance_of_fieldAt {fields : List (RecordField δ)} {count : Nat} {draft done : δ}
    {source rest : Source}
    (h : readPositional room (fieldAt name true get put reader :: fields) count draft source =
      .ok (done, rest)) :
    ∃ b left, advance (nextItem (count == 0))
      (fun _ => (fieldAt name true get put reader).fill draft room) source =
        .ok (.more (put draft b) left) ∧
      readPositional room fields (count + 1) (put draft b) left = .ok (done, rest) := by
  obtain ⟨next, left, hround, h⟩ := advance_of_required rfl h
  obtain ⟨-, left', hnext, hfill⟩ := advance_eq_more.mp hround
  obtain ⟨b, hread, rfl⟩ := fill_eq_ok.mp hfill
  exact ⟨b, left, hround, h⟩

/-- A field that has another name and another place of the draft than the one that `set` fills. -/
structure Beside (room : Nat) (set : δ → Option α → δ) (name : String) (field : RecordField δ) :
    Prop where
  name_ne : field.name ≠ name
  filled (draft : δ) (a b : Option α) : field.filled (set draft a) = field.filled (set draft b)
  spares : Spares set fun draft => field.fill draft room

theorem beside_fieldAt {set : δ → Option α → δ} {other : String} (hname : name ≠ other)
    (hget : ∀ draft a b, get (set draft a) = get (set draft b))
    (hput : ∀ draft a b, put (set draft a) b = set (put draft b) a) :
    Beside room set other (fieldAt name required get put reader) where
  name_ne := hname
  filled draft a b := congrArg Option.isSome (hget draft a b)
  spares := by
    intro draft a source next rest h
    obtain ⟨b, hread, rfl⟩ := fill_eq_ok.mp h
    exact ⟨put draft b, hput draft a b, fun a' => fill_eq_ok.mpr ⟨b, hread, (hput draft a' b).symm⟩⟩

/-- The last field of a record has a place of the draft for itself if the others are beside it. -/
theorem slot_last {set : δ → Option β → δ} {earlier : List (RecordField δ)}
    (hearlier : ∀ field ∈ earlier, Beside room set name field) (hreader : Scans (reader room))
    (hget : ∀ draft b, get (set draft b) = b)
    (hput : ∀ draft b, put (set draft none) b = set draft (some b)) :
    Slot room (earlier ++ [fieldAt name false get put reader]) (fieldAt name false get put reader)
      (reader room) set where
  scans := hreader
  -- The field is looked up by name, and no earlier one has that name.
  found := by
    have hnone : earlier.find? (·.name == name) = none := by
      refine List.find?_eq_none.mpr fun field hfield hname => ?_
      exact (hearlier field hfield).name_ne (beq_iff_eq.mp hname)
    show (earlier ++ _).find? (·.name == name) = _
    rw [List.find?_append, hnone, Option.none_or, List.find?_cons_of_pos]
    exact beq_self_eq_true name
  filled draft b := congrArg Option.isSome (hget draft b)
  fill draft source := by
    show reader room source >>= (fun result => .ok (put (set draft none) result.1, result.2)) = _
    simp only [hput]
  -- What is asked of all fields but this one is what the earlier ones were assumed to satisfy.
  optional field hfield hname := by
    rcases List.mem_append.mp hfield with hfield | hfield
    · exact absurd hname (hearlier field hfield).name_ne
    · rw [List.mem_singleton.mp hfield]
      rfl
  sparesFilled field hfield hname := by
    rcases List.mem_append.mp hfield with hfield | hfield
    · exact (hearlier field hfield).filled
    · exact absurd (congrArg RecordField.name (List.mem_singleton.mp hfield)) hname
  spares field hfield hname := by
    rcases List.mem_append.mp hfield with hfield | hfield
    · exact (hearlier field hfield).spares
    · exact absurd (congrArg RecordField.name (List.mem_singleton.mp hfield)) hname

/-- The last field of a record may be exchanged where it is given. -/
theorem exchanges_readRecord {set : δ → Option β → δ} {earlier : List (RecordField δ)}
    (hearlier : ∀ field ∈ earlier, Beside room set name field)
    (hfields : ∀ room, AllScan room (earlier ++ [fieldAt name false get put reader]))
    (hreader : Scans (reader room)) (hget : ∀ draft b, get (set draft b) = b)
    (hput : ∀ draft b, put (set draft none) b = set draft (some b)) {empty : δ}
    (hempty : set empty none = empty) {finish : δ → α} {a : α} {source rest : Source}
    (h : readRecord (earlier ++ [fieldAt name false get put reader]) empty finish (room + 1)
      source = .ok (a, rest)) (hgiven : ∀ draft, a = finish draft → get draft ≠ none) :
    ∃ b draft, a = finish (set draft (some b)) ∧
      Exchanges
        (readRecord (earlier ++ [fieldAt name false get put reader]) empty finish (room + 1))
        (Alone (reader room)) source b (fun b => finish (set draft (some b))) rest := by
  obtain ⟨⟨draft, left⟩, hrecord, h⟩ := bind_eq_ok.mp h
  cases h
  obtain ⟨b, draft, hplace, rfl⟩ := exchanges_record hfields
    (slot_last hearlier hreader hget hput) rfl
    (fun field hfield => (hearlier field hfield).name_ne) hempty hrecord
    (Option.isSome_iff_ne_none.mpr (hgiven draft rfl))
  exact ⟨b, draft, rfl, hplace.map fun b => rfl⟩

end Fields

/-! ### Readers -/

theorem scans_readRect {space : Space} (room : Nat) :
    Scans (readRect room : Source → Except Problem (Rect space × Source)) := by
  refine scans_readRecord (fun room => ?_) _ _ room
  have hfill := scans_readFloat room
  simp only [AllScan, rectFields, List.forall_mem_cons]
  exact ⟨scans_fill hfill, scans_fill hfill, scans_fill hfill, scans_fill hfill,
    List.forall_mem_nil _⟩

theorem allScan_elementFields (room : Nat) : AllScan room elementFields := by
  simp only [AllScan, elementFields, List.forall_mem_cons]
  exact ⟨scans_fill (scans_readText room), scans_fill (scans_readText room),
    scans_fill (scans_readRect room), scans_fill (scans_readInt32 room),
    scans_fill (scans_readValue room), List.forall_mem_nil _⟩

theorem scans_readElement (room : Nat) : Scans (readElement room) :=
  scans_readRecord allScan_elementFields _ _ room

theorem allScan_screenFields (room : Nat) : AllScan room screenFields := by
  simp only [AllScan, screenFields, List.forall_mem_cons]
  exact ⟨scans_fill (scans_readText room), scans_fill (scans_readText room),
    scans_fill (scans_listOf scans_readElement room), List.forall_mem_nil _⟩

theorem scans_readScreen (room : Nat) : Scans (readScreen room) :=
  scans_readRecord allScan_screenFields _ _ room

theorem scans_readProfile (room : Nat) : Scans (readProfile room) := by
  refine (scans_readText room).bind fun {name left profile rest} h => ?_
  cases h
  exact ⟨rfl, fun _ => rfl⟩

theorem allScan_projectFields (room : Nat) : AllScan room projectFields := by
  simp only [AllScan, projectFields, List.forall_mem_cons]
  exact ⟨scans_fill (scans_optional (scans_readText room)), scans_fill (scans_readProfile room),
    scans_fill (scans_listOf scans_readScreen room), List.forall_mem_nil _⟩

/-! ### The properties of an element -/

/-- The draft with these properties. -/
def ElementDraft.setProps (d : ElementDraft) (props : Option Json) : ElementDraft :=
  { d with props }

/-- The fields of an element in front of its properties. -/
theorem beside_props (room : Nat) : ∀ field ∈ elementFields.take 4,
    Beside room ElementDraft.setProps "props" field := by
  simp only [elementFields, List.take_succ_cons, List.take_zero, List.forall_mem_cons]
  exact ⟨beside_fieldAt (by decide) (fun _ _ _ => rfl) (fun _ _ _ => rfl),
    beside_fieldAt (by decide) (fun _ _ _ => rfl) (fun _ _ _ => rfl),
    beside_fieldAt (by decide) (fun _ _ _ => rfl) (fun _ _ _ => rfl),
    beside_fieldAt (by decide) (fun _ _ _ => rfl) (fun _ _ _ => rfl), List.forall_mem_nil _⟩

/-- The field of the index of an element. -/
def indexField : RecordField ElementDraft :=
  fieldAt "zIndex" false ElementDraft.zIndex (fun d v => { d with zIndex := some v }) readInt32

/-- The field of the properties. -/
def propsField : RecordField ElementDraft :=
  fieldAt "props" false ElementDraft.props (fun d v => { d with props := some v }) readValue

theorem slot_props (room : Nat) :
    Slot room elementFields propsField (readValue room) ElementDraft.setProps :=
  slot_last (beside_props room) (scans_readValue room) (fun _ _ => rfl) (fun _ _ => rfl)

/-- The element with these properties, or without any. -/
def Element.withProps (e : Element) (props : Option Json) : Element :=
  { e with widget := Widget.decode e.widget.tag (props.getD .null) }

/-- Whatever the properties are, a draft holds them, and nothing else of its element changes. -/
structure SparesElement (put : Option Json → ElementDraft) : Prop where
  props (json : Option Json) : (put json).props = json
  finish (given json : Option Json) : (put json).finish = (put given).finish.withProps json

theorem tag_finish (d : ElementDraft) : d.finish.widget.tag = d.tag.getD "" :=
  (Widget.isMadeOf_decode (d.tag.getD "") (d.props.getD .null)).sameTag

theorem sparesElement_setProps (d : ElementDraft) : SparesElement d.setProps where
  props _ := rfl
  finish given json := by
    rw [Element.withProps, tag_finish]
    rfl

section ByPlace

variable {room : Nat} {source rest : Source} {d : ElementDraft}

/-- The index and the properties may both be missing: then the properties are put in behind the
index that a missing one means. -/
theorem exchanges_behindRect {id tag : Option String} {rect : Option (Rect .canvas)}
    (h : readPositional room [indexField, propsField] 3 ⟨id, tag, rect, none, none⟩ source =
      .ok (d, rest)) :
    ∃ lead trail given put, Exchanges
      (readPositional room [indexField, propsField] 3 ⟨id, tag, rect, none, none⟩)
      (Given lead trail (readValue room)) source given put rest ∧ SparesElement put := by
  have hindex (d : ElementDraft) : Scans (indexField.fill d room) :=
    scans_fill (scans_readInt32 room) d
  rcases readPositional_eq_ok.mp h with ⟨hdone, -, -⟩ | ⟨next, left, hround, h⟩
  -- The list ends before the depth: to give properties, a depth of zero is put in before them.
  · refine ⟨[.char ',', .char '0', .char ','], [], none, fun props =>
      ⟨id, tag, rect, props.map fun _ => 0, props⟩, ⟨[], [], source, rfl, .none, ?_⟩, ?_⟩
    · intro other props hother
      cases hother with
      | none => exact readPositional_eq_ok.mpr (.inl ⟨hdone, rfl, rfl⟩)
      | @some text b halone =>
        -- The depth ends at the comma behind it, whatever the properties are.
        have hzero : Alone (readInt32 room) [.char '0'] 0 := rfl
        have hends : Ends (.char ',' :: (text ++ source)) := rfl
        have hfill : indexField.fill ⟨id, tag, rect, none, none⟩ room
            (.char '0' :: .char ',' :: (text ++ source)) =
              .ok (⟨id, tag, rect, some 0, none⟩, .char ',' :: (text ++ source)) :=
          fill_eq_ok.mpr ⟨0, (scans_readInt32 room).append hzero hends, rfl⟩
        have hround := advance_item_comma (hindex ⟨id, tag, rect, none, none⟩) hfill false
        have hprops := readPositional_last (allScan_elementFields room) (slot_props room) hdone
          halone ⟨id, tag, rect, some 0, none⟩
        have hall : readPositional room [indexField, propsField] 3 ⟨id, tag, rect, none, none⟩
            ([.char ',', .char '0', .char ','] ++ (text ++ source)) =
              .ok (⟨id, tag, rect, some 0, some b⟩, rest) :=
          readPositional_eq_ok.mpr (.inr ⟨_, _, hround, hprops⟩)
        simpa only [List.append_assoc, List.nil_append, List.append_nil, Option.map_some] using hall
    -- The design has a depth of zero where none was given, so the element is the same one.
    · refine ⟨fun json => rfl, fun given json => ?_⟩
      rw [Element.withProps, tag_finish]
      cases json <;> cases given <;> rfl
  -- The depth is there, and the properties are the last of the list.
  · obtain ⟨-, left', hnext, hfill⟩ := advance_eq_more.mp hround
    obtain ⟨index, hread, rfl⟩ := fill_eq_ok.mp hfill
    have hlast : readPositional room [propsField] 4
        (ElementDraft.setProps ⟨id, tag, rect, some index, none⟩ none) left = .ok (d, rest) := h
    obtain ⟨lead, trail, given, hplace⟩ :=
      exchanges_last (allScan_elementFields room) (slot_props room) hlast
    exact ⟨lead, trail, given, _, hplace.behind_item (hindex _) hround, sparesElement_setProps _⟩

/-- The properties of an element by place may be exchanged, left out and put in. -/
theorem exchanges_elementByPlace
    (h : readPositional room elementFields 0 {} source = .ok (d, rest)) :
    ∃ lead trail given put, Exchanges (readPositional room elementFields 0 {})
      (Given lead trail (readValue room)) source given put rest ∧ SparesElement put := by
  obtain ⟨id, left, hid, h⟩ := advance_of_fieldAt h
  obtain ⟨tag, left, htag, h⟩ := advance_of_fieldAt h
  obtain ⟨rect, left, hrect, h⟩ := advance_of_fieldAt h
  obtain ⟨lead, trail, given, put, hplace, hput⟩ := exchanges_behindRect h
  have hplace := hplace.behind_item (scans_fill (scans_readRect room) _) hrect
  have hplace := hplace.behind_item (scans_fill (scans_readText room) _) htag
  have hplace := hplace.behind_item (scans_fill (scans_readText room) _) hid
  exact ⟨lead, trail, given, put, hplace, hput⟩

end ByPlace

/-- The properties of an element may be exchanged, left out and put in. -/
theorem exchanges_element {room : Nat} {source rest : Source} {d : ElementDraft}
    (h : record elementFields {} (room + 1) source = .ok (d, rest)) :
    ∃ lead trail given put, Exchanges (record elementFields {} (room + 1))
      (Given lead trail (readValue room)) source given put rest ∧ SparesElement put := by
  obtain ⟨front, tail, rfl, ⟨hread, hfront⟩ | ⟨hread, hfront⟩⟩ :=
    record_cases allScan_elementFields h
  · obtain ⟨lead, trail, given, put, hplace, hput⟩ := exchanges_elementByPlace hread
    refine ⟨lead, trail, given, put, hplace.behind front fun hother => ?_, hput⟩
    rw [hfront, hother]
  · have hread : readNamed room elementFields true (tail.length + 1)
        (ElementDraft.setProps {} none) tail = .ok (d, rest) := hread
    obtain ⟨lead, trail, given, d, hplace⟩ :=
      exchanges_readNamed (allScan_elementFields room) (slot_props room) hread
    refine ⟨lead, trail, given, d.setProps, hplace.behind front fun hother => ?_,
      sparesElement_setProps d⟩
    rw [hfront]
    exact hother

/-! ### The elements of a screen and the screens of a document -/

/-- The elements of a screen that has some may be exchanged. -/
theorem exchanges_elements {room : Nat} {source rest : Source} {s : Screen}
    (h : readScreen (room + 1) source = .ok (s, rest)) (hs : s.elements ≠ []) :
    Exchanges (readScreen (room + 1)) (Alone (listOf readElement room)) source s.elements
      (fun elements => { s with elements }) rest := by
  have hearlier : ∀ field ∈ screenFields.take 2,
      Beside room (fun d elements => { d with elements }) "elements" field := by
    simp only [screenFields, List.take_succ_cons, List.take_zero, List.forall_mem_cons]
    exact ⟨beside_fieldAt (by decide) (fun _ _ _ => rfl) (fun _ _ _ => rfl),
      beside_fieldAt (by decide) (fun _ _ _ => rfl) (fun _ _ _ => rfl), List.forall_mem_nil _⟩
  obtain ⟨elements, d, rfl, hplace⟩ := exchanges_readRecord hearlier allScan_screenFields
    (scans_listOf scans_readElement room) (fun _ _ => rfl) (fun _ _ => rfl) rfl h
    fun d hd hnone => hs (hd ▸ congrArg (Option.getD · []) hnone)
  exact hplace

/-- The screens of a project that has some may be exchanged. -/
theorem exchanges_screens {room : Nat} {source rest : Source} {p : Project}
    (h : readProject (room + 1) source = .ok (p, rest)) (hp : p.screens ≠ []) :
    Exchanges (readProject (room + 1)) (Alone (listOf readScreen room)) source p.screens
      (fun screens => { p with screens }) rest := by
  have hearlier : ∀ field ∈ projectFields.take 2,
      Beside room (fun d screens => { d with screens }) "screens" field := by
    simp only [projectFields, List.take_succ_cons, List.take_zero, List.forall_mem_cons]
    exact ⟨beside_fieldAt (by decide) (fun _ _ _ => rfl) (fun _ _ _ => rfl),
      beside_fieldAt (by decide) (fun _ _ _ => rfl) (fun _ _ _ => rfl), List.forall_mem_nil _⟩
  obtain ⟨screens, d, rfl, hplace⟩ := exchanges_readRecord hearlier allScan_projectFields
    (scans_listOf scans_readScreen room) (fun _ _ => rfl) (fun _ _ => rfl) rfl h
    fun d hd hnone => hp (hd ▸ congrArg (Option.getD · []) hnone)
  exact hplace

end Wireframe.Design
