/-
Properties cannot spoil a document.

Whatever value the properties of an element are, the element is read, and all they tell is what its
widget is like, within the bounds that every widget keeps.  So they may be exchanged for any other
value, left out and put in, and nothing else of the design changes.

* `PropsPlace`, `nonempty_propsPlace` — the place of the properties in the text of an element;
* `readElement_objectText` — the properties among the other members of an element;
* `exists_place_of_read` — the texts of the elements in a document;
* `isolated_props` — properties by themselves, in an element and in a document.
-/
import Wireframe.Proofs.Design.Exchange
import Wireframe.Proofs.Json.RecordText

namespace Wireframe.Design

open Json

/-! ### Elements -/

/-- Where the properties of an element stand in its text, and that whatever else stands there is the
properties of the same element otherwise. -/
structure PropsPlace (room : Nat) (source : Source) (e : Element) (rest : Source) where
  before : Source
  /-- What goes with properties that are given, in front of them and behind them. -/
  lead : Source
  trail : Source
  after : Source
  text : Source
  given : Option Json
  source_eq : source = before ++ text ++ after
  isGiven : Given lead trail (readValue room) text given
  withProps_given : e.withProps given = e
  reads : ∀ other props, Given lead trail (readValue room) other props → ∃ d,
    record elementFields {} (room + 1) (before ++ other ++ after) = .ok (d, rest) ∧
      d.props = props ∧ d.finish = e.withProps props

variable {room : Nat} {source rest : Source} {p : Project} {s : Screen} {e : Element}

theorem PropsPlace.readElement_eq (place : PropsPlace room source e rest) {other : Source}
    {props : Option Json} (h : Given place.lead place.trail (readValue room) other props) :
    readElement (room + 1) (place.before ++ other ++ place.after) =
      .ok (e.withProps props, rest) := by
  obtain ⟨d, hrecord, -, hfinish⟩ := place.reads other props h
  rw [← hfinish]
  exact bind_eq_ok.mpr ⟨_, hrecord, rfl⟩

theorem nonempty_propsPlace (h : readElement (room + 1) source = .ok (e, rest)) :
    Nonempty (PropsPlace room source e rest) := by
  obtain ⟨⟨d, left⟩, hrecord, h⟩ := bind_eq_ok.mp h
  cases h
  obtain ⟨lead, trail, given, put, hplace, hput⟩ := exchanges_element hrecord
  obtain rfl : d = put given := by
    have hsame := hrecord.symm.trans hplace.run_eq
    simp only [Except.ok.injEq, Prod.mk.injEq, and_true] at hsame
    exact hsame
  obtain ⟨before, text, after, hsource, hgiven, hreads⟩ := hplace
  exact ⟨before, lead, trail, after, text, given, hsource, hgiven, (hput.finish given given).symm,
    fun other props hother =>
      ⟨put props, hreads other props hother, hput.props props, hput.finish given props⟩⟩

/-- An object with what an element needs is an element, whatever its properties are and wherever
they stand among the other members. -/
theorem readElement_objectText {earlier later : List Member} {d : ElementDraft}
    (h : FillsText room elementFields {} (earlier ++ later) d)
    (hothers : ∀ member ∈ earlier ++ later, member.name ≠ "props")
    (hmissing : missing? elementFields d = none) :
    readElement (room + 1) (objectText (earlier ++ later)) = .ok (d.finish, []) ∧
      ∀ member : Member, member.name = "props" →
        ∀ props, Alone (readValue room) member.value props →
          readElement (room + 1) (objectText (earlier ++ member :: later)) =
            .ok (d.finish.withProps (some props), []) := by
  have hfields := allScan_elementFields room
  have h : FillsText room elementFields (ElementDraft.setProps {} none) (earlier ++ later) d := h
  obtain ⟨d, rfl, hinsert⟩ := h.insert (slot_props room) hothers
  refine ⟨bind_eq_ok.mpr ⟨_, record_objectText hfields h hmissing, rfl⟩, ?_⟩
  intro member hname props halone
  have hmissing' : missing? elementFields (d.setProps (some props)) = none :=
    ((slot_props room).missing?_set d (some props) none).trans hmissing
  have hrecord := record_objectText hfields (hinsert member hname props halone) hmissing'
  rw [← (sparesElement_setProps d).finish none (some props)]
  exact bind_eq_ok.mpr ⟨_, hrecord, rfl⟩

/-! ### Documents -/

theorem read_eq_ok : Project.read source = .ok p ↔
    ∃ rest, readProject nestingLimit source = .ok (p, rest) ∧ Source.skipSpace rest = [] := by
  refine bind_eq_ok.trans ⟨?_, ?_⟩
  · rintro ⟨⟨p, rest⟩, hread, h⟩
    dsimp only at h
    split at h
    · rename_i hrest
      cases h
      exact ⟨rest, hread, hrest⟩
    · cases h
  · rintro ⟨rest, hread, hrest⟩
    refine ⟨(p, rest), hread, ?_⟩
    simp only [hrest]
    rfl

/-- The design with another element at a place. -/
def Project.exchange (p : Project) (s : Screen) (i j : Nat) (e : Element) : Project :=
  { p with screens := p.screens.set i { s with elements := s.elements.set j e } }

/-- Each element of a document stands in a text of its own, which may be exchanged for that of any
other element. -/
theorem exists_place_of_read (h : Project.read source = .ok p) {i j : Nat}
    (hs : p.screens[i]? = some s) (he : s.elements[j]? = some e) :
    ∃ front text back, source = front ++ text ++ back ∧
      Alone (readElement (propsRoom + 1)) text e ∧
        ∀ other e', Alone (readElement (propsRoom + 1)) other e' →
          Project.read (front ++ other ++ back) = .ok (p.exchange s i j e') := by
  obtain ⟨rest, hread, hrest⟩ := read_eq_ok.mp h
  have hscreens : p.screens ≠ [] := List.ne_nil_of_mem (List.mem_of_getElem? hs)
  have helements : s.elements ≠ [] := List.ne_nil_of_mem (List.mem_of_getElem? he)
  obtain ⟨screensText, hlist, hinner⟩ := (exchanges_screens hread hscreens).exists_text
  obtain ⟨screenText, hscreen, hinner'⟩ :=
    (hinner (exchanges_listOf scans_readScreen hlist hs)).exists_text
  obtain ⟨elementsText, hlist', hinner''⟩ :=
    (hinner' (exchanges_elements hscreen helements)).exists_text
  obtain ⟨front, text, back, hsource, halone, hreads⟩ :=
    hinner'' (exchanges_listOf scans_readElement hlist' he)
  exact ⟨front, text, back, hsource, halone, fun other e' hother =>
    read_eq_ok.mpr ⟨rest, hreads other e' hother, hrest⟩⟩

/-- Whatever value the properties are, the widget is of the kind of its tag and in order.  An object
that has what an element needs is read, without properties and with any, wherever they stand in it.
Whatever stands for the properties of an element that is read, nothing or the text of any value, the
element is read, and nothing else of it changes.  The same goes for an element of a document: the
document is read, and nothing else of the design changes. -/
theorem isolated_props :
    (∀ tag props, (Widget.decode tag props).IsMadeOf tag props) ∧
    (∀ {room earlier later d}, FillsText room elementFields {} (earlier ++ later) d →
      (∀ member ∈ earlier ++ later, member.name ≠ "props") → missing? elementFields d = none →
      readElement (room + 1) (objectText (earlier ++ later)) = .ok (d.finish, []) ∧
        ∀ member : Member, member.name = "props" →
          ∀ props, Alone (readValue room) member.value props →
            readElement (room + 1) (objectText (earlier ++ member :: later)) =
              .ok (d.finish.withProps (some props), [])) ∧
    (∀ {room source e rest}, readElement (room + 1) source = .ok (e, rest) →
      Nonempty (PropsPlace room source e rest)) ∧
    (∀ {source p i s j e}, Project.read source = .ok p → p.screens[i]? = some s →
      s.elements[j]? = some e → ∃ front text back, ∃ place : PropsPlace propsRoom text e [],
        source = front ++ text ++ back ∧
          ∀ other props, Given place.lead place.trail (readValue propsRoom) other props →
            Project.read (front ++ (place.before ++ other ++ place.after) ++ back) =
              .ok (p.exchange s i j (e.withProps props))) := by
  refine ⟨Widget.isMadeOf_decode, readElement_objectText, nonempty_propsPlace, fun h hs he => ?_⟩
  obtain ⟨front, text, back, hsource, halone, hreads⟩ := exists_place_of_read h hs he
  obtain ⟨place⟩ := nonempty_propsPlace halone
  exact ⟨front, text, back, place, hsource, fun other props hother =>
    hreads _ _ (place.readElement_eq hother)⟩

/-- A design with a selector of which the properties are a number. -/
def numberedSelector : Source :=
  .ofString ("\x7b\"screens\": [\x7b\"id\": \"s\", \"name\": \"S\", \"elements\": [" ++
    "\x7b\"id\": \"a\", \"kind\": \"Selector\", \"props\": 3, " ++
    "\"rect\": \x7b\"x\": 0, \"y\": 0, \"w\": 1, \"h\": 1\x7d\x7d]\x7d]\x7d")

/-- An element by place that has neither an index nor properties. -/
def shortElement : Source := .ofString "[\"a\", \"Label\", [0, 0, 1, 1]]"

/-- The members of an element that has neither, in an unusual order. -/
def shortMembers : List Member :=
  [.plain "rect" (.ofString "[0, 0, 1, 1]"), .plain "note" (.ofString "\x7b\"a\": 1e999\x7d"),
    .plain "kind" (.ofString "\"Label\""), .plain "id" (.ofString "\"a\"")]

theorem isolated_props_numberedSelector :
    (Widget.decode "Selector" (.string "")).IsMadeOf "Selector" (.string "") ∧
    (∃ d : ElementDraft, readElement 2 (objectText shortMembers) = .ok (d.finish, []) ∧
      ∀ member : Member, member.name = "props" →
        ∀ props, Alone (readValue 1) member.value props →
          readElement 2 (objectText (member :: shortMembers)) =
            .ok (d.finish.withProps (some props), [])) ∧
    (∃ e, readElement 2 shortElement = .ok (e, []) ∧ Nonempty (PropsPlace 1 shortElement e [])) ∧
    ∃ p s e, Project.read numberedSelector = .ok p ∧ p.screens[0]? = some s ∧
      s.elements[0]? = some e ∧ ∃ front text back, ∃ place : PropsPlace propsRoom text e [],
        numberedSelector = front ++ text ++ back ∧
          ∀ other props, Given place.lead place.trail (readValue propsRoom) other props →
            Project.read (front ++ (place.before ++ other ++ place.after) ++ back) =
              .ok (p.exchange s 0 0 (e.withProps props)) := by
  refine ⟨isolated_props.1 _ _, ?_, ?_, ?_⟩
  -- The four members are read one after the other, and none of them is the properties.
  · have hfills : ∃ d, FillsText 1 elementFields {} ([] ++ shortMembers) d ∧
        missing? elementFields d = none :=
      ⟨_, .cons rfl (.cons rfl (.cons rfl (.cons rfl (.nil _)))), rfl⟩
    obtain ⟨d, hfills, hmissing⟩ := hfills
    have hothers : ∀ member ∈ [] ++ shortMembers, member.name ≠ "props" := by
      simp only [shortMembers, List.nil_append, List.forall_mem_cons]
      exact ⟨by decide, by decide, by decide, by decide, List.forall_mem_nil _⟩
    exact ⟨d, isolated_props.2.1 hfills hothers hmissing⟩
  · have hcheck : (readElement 2 shortElement).toOption.any fun result => result.2.isEmpty := by
      decide +kernel
    cases hread : readElement 2 shortElement with
    | error problem =>
      rw [hread] at hcheck
      cases hcheck
    | ok result =>
      obtain ⟨e, rest⟩ := result
      rw [hread] at hcheck
      obtain rfl := List.isEmpty_iff.mp hcheck
      exact ⟨e, rfl, isolated_props.2.2.1 hread⟩
  -- That the document is read is computed; which design it is need not be known.
  · have hcheck : (Project.read numberedSelector).toOption.any fun p =>
        p.screens[0]?.any fun s => s.elements[0]?.isSome := by
      decide +kernel
    cases hread : Project.read numberedSelector with
    | error problem =>
      rw [hread] at hcheck
      cases hcheck
    | ok p =>
      rw [hread] at hcheck
      change p.screens[0]?.any (fun s => s.elements[0]?.isSome) = true at hcheck
      obtain ⟨s, hs, hscreen⟩ := (Option.any_eq_true _ _).mp hcheck
      obtain ⟨e, he⟩ := Option.isSome_iff_exists.mp hscreen
      exact ⟨p, s, e, rfl, hs, he, isolated_props.2.2.2 hread hs he⟩

end Wireframe.Design
