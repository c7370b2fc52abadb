/-
Designs that are read back.

A document holds all there is to a design.  What was written is read again if reading finds nothing
to mend in it: tables whose columns fill them, selectors with something to choose from, and tags of
their own for what is not known.

* `Project.floats`, `Project.IsNormal` — the floats of a design, and designs of which reading leaves
  all as it is;
* `Project.IsStored`, `Project.rescaled` — designs such as reading leaves behind, and what reading
  them again makes of them;
* `readsAs_readElement`, `readsAs_readScreen`, `readsAs_rescaled` — the parts of a document;
* `ofText_document_eq_rescaled` — what a stored design is read back as;
* `ofText_document` — a normal design is read back from its document if its floats are.
-/
import Wireframe.Proofs.Design.Widget
import Wireframe.Proofs.Json.RoundTrip

namespace Wireframe.Design

open Json

/-! ### Designs in normal form -/

/-- The floats of a rectangle. -/
def Rect.floats {space : Space} (r : Rect space) : List Float := [r.x, r.y, r.w, r.h]

/-- The floats of an element. -/
def Element.floats (e : Element) : List Float := e.rect.floats ++ e.widget.floats

/-- The floats of a screen. -/
def Screen.floats (s : Screen) : List Float := s.elements.flatMap Element.floats

/-- The floats of a design. -/
def Project.floats (p : Project) : List Float := p.screens.flatMap Screen.floats

/-- All floats are finite, and reading leaves the properties of all widgets as they are. -/
structure Project.IsNormal (p : Project) : Prop where
  finite : ∀ x ∈ p.floats, x.isFinite = true
  widgets : ∀ s ∈ p.screens, ∀ e ∈ s.elements, e.widget.IsNormal

/-- An element when it is read again. -/
def Element.rescaled (e : Element) : Element := { e with widget := e.widget.rescaled }

/-- A screen when it is read again. -/
def Screen.rescaled (s : Screen) : Screen := { s with elements := s.elements.map Element.rescaled }

/-- A design when it is read again: the columns of its tables are scaled once more. -/
def Project.rescaled (p : Project) : Project := { p with screens := p.screens.map Screen.rescaled }

/-- All floats are finite, and the properties are such as reading leaves behind. -/
structure Element.IsStored (e : Element) : Prop where
  finite : ∀ x ∈ e.floats, x.isFinite = true
  widget : e.widget.IsStored

/-- All elements are such as reading leaves behind. -/
def Screen.IsStored (s : Screen) : Prop := ∀ e ∈ s.elements, e.IsStored

/-- All screens are such as reading leaves behind. -/
def Project.IsStored (p : Project) : Prop := ∀ s ∈ p.screens, s.IsStored

theorem mem_floats_iff {p : Project} {x : Float} :
    x ∈ p.floats ↔ ∃ s ∈ p.screens, ∃ e ∈ s.elements, x ∈ e.floats := by
  simp only [Project.floats, Screen.floats, List.mem_flatMap]

theorem Project.rescaled_eq {p : Project}
    (h : ∀ s ∈ p.screens, ∀ e ∈ s.elements, e.widget.rescaled = e.widget) : p.rescaled = p := by
  have helements (s : Screen) (hs : s ∈ p.screens) : s.rescaled = s := by
    have hmap : s.elements.map Element.rescaled = s.elements :=
      (List.map_congr_left fun e he => by rw [Element.rescaled, h s hs e he]; rfl).trans
        (List.map_id _)
    rw [Screen.rescaled, hmap]
  have hmap : p.screens.map Screen.rescaled = p.screens :=
    (List.map_congr_left fun s hs => helements s hs).trans (List.map_id _)
  rw [Project.rescaled, hmap]

theorem isNull_iff {json : Json} : json.isNull = true ↔ json = .null := by
  cases json <;> simp [isNull]

/-! ### Records -/

variable {room : Nat}

/-- A field is filled with what is read for it. -/
theorem readsAs_fill {δ α : Type} {name : String} {required : Bool} {get : δ → Option α}
    {put : δ → α → δ} {reader : Reader α} {json : Json} {a : α} (draft : δ)
    (h : ReadsAs (reader room) json a) :
    ReadsAs ((fieldAt name required get put reader).fill draft room) json (put draft a) where
  starts := h.starts
  reads level _ _ hsource hrest := by
    change (reader room _ >>= fun read => pure (put draft read.1, read.2)) = _
    rw [h.reads level hsource hrest]
    rfl

theorem readsAs_readRecord {δ α : Type} {fields : List (RecordField δ)} {empty done : δ}
    {members : List (String × Json)} (finish : δ → α)
    (h : Fills room fields empty members done) (hmissing : missing? fields done = none) :
    ReadsAs (readRecord fields empty finish (room + 1)) (.object members) (finish done) where
  starts := (ReadsAs.record h hmissing).starts
  reads level _ _ hsource hrest := by
    rw [readRecord, (ReadsAs.record h hmissing).reads level hsource hrest]
    rfl

theorem readsAs_readRect {space : Space} {r : Rect space} (hkept : ∀ x ∈ r.floats, IsKept x) :
    ReadsAs (readRect (room + 1)) r.toJson r := by
  have hread (x : Float) (hx : x ∈ r.floats) : ReadsAs (readFloat room) (.ofFloat x) x :=
    readsAs_readFloat room (hkept x hx).finite (hkept x hx).readsBack
  have hx := hread r.x (by simp [Rect.floats])
  have hy := hread r.y (by simp [Rect.floats])
  have hw := hread r.w (by simp [Rect.floats])
  have hh := hread r.h (by simp [Rect.floats])
  have hfills : Fills room rectFields {} [("x", .ofFloat r.x), ("y", .ofFloat r.y),
      ("w", .ofFloat r.w), ("h", .ofFloat r.h)] ⟨some r.x, some r.y, some r.w, some r.h⟩ :=
    .cons rfl rfl (readsAs_fill _ hx) <| .cons rfl rfl (readsAs_fill _ hy) <|
      .cons rfl rfl (readsAs_fill _ hw) <| .cons rfl rfl (readsAs_fill _ hh) <| .nil _
  exact readsAs_readRecord RectDraft.finish hfills rfl

/-! ### Parts of a design -/

/-- Properties that are left out are `null`, which is what is read where nothing is given. -/
theorem readsAs_readElement {e : Element} (h : e.widget.IsStored)
    (hkept : ∀ x ∈ e.floats, IsKept x) :
    ReadsAs (readElement (propsRoom + 1)) e.toJson e.rescaled := by
  obtain ⟨hdecode, hreadable⟩ :=
    Widget.decode_and_readable h fun x hx => hkept x (List.mem_append_right _ hx)
  have hrect : ReadsAs (readRect propsRoom) e.rect.toJson e.rect :=
    readsAs_readRect fun x hx => hkept x (List.mem_append_left _ hx)
  obtain ⟨id, rect, zIndex, widget⟩ := e
  have hid := readsAs_readText propsRoom id
  have htag := readsAs_readText propsRoom widget.tag
  have hdepth := readsAs_readInt32 propsRoom zIndex
  -- The four fields that are always there; properties may follow.
  have hfills {tail : List (String × Json)} {done : ElementDraft} (htail : Fills propsRoom
      elementFields ⟨some id, some widget.tag, some rect, some zIndex, none⟩ tail done) :
      Fills propsRoom elementFields {} ([("id", .string id), ("kind", .string widget.tag),
        ("rect", rect.toJson), ("zIndex", .ofInt zIndex.toInt)] ++ tail) done :=
    .cons rfl rfl (readsAs_fill _ hid) <| .cons rfl rfl (readsAs_fill _ htag) <|
      .cons rfl rfl (readsAs_fill _ hrect) <| .cons rfl rfl (readsAs_fill _ hdepth) htail
  -- Properties that are `null` are left out, and read as `null` again.
  by_cases hnull : widget.properties.isNull = true
  · have hread := readsAs_readRecord ElementDraft.finish (hfills (.nil _)) rfl
    have hprops : widget.properties = .null := isNull_iff.mp hnull
    rw [hprops] at hdecode
    rw [readElement, Element.toJson, if_pos hnull, Element.rescaled]
    simpa only [ElementDraft.finish, Option.getD_some, Option.getD_none, hdecode] using hread
  · have hprops : Fills propsRoom elementFields
        ⟨some id, some widget.tag, some rect, some zIndex, none⟩ [("props", widget.properties)]
        ⟨some id, some widget.tag, some rect, some zIndex, some widget.properties⟩ :=
      .cons rfl rfl (readsAs_fill _ (readsAs_readValue hreadable)) (.nil _)
    have hread := readsAs_readRecord ElementDraft.finish (hfills hprops) rfl
    rw [readElement, Element.toJson, if_neg hnull, Element.rescaled]
    simpa only [ElementDraft.finish, Option.getD_some, hdecode] using hread

theorem readsAs_readScreen {s : Screen} (h : ∀ e ∈ s.elements, e.widget.IsStored)
    (hkept : ∀ x ∈ s.floats, IsKept x) :
    ReadsAs (readScreen (propsRoom + 3)) s.toJson s.rescaled := by
  have hid := readsAs_readText (propsRoom + 2) s.id
  have hname := readsAs_readText (propsRoom + 2) s.name
  have helements : ReadsAs (listOf readElement (propsRoom + 2))
      (.array (s.elements.map Element.toJson)) (s.elements.map Element.rescaled) :=
    ReadsAs.listOf fun e he => readsAs_readElement (h e he)
      fun x hx => hkept x (List.mem_flatMap.mpr ⟨e, he, hx⟩)
  have hfills : Fills (propsRoom + 2) screenFields {} [("id", .string s.id),
      ("name", .string s.name), ("elements", .array (s.elements.map Element.toJson))]
      ⟨some s.id, some s.name, some (s.elements.map Element.rescaled)⟩ :=
    .cons rfl rfl (readsAs_fill _ hid) <| .cons rfl rfl (readsAs_fill _ hname) <|
      .cons rfl rfl (readsAs_fill _ helements) <| .nil _
  exact readsAs_readRecord ScreenDraft.finish hfills rfl

theorem readsAs_readProfile (room : Nat) (p : Profile) :
    ReadsAs (readProfile room) (.string p.name) p where
  starts := (readsAs_readText room p.name).starts
  reads level _ _ hsource hrest := by
    rw [readProfile, (readsAs_readText room p.name).reads level hsource hrest]
    simp only [bind, Except.bind, Profile.ofName?_name]
    rfl

theorem readsAs_rescaled {p : Project}
    (h : ∀ s ∈ p.screens, ∀ e ∈ s.elements, e.widget.IsStored) (hkept : ∀ x ∈ p.floats, IsKept x) :
    ReadsAs (readProject nestingLimit) p.toJson p.rescaled := by
  obtain ⟨name, profile, screens⟩ := p
  have hprofile := readsAs_readProfile (propsRoom + 4) profile
  have hscreens : ReadsAs (listOf readScreen (propsRoom + 4))
      (.array (screens.map Screen.toJson)) (screens.map Screen.rescaled) :=
    ReadsAs.listOf fun s hs => readsAs_readScreen (h s hs)
      fun x hx => hkept x (List.mem_flatMap.mpr ⟨s, hs, hx⟩)
  have hfills {named : Option (Option String)} :
      Fills (propsRoom + 4) projectFields ⟨named, none, none⟩
        [("deviceProfile", .string profile.name), ("screens", .array (screens.map Screen.toJson))]
        ⟨named, some profile, some (screens.map Screen.rescaled)⟩ :=
    .cons rfl rfl (readsAs_fill _ hprofile) <| .cons rfl rfl (readsAs_fill _ hscreens) <| .nil _
  cases name with
  | none => exact readsAs_readRecord ProjectDraft.finish hfills rfl
  | some name =>
      have hname := readsAs_optional_readText (propsRoom + 4) name
      have hall : Fills (propsRoom + 4) projectFields {} (("name", .string name) :: _) _ :=
        .cons rfl rfl (readsAs_fill _ hname) hfills
      exact readsAs_readRecord ProjectDraft.finish hall rfl

/-- A design that reading leaves as it is. -/
theorem readsAs_readProject {p : Project}
    (h : ∀ s ∈ p.screens, ∀ e ∈ s.elements, e.widget.IsNormal) (hkept : ∀ x ∈ p.floats, IsKept x) :
    ReadsAs (readProject nestingLimit) p.toJson p := by
  have hsame : p.rescaled = p :=
    Project.rescaled_eq fun s hs e he => (Widget.isNormal_iff.mp (h s hs e he)).2
  have hread := readsAs_rescaled
    (fun s hs e he => (Widget.isNormal_iff.mp (h s hs e he)).1) hkept
  rwa [hsame] at hread

/-! ### Documents -/

/-- A stored design is read back with the columns of its tables scaled once more, if the text of
each float in it is read as that float. -/
theorem ofText_document_eq_rescaled {p : Project} (h : p.IsStored)
    (hreads : ∀ x ∈ p.floats, x.isFinite = true → (Number.float x).ReadsBack) :
    Project.ofText p.document = .ok p.rescaled := by
  refine readDocument_pretty (readsAs_rescaled (fun s hs e he => (h s hs e he).widget) ?_)
  intro x hx
  obtain ⟨s, hs, e, he, hxe⟩ := mem_floats_iff.mp hx
  have hfinite := (h s hs e he).finite x hxe
  exact ⟨hfinite, hreads x hx hfinite⟩

/-- A design in normal form is read back from its document, if the text of each float in it is read
as that float. -/
theorem ofText_document {p : Project} (hnormal : p.IsNormal)
    (hreads : ∀ x ∈ p.floats, x.isFinite = true → (Number.float x).ReadsBack) :
    Project.ofText p.document = .ok p := by
  have hkept : ∀ x ∈ p.floats, IsKept x := fun x hx =>
    ⟨hnormal.finite x hx, hreads x hx (hnormal.finite x hx)⟩
  exact readDocument_pretty (readsAs_readProject hnormal.widgets hkept)

/-- A design with a label, a table, a selector, a navigation bar, a shape, and two elements that are
not known. -/
def noticeBoard : Project where
  name := some "Board \"A\""
  profile := .tablet
  screens := [
    { id := "home", name := "Home", elements := [
        { id := "label-1", rect := ⟨0.0, 0.25, 0.5, 0.25⟩, widget := .label { text := "5 €\n\\" } },
        { id := "table-1", rect := ⟨0.5, 0.25, 0.5, 0.5⟩, zIndex := -3, widget := .table {
            headers := ["A", "B"], rows := [["1", "2"]], colWidths := [0.75, 0.25] } },
        { id := "selector-1", rect := ⟨0.0, 0.5, 0.5, 0.25⟩, widget := .selector {
            options := [""] } },
        { id := "bottomnav-1", rect := ⟨0.0, 0.75, 1.0, 0.25⟩, zIndex := 10, widget := .bottomNav {
            items := [{ text := "Home", targetScreen := "home", icon := some "star" }, {}] } },
        { id := "ellipse-1", rect := ⟨0.0, 0.0, 1.0, 1.0⟩, widget := .ellipse {
            borderColor := some ⟨0x80FF0000⟩, borderWidth := 2.0 } },
        { id := "map-1", rect := ⟨0.0, 0.75, 1.0, 0.25⟩, widget := .unknown "Map" (.object [
            ("pins", .array [.object [("at", .number (.float 0.5)), ("no", .number (.int 7))]]),
            ("zoom", .null)]) },
        { id := "map-2", rect := ⟨0.0, 0.75, 1.0, 0.25⟩, widget := .unknown "" .null }] },
    { id := "empty", name := "" }]

theorem ofText_document_noticeBoard : noticeBoard.IsNormal ∧
    (∀ x ∈ noticeBoard.floats, x.isFinite = true → (Number.float x).ReadsBack) ∧
    Project.ofText noticeBoard.document = .ok noticeBoard := by
  have hnormal : noticeBoard.IsNormal := by
    refine ⟨by decide +kernel, ?_⟩
    simp only [noticeBoard, List.forall_mem_cons]
    refine ⟨⟨trivial, ?_, List.cons_ne_nil _ _, trivial, trivial, ⟨rfl, ?_, by decide⟩,
      ⟨rfl, trivial, by decide⟩, List.forall_mem_nil _⟩, List.forall_mem_nil _,
      List.forall_mem_nil _⟩
    · have hwidths : balanceWidths 2 [0.75, 0.25] = [0.75, 0.25] := by decide +kernel
      rw [Widget.IsNormal, TableProps.balanced]
      simp only [List.length_cons, List.length_nil, hwidths]
    · simp only [IsProper, MembersProper, ItemsProper, InOrder, and_true, IsWhole]
      decide
  have hreads : ∀ x ∈ noticeBoard.floats, x.isFinite = true → (Number.float x).ReadsBack := by
    intro x hx _
    have hvalue : ∀ x ∈ noticeBoard.floats, x = 0.0 ∨ x = 0.018 ∨ x = 0.02 ∨ x = 0.025 ∨ x = 0.25 ∨
        x = 0.5 ∨ x = 0.75 ∨ x = 1.0 ∨ x = 2.0 := by decide +kernel
    rcases hvalue x hx with rfl | rfl | rfl | rfl | rfl | rfl | rfl | rfl | rfl <;> rfl
  exact ⟨hnormal, hreads, ofText_document hnormal hreads⟩

end Wireframe.Design
