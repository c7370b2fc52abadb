/-
Designs that are read again.

Nothing changes in a design when it is stored and read again but the widths of columns: they are
scaled by their sum each time, and fractions that have been scaled need not add up to one.

* `Screen.IsObtained` — the screens that there are: those of documents, and those read off sketches;
* `isStored_of_interpretScreen` — screens read off sketches are such as reading leaves behind;
* `ofText_document_of_isObtained` — what a design of such screens is read as;
* `sixColumns` — a table of which the widths change whenever it is read.
-/
import Wireframe.Proofs.Design.Stored
import Wireframe.Proofs.Sketch.Screen

namespace Wireframe.Sketch

open Design Json

/-- What a box shows is fit to be stored. -/
theorem isFit_widgetOf (options : Options) {size : Float} (hsize : size.isFinite = true)
    (taken : Option (List Placed)) (box : DetectedBox) :
    (widgetOf options size taken box).IsFit := by
  have hone : ∀ x ∈ [size], x.isFinite = true := List.forall_mem_singleton.mpr hsize
  have hbutton : ∀ x ∈ [4.0, size], x.isFinite = true := List.forall_mem_cons.mpr ⟨rfl, hone⟩
  unfold widgetOf
  cases box.kind with
  | label => exact ⟨hone, trivial⟩
  | paragraph => exact ⟨hone, trivial⟩
  | inputText => exact ⟨hone, trivial⟩
  | inputDate => exact ⟨hone, trivial⟩
  | button => exact ⟨hbutton, trivial⟩
  | link => exact ⟨hone, trivial⟩
  | table => exact Widget.isFit_balanced hsize
  | checkbox => exact ⟨hone, trivial⟩
  | selector => exact Widget.isFit_filled hsize
  | rectangle => exact ⟨(Widget.isFit_default .rectangle).finite, trivial⟩
  | ellipse => exact ⟨(Widget.isFit_default .ellipse).finite, trivial⟩
  | _ => exact ⟨List.forall_mem_nil _, trivial⟩

theorem finite_of_isOnCanvas {r : Rect .canvas} (h : r.isOnCanvas 0.0 = true) :
    ∀ x ∈ r.floats, x.isFinite = true := by
  simp only [Rect.isOnCanvas, Rect.isFinite, Bool.and_eq_true] at h
  obtain ⟨⟨⟨⟨⟨⟨⟨⟨⟨hx, hy⟩, hw⟩, hh⟩, -⟩, -⟩, -⟩, -⟩, -⟩, -⟩ := h
  simp only [Rect.floats, List.forall_mem_cons]
  exact ⟨hx, hy, hw, hh, List.forall_mem_nil _⟩

/-- A screen that is read off a sketch is such as reading leaves behind. -/
theorem isStored_of_interpretScreen {text id name : String} {boxes : List DetectedBox}
    (hread : readPayload text = .ok boxes) {width height : Nat} {options : Options} {s : Screen}
    (h : interpretScreen id name width height boxes options = .ok s) : s.IsStored := by
  obtain ⟨hwidth, hheight, rfl⟩ := eq_of_interpretScreen h
  intro element helement
  obtain ⟨n, hn⟩ := List.getElem?_of_mem helement
  rw [getElem?_elementsOf] at hn
  obtain ⟨placed, hplaced, rfl⟩ := Option.map_eq_some_iff.mp hn
  have hbox : IsAccepted placed.box :=
    isAccepted_of_mem_keptOf hread placed (List.mem_of_getElem? hplaced)
  have hsize := textSize_mem options hbox hheight
  have hwidget := isFit_widgetOf options (Binary64.isFinite_of_unit hsize.1 hsize.2)
    ((Absorption.of boxes).takenBy? placed.index) placed.box
  have hrect := finite_of_isOnCanvas (isOnCanvas_toCanvas hbox.bb hwidth hheight)
  exact ⟨List.forall_mem_append.mpr ⟨hrect, hwidget.finite⟩, hwidget.stored⟩

end Wireframe.Sketch

namespace Wireframe.Design

open Json

/-- A screen of a document that has been read, or one that has been read off a sketch. -/
inductive Screen.IsObtained (s : Screen) : Prop
  | read {source : Source} {p : Project} (h : Project.read source = .ok p) (hs : s ∈ p.screens)
  | interpreted {text id name : String} {width height : Nat} {boxes : List Sketch.DetectedBox}
      {options : Sketch.Options} (hread : Sketch.readPayload text = .ok boxes)
      (h : Sketch.interpretScreen id name width height boxes options = .ok s)

theorem Screen.IsObtained.isStored {s : Screen} (h : s.IsObtained) : s.IsStored := by
  cases h with
  | read h hs => exact isStored_of_read h s hs
  | interpreted hread h => exact Sketch.isStored_of_interpretScreen hread h

/-- Reading again changes nothing if the columns of all tables are as scaling leaves them. -/
theorem Project.rescaled_eq_iff {p : Project} : p.rescaled = p ↔
    ∀ s ∈ p.screens, ∀ e ∈ s.elements, ∀ t, e.widget = .table t → t.balanced = t := by
  constructor
  · intro h s hs e he t ht
    have hscreens : p.screens.map Screen.rescaled = p.screens.map id := by
      rw [List.map_id]
      exact congrArg Project.screens h
    have hscreen : s.rescaled = s := List.map_inj_left.mp hscreens s hs
    have helements : s.elements.map Element.rescaled = s.elements.map id := by
      rw [List.map_id]
      exact congrArg Screen.elements hscreen
    have helement : e.rescaled = e := List.map_inj_left.mp helements e he
    have hwidget : e.widget.rescaled = e.widget := congrArg Element.widget helement
    rw [ht] at hwidget
    exact Widget.table.inj hwidget
  · intro h
    refine Project.rescaled_eq fun s hs e he => ?_
    cases hwidget : e.widget with
    | table t =>
      rw [Widget.rescaled, h s hs e he t hwidget]
    | _ => rfl

/-- A design of screens that have been read, from documents or off sketches, is read again as it is
but for its tables, of which the columns are scaled once more.  So it is read as itself if and only
if that leaves the columns of all its tables alone. -/
theorem ofText_document_of_isObtained {p : Project} (hscreens : ∀ s ∈ p.screens, s.IsObtained)
    (hreads : ∀ x ∈ p.floats, x.isFinite = true → (Number.float x).ReadsBack) :
    Project.ofText p.document = .ok p.rescaled ∧
      (Project.ofText p.document = .ok p ↔
        ∀ s ∈ p.screens, ∀ e ∈ s.elements, ∀ t, e.widget = .table t → t.balanced = t) := by
  have hstored : p.IsStored := fun s hs => (hscreens s hs).isStored
  have hread := ofText_document_eq_rescaled hstored hreads
  refine ⟨hread, ?_⟩
  rw [hread, Except.ok.injEq]
  exact Project.rescaled_eq_iff

/-- A table with six columns of which no width is given. -/
def sixColumns : String :=
  "\x7b\"screens\": [\x7b\"id\": \"s\", \"name\": \"S\", \"elements\": [\x7b\"id\": \"t\", " ++
    "\"kind\": \"Table\", \"rect\": \x7b\"x\": 0, \"y\": 0, \"w\": 1, \"h\": 1\x7d, " ++
    "\"props\": \x7b\"headers\": [\"A\", \"B\", \"C\", \"D\", \"E\", \"F\"]\x7d\x7d]\x7d]\x7d"

/-- The six widths are the sixth of one, rounded; their sum is below one, so that they are greater
when they are scaled by it. -/
theorem read_sixColumns : ∃ p, Project.ofText sixColumns = .ok p ∧
    (∀ x ∈ p.floats, x.isFinite = true → (Number.float x).ReadsBack) ∧
    p.rescaled.floats ≠ p.floats := by
  have hcheck : (Project.ofText sixColumns).toOption.any fun p =>
      decide ((∀ x ∈ p.floats, (Number.float x).ReadsBack) ∧ p.rescaled.floats ≠ p.floats) := by
    decide +kernel
  cases hread : Project.ofText sixColumns with
  | error e =>
    rw [hread] at hcheck
    cases hcheck
  | ok p =>
    rw [hread] at hcheck
    obtain ⟨hreads, hne⟩ := of_decide_eq_true hcheck
    exact ⟨p, rfl, fun x hx _ => hreads x hx, hne⟩

/-- A document that is read, but not read as itself when it is stored and read again. -/
theorem ofText_document_ne_sixColumns : ∃ p, Project.ofText sixColumns = .ok p ∧
    (∀ x ∈ p.floats, x.isFinite = true → (Number.float x).ReadsBack) ∧
    Project.ofText p.document ≠ .ok p := by
  obtain ⟨p, hread, hreads, hne⟩ := read_sixColumns
  refine ⟨p, hread, hreads, ?_⟩
  rw [ofText_document_eq_rescaled (isStored_of_read hread) hreads]
  intro hsame
  exact hne (congrArg Project.floats (Except.ok.inj hsame))

theorem ofText_document_of_isObtained_sixColumns : ∃ p, Project.ofText sixColumns = .ok p ∧
    (∀ s ∈ p.screens, s.IsObtained) ∧
    (∀ x ∈ p.floats, x.isFinite = true → (Number.float x).ReadsBack) ∧
    Project.ofText p.document = .ok p.rescaled ∧
      (Project.ofText p.document = .ok p ↔
        ∀ s ∈ p.screens, ∀ e ∈ s.elements, ∀ t, e.widget = .table t → t.balanced = t) := by
  obtain ⟨p, hread, hreads, -⟩ := read_sixColumns
  have hscreens : ∀ s ∈ p.screens, s.IsObtained := fun s hs => .read hread hs
  exact ⟨p, hread, hscreens, hreads, ofText_document_of_isObtained hscreens hreads⟩

end Wireframe.Design
