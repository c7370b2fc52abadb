/-
The kinds of elements.

There are sixteen kinds, each with a tag by which documents and payloads name it.

* `Kind.tag`, `Kind.ofTag?` — a kind and its tag;
* `Kind.isOverlay` — the navigation bars, which lie above everything else.
-/
namespace Wireframe.Design

/-- What an element is. -/
inductive Kind
  | label
  | paragraph
  | inputText
  | inputDate
  | button
  | link
  | table
  | checkbox
  | selector
  | sidebar
  | bottomNav
  | rectangle
  | ellipse
  | image
  | video
  | audio
deriving Repr, DecidableEq, Inhabited

namespace Kind

/-- All kinds, in the order in which they are listed. -/
def all : List Kind :=
  [.label, .paragraph, .inputText, .inputDate, .button, .link, .table, .checkbox, .selector,
    .sidebar, .bottomNav, .rectangle, .ellipse, .image, .video, .audio]

/-- The name of a kind in documents. -/
def tag : Kind → String
  | label => "Label"
  | paragraph => "Paragraph"
  | inputText => "InputText"
  | inputDate => "InputDate"
  | button => "Button"
  | link => "Link"
  | table => "Table"
  | checkbox => "Checkbox"
  | selector => "Selector"
  | sidebar => "Sidebar"
  | bottomNav => "BottomNav"
  | rectangle => "Rectangle"
  | ellipse => "Ellipse"
  | image => "Image"
  | video => "Video"
  | audio => "Audio"

/-- The kind with a given tag. -/
def ofTag? (tag : String) : Option Kind := all.find? (·.tag == tag)

/-- The kind is a navigation bar. -/
def isOverlay : Kind → Bool
  | sidebar | bottomNav => true
  | _ => false

theorem mem_all (k : Kind) : k ∈ all := by cases k <;> decide

theorem ofTag?_tag (k : Kind) : ofTag? k.tag = some k := by cases k <;> rfl

theorem ofTag?_eq_some_iff {tag : String} {k : Kind} : ofTag? tag = some k ↔ k.tag = tag := by
  constructor
  · intro h
    exact beq_iff_eq.mp (List.find?_some (p := fun k : Kind => k.tag == tag) h)
  · rintro rfl
    exact ofTag?_tag k

end Kind

end Wireframe.Design
