/-
Helper classes.

Some widgets need a class of their own beside the screen.  However many widgets of a screen need it,
a helper is defined once.

* `Helper`, `Helper.className` — the helpers and their classes;
* `HelperTable` — definitions of helpers, in the order of the helpers;
* `HelperTable.register` — adds a definition unless there is one already.
-/
namespace Wireframe.App

/-- A class that widgets need beside the screen. -/
inductive Helper
  | textInput
  | obscuredInput
  | dateInput
  | checkbox
  | dropdown
  | ellipsePainter
  | autoplay
deriving Repr, DecidableEq, Inhabited

namespace Helper

/-- The name of the class. -/
def className : Helper → String
  | textInput => "_TextInputField"
  | obscuredInput => "_ObscuredTextInputField"
  | dateInput => "_DateInputField"
  | checkbox => "_CheckboxField"
  | dropdown => "_DropdownField"
  | ellipsePainter => "_EllipsePainter"
  | autoplay => "_AutoplayLauncher"

/-- The place of a helper among all of them. -/
def rank : Helper → Nat
  | textInput => 0
  | obscuredInput => 1
  | dateInput => 2
  | checkbox => 3
  | dropdown => 4
  | ellipsePainter => 5
  | autoplay => 6

theorem rank_injective {a b : Helper} (h : a.rank = b.rank) : a = b := by
  cases a <;> cases b <;> simp_all [rank]

end Helper

/-- Definitions of helpers, in the order of the helpers. -/
structure HelperTable (δ : Type) where
  entries : List (Helper × δ) := []
deriving Repr, Inhabited

namespace HelperTable

variable {δ : Type}

/-- There is a definition of the helper. -/
def contains (table : HelperTable δ) (helper : Helper) : Bool :=
  table.entries.any (·.1 = helper)

/-- Adds a definition to definitions in the order of the helpers, unless there is one already. -/
def place (helper : Helper) (definition : δ) : List (Helper × δ) → List (Helper × δ)
  | [] => [(helper, definition)]
  | entry :: rest =>
      if helper.rank < entry.1.rank then (helper, definition) :: entry :: rest
      else if helper.rank = entry.1.rank then entry :: rest
      else entry :: place helper definition rest

/-- Adds a definition of a helper, unless there is one already. -/
def register (table : HelperTable δ) (helper : Helper) (definition : δ) : HelperTable δ :=
  ⟨place helper definition table.entries⟩

/-- The number of helpers that are defined. -/
def size (table : HelperTable δ) : Nat := table.entries.length

end HelperTable

end Wireframe.App
