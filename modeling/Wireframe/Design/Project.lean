/-
Designs.

A project is a list of screens, the first of which is the home of the app, drawn for a device.  A
screen is a list of elements; an element is a widget at a place, and its depth tells what is painted
over what.

* `Profile.canvas`, `Profile.ofName?` — the devices, their canvases and names;
* `Element`, `Screen`, `Project` — designs and their parts;
* `Project.screenNamed?` — the screen of a given name.
-/
import Wireframe.Design.Rect
import Wireframe.Design.Widget

namespace Wireframe.Design

/-- The device that a design is drawn for. -/
inductive Profile
  | tablet
  | mobileSmall
  | mobile
deriving DecidableEq, Repr, Inhabited

namespace Profile

/-- The name of a profile. -/
def name : Profile → String
  | tablet => "tablet"
  | mobileSmall => "mobile-small"
  | mobile => "mobile"

/-- The profile of a given name. -/
def ofName? (name : String) : Option Profile :=
  [tablet, mobileSmall, mobile].find? (·.name == name)

/-- Width and height of the canvas, in points. -/
def canvas : Profile → Float × Float
  | tablet => (800.0, 1280.0)
  | mobileSmall => (360.0, 640.0)
  | mobile => (390.0, 844.0)

/-- What is said of a name that no profile has. -/
def refusal (name : String) : String :=
  s!"unknown device profile '{name}' (expected tablet, mobile-small or mobile)"

theorem ofName?_name (p : Profile) : ofName? p.name = some p := by cases p <;> rfl

end Profile

/-- A widget at a place. -/
structure Element where
  id : String
  rect : Rect .canvas
  /-- The greater, the nearer to the eye. -/
  zIndex : Int32 := 0
  widget : Widget
deriving BEq, Repr, Inhabited

/-- A screen of the app. -/
structure Screen where
  id : String
  name : String
  elements : List Element := []
deriving BEq, Repr, Inhabited

/-- A design. -/
structure Project where
  name : Option String := none
  profile : Profile := .mobile
  screens : List Screen := []
deriving BEq, Repr, Inhabited

/-- The first screen of a given name. -/
def Project.screenNamed? (project : Project) (name : String) : Option Screen :=
  project.screens.find? (·.name == name)

end Wireframe.Design
