/-
Editing a design.

Every edit gives the design that it leads to, or nothing if what it is about is not there.

* `Project.addScreen`, `Project.removeScreen?`, `Project.swapScreens?`, `Project.renameScreen?`;
* `Project.addElement?`, `Project.removeElement?`, `Project.moveElement?`, `Project.liftElement?`;
* `Property`, `Widget.set?`, `Project.setProperty?` — one property of one element;
* `Edit`, `Project.edit?`, `Project.afterEdits` — all edits, one of them and one after the other.
-/
import Wireframe.Design.Project

namespace Wireframe.Design

/-- The list with the item at `index` changed, if there is one and it can be changed. -/
def changeAt? {α : Type} (change : α → Option α) (index : Nat) (items : List α) :
    Option (List α) := do
  let item ← items[index]?
  return items.set index (← change item)

/-- The list without the item at `index`, if there is one. -/
def removeAt? {α : Type} (index : Nat) (items : List α) : Option (List α) :=
  if index < items.length then some (items.eraseIdx index) else none

/-- A property that can be set by itself. -/
inductive Property
  | fontSize (size : Float)
  | borderRadius (radius : Float)
  | borderWidth (width : Float)
  | colWidths (widths : List Float)
  | headers (headers : List String)
  | options (options : List String)

/-- The widget with a property set as it is, if it has that property. -/
def Widget.set? : Widget → Property → Option Widget
  | .label p, .fontSize v => some (.label { p with fontSize := v })
  | .button p, .fontSize v => some (.button { p with fontSize := v })
  | .table p, .fontSize v => some (.table { p with fontSize := v })
  | .button p, .borderRadius v => some (.button { p with borderRadius := v })
  | .rectangle p, .borderRadius v => some (.rectangle { p with borderRadius := v })
  | .ellipse p, .borderRadius v => some (.ellipse { p with borderRadius := v })
  | .rectangle p, .borderWidth v => some (.rectangle { p with borderWidth := v })
  | .ellipse p, .borderWidth v => some (.ellipse { p with borderWidth := v })
  | .table p, .colWidths v => some (.table { p with colWidths := v })
  | .table p, .headers v => some (.table { p with headers := v })
  | .selector p, .options v => some (.selector { p with options := v })
  | _, _ => none

namespace Project

/-- The project with its screens changed, if they can be changed. -/
def withScreens? (project : Project) (change : List Screen → Option (List Screen)) :
    Option Project :=
  (change project.screens).map fun screens => { project with screens }

/-- The project with one more screen. -/
def addScreen (project : Project) (screen : Screen) : Project :=
  { project with screens := project.screens ++ [screen] }

/-- The project without one of its screens. -/
def removeScreen? (project : Project) (index : Nat) : Option Project :=
  project.withScreens? (removeAt? index)

/-- The project with two screens in each other's place. -/
def swapScreens? (project : Project) (first second : Nat) : Option Project :=
  project.withScreens? fun screens => do
    let a ← screens[first]?
    let b ← screens[second]?
    return (screens.set first b).set second a

/-- The project with one screen changed. -/
def changeScreen? (project : Project) (index : Nat) (change : Screen → Option Screen) :
    Option Project :=
  project.withScreens? (changeAt? change index)

/-- The project with one screen renamed. -/
def renameScreen? (project : Project) (index : Nat) (name : String) : Option Project :=
  project.changeScreen? index fun screen => some { screen with name }

/-- The project with one more element on a screen. -/
def addElement? (project : Project) (index : Nat) (element : Element) : Option Project :=
  project.changeScreen? index fun screen =>
    some { screen with elements := screen.elements ++ [element] }

/-- The project without one element. -/
def removeElement? (project : Project) (screen element : Nat) : Option Project :=
  project.changeScreen? screen fun s =>
    (removeAt? element s.elements).map fun elements => { s with elements }

/-- The project with one element changed. -/
def changeElement? (project : Project) (screen element : Nat)
    (change : Element → Option Element) : Option Project :=
  project.changeScreen? screen fun s =>
    (changeAt? change element s.elements).map fun elements => { s with elements }

/-- The project with one element in another place. -/
def moveElement? (project : Project) (screen element : Nat) (rect : Rect .canvas) :
    Option Project :=
  project.changeElement? screen element fun e => some { e with rect }

/-- The project with one element at another depth. -/
def liftElement? (project : Project) (screen element : Nat) (zIndex : Int32) : Option Project :=
  project.changeElement? screen element fun e => some { e with zIndex }

/-- The project with one property of one element set. -/
def setProperty? (project : Project) (screen element : Nat) (property : Property) :
    Option Project :=
  project.changeElement? screen element fun e =>
    (e.widget.set? property).map fun widget => { e with widget }

end Project

/-! ### Sessions -/

/-- One edit of a design. -/
inductive Edit
  | nameProject (name : Option String)
  | chooseProfile (profile : Profile)
  | addScreen (screen : Screen)
  | removeScreen (index : Nat)
  | swapScreens (first second : Nat)
  | renameScreen (index : Nat) (name : String)
  | addElement (index : Nat) (element : Element)
  | removeElement (screen element : Nat)
  | moveElement (screen element : Nat) (rect : Rect .canvas)
  | liftElement (screen element : Nat) (zIndex : Int32)
  | setProperty (screen element : Nat) (property : Property)

namespace Project

/-- The design that an edit leads to, if what it is about is there. -/
def edit? (project : Project) : Edit → Option Project
  | .nameProject name => some { project with name }
  | .chooseProfile profile => some { project with profile }
  | .addScreen screen => some (project.addScreen screen)
  | .removeScreen index => project.removeScreen? index
  | .swapScreens first second => project.swapScreens? first second
  | .renameScreen index name => project.renameScreen? index name
  | .addElement index element => project.addElement? index element
  | .removeElement screen element => project.removeElement? screen element
  | .moveElement screen element rect => project.moveElement? screen element rect
  | .liftElement screen element zIndex => project.liftElement? screen element zIndex
  | .setProperty screen element property => project.setProperty? screen element property

/-- The design after one edit: an edit of what is not there changes nothing. -/
def afterEdit (project : Project) (edit : Edit) : Project := (project.edit? edit).getD project

/-- The design after some edits, one after the other. -/
def afterEdits (project : Project) (edits : List Edit) : Project := edits.foldl afterEdit project

end Project

end Wireframe.Design
