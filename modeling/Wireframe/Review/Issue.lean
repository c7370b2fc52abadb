/-
What can be wrong with a design.

A finding tells a fault together with what it takes to describe it.  Faults that leave nothing to
generate are errors; what the generator can work around is a warning.

* `Finding`, `Finding.code`, `Finding.message`, `Finding.severity` — a fault and how it is reported;
* `Place` — where it was found;
* `Issue` — a finding at a place, with the severity it is given.
-/
import Wireframe.Design.Rect
import Wireframe.Design.Kind
import Wireframe.Json.Value

namespace Wireframe.Review

open Design

/-- How much an issue matters. -/
inductive Severity
  | warning
  | error
deriving DecidableEq, Repr, Inhabited

/-- Where an issue was found. -/
inductive Place
  | project
  | screen (name : String)
  | element (screen id : String)
deriving DecidableEq, Repr, Inhabited

/-- A kind of fault. -/
inductive Code
  | noScreens
  | emptyScreenName
  | duplicateScreenName
  | routeCollision
  | duplicateScreenId
  | multipleOverlays
  | duplicateElementId
  | rectNotFinite
  | rectOutOfBounds
  | emptyRect
  | unknownElementKind
  | unknownTargetScreen
deriving DecidableEq, Repr, Inhabited

/-- The name of a kind of fault. -/
def Code.name : Code → String
  | noScreens => "NoScreens"
  | emptyScreenName => "EmptyScreenName"
  | duplicateScreenName => "DuplicateScreenName"
  | routeCollision => "RouteCollision"
  | duplicateScreenId => "DuplicateScreenId"
  | multipleOverlays => "MultipleOverlays"
  | duplicateElementId => "DuplicateElementId"
  | rectNotFinite => "RectNotFinite"
  | rectOutOfBounds => "RectOutOfBounds"
  | emptyRect => "EmptyRect"
  | unknownElementKind => "UnknownElementKind"
  | unknownTargetScreen => "UnknownTargetScreen"

/-- A fault. -/
inductive Finding
  /-- There is no screen. -/
  | noScreens
  /-- The screen at `index` has a blank name. -/
  | emptyScreenName (index : Nat)
  /-- A name that the screen at `first` has already. -/
  | duplicateScreenName (name : String) (first : Nat)
  /-- Two names with the same route. -/
  | sameRoute (earlier later route : String)
  /-- Two names with different routes and the same class. -/
  | sameClass (earlier later className : String)
  /-- An id that the screen at `first` has already. -/
  | duplicateScreenId (id : String) (first : Nat)
  /-- Several navigation bars of one kind. -/
  | multipleOverlays (count : Nat) (kind : Kind)
  /-- An id that the element at `first` has already. -/
  | duplicateElementId (id : String) (first : Nat)
  /-- A rectangle of which not all numbers are finite. -/
  | rectNotFinite (rect : Rect .canvas)
  /-- A rectangle that leaves the canvas. -/
  | rectOutOfBounds (rect : Rect .canvas)
  /-- A rectangle that covers nothing. -/
  | emptyRect
  /-- A kind that is not known. -/
  | unknownElementKind (tag : String)
  /-- An entry of a navigation bar that leads nowhere. -/
  | unknownTargetScreen (text target : String)
deriving Repr, Inhabited

namespace Finding

/-- The kind of a fault. -/
def code : Finding → Code
  | noScreens => .noScreens
  | emptyScreenName _ => .emptyScreenName
  | duplicateScreenName _ _ => .duplicateScreenName
  | sameRoute _ _ _ => .routeCollision
  | sameClass _ _ _ => .routeCollision
  | duplicateScreenId _ _ => .duplicateScreenId
  | multipleOverlays _ _ => .multipleOverlays
  | duplicateElementId _ _ => .duplicateElementId
  | rectNotFinite _ => .rectNotFinite
  | rectOutOfBounds _ => .rectOutOfBounds
  | emptyRect => .emptyRect
  | unknownElementKind _ => .unknownElementKind
  | unknownTargetScreen _ _ => .unknownTargetScreen

/-- How much a fault matters by itself. -/
def severity (finding : Finding) : Severity :=
  match finding.code with
  | .emptyRect | .unknownElementKind | .unknownTargetScreen | .multipleOverlays => .warning
  | _ => .error

/-- The numbers of a rectangle, each written by `render`. -/
def rectNumbers (render : Float → String) (r : Rect .canvas) : String :=
  "(" ++ render r.x ++ ", " ++ render r.y ++ ", " ++ render r.w ++ ", " ++ render r.h ++ ")"

/-- A fault in words. -/
def message : Finding → String
  | noScreens => "Project has no screens"
  | emptyScreenName index => s!"Screen at index {index} has an empty name"
  | duplicateScreenName name first =>
      s!"Duplicate screen name '{name}' (first seen at index {first})"
  | sameRoute earlier later route =>
      s!"Screen names '{earlier}' and '{later}' both map to route '{route}'"
  | sameClass earlier later className =>
      s!"Screen names '{earlier}' and '{later}' both map to class '{className}'"
  | duplicateScreenId id first => s!"Duplicate screen ID {id} (first seen at index {first})"
  | multipleOverlays count kind =>
      s!"{count} {kind.tag} elements; only one per screen is supported"
  | duplicateElementId id first => s!"Duplicate element ID {id} (first seen at index {first})"
  | rectNotFinite rect => "Non-finite rect " ++ rectNumbers Decimal.plainNumber.render rect
  | rectOutOfBounds rect =>
      "Rect " ++ rectNumbers (Decimal.placesText 4) rect ++ " leaves the unit canvas"
  | emptyRect => "Zero-area rect will not be visible"
  | unknownElementKind tag => s!"Unknown element kind '{tag}' will render as a placeholder"
  | unknownTargetScreen text target => s!"Item '{text}' targets unknown screen '{target}'"

end Finding

/-- A place in words. -/
def Place.text : Place → String
  | .project => "project"
  | .screen name => s!"screen '{name}'"
  | .element within id => s!"element {id} of screen '{within}'"

/-- A finding at a place. -/
structure Issue where
  severity : Severity
  finding : Finding
  place : Place
deriving Repr, Inhabited

namespace Issue

/-- A finding at a place, with the severity that it has by itself. -/
def of (finding : Finding) (place : Place) : Issue := ⟨finding.severity, finding, place⟩

/-- The issue as an error. -/
def promote (issue : Issue) : Issue := { issue with severity := .error }

/-- The kind of the fault. -/
def code (issue : Issue) : Code := issue.finding.code

/-- An issue in words. -/
def text (issue : Issue) : String :=
  let label := match issue.severity with
    | .error => "ERROR"
    | .warning => "WARN "
  s!"[{label}] {issue.code.name} in {issue.place.text}: {issue.finding.message}"

end Issue

/-- A severity as a value. -/
def Severity.toJson : Severity → Json
  | warning => .string "warning"
  | error => .string "error"

/-- A place as a value. -/
def Place.toJson : Place → Json
  | .project => .object [("scope", .string "project")]
  | .screen name => .object [("scope", .string "screen"), ("name", .string name)]
  | .element within id =>
      .object [("scope", .string "element"), ("screen", .string within), ("id", .string id)]

/-- An issue as a value. -/
def Issue.toJson (issue : Issue) : Json :=
  .object [("severity", issue.severity.toJson), ("code", .string issue.code.name),
    ("message", .string issue.finding.message), ("context", issue.place.toJson)]

end Wireframe.Review
