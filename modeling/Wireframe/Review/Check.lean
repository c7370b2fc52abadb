/-
Checking a design.

A design is checked from its first screen to its last: first the ids and names of all screens, then
the elements of each screen.  A screen whose name is refused for one reason is not looked at for
the next one, and a refused name does not count as taken.

* `check` — the report of a design;
* `screenFindings`, `elementFindings`, `overlayFindings` — the parts of it;
* `Claimed` — the ids, names, routes and classes that earlier screens have.
-/
import Wireframe.App.Naming
import Wireframe.Design.Project
import Wireframe.Review.Report
import Wireframe.Text.Blank

namespace Wireframe.Review

open Design

/-- How far a rectangle may reach beyond the canvas. -/
def rectTolerance : Float := 1e-6

/-! ### Screens -/

/-- What earlier screens have, each with the index or the name of the first one that has it. -/
structure Claimed where
  ids : List (String × Nat) := []
  names : List (String × Nat) := []
  routes : List (String × String) := []
  classes : List (String × String) := []
deriving Repr, Inhabited

namespace Claimed

/-- Looks at the id of a screen. -/
def claimId (claimed : Claimed) (index : Nat) (id : String) : Claimed × List Finding :=
  match claimed.ids.lookup id with
  | some first => (claimed, [.duplicateScreenId id first])
  | none => ({ claimed with ids := (id, index) :: claimed.ids }, [])

/-- Looks at the class of a screen. -/
def claimClass (claimed : Claimed) (name : String) : Claimed × List Finding :=
  let className := App.className name
  match claimed.classes.lookup className with
  | some earlier => (claimed, [.sameClass earlier name className])
  | none => ({ claimed with classes := (className, name) :: claimed.classes }, [])

/-- Looks at the route of a screen, and then at its class. -/
def claimRoute (claimed : Claimed) (name : String) : Claimed × List Finding :=
  let route := App.routeId name
  match claimed.routes.lookup route with
  | some earlier => (claimed, [.sameRoute earlier name route])
  | none => claimClass { claimed with routes := (route, name) :: claimed.routes } name

/-- Looks at the name of a screen, and then at its route. -/
def claimName (claimed : Claimed) (index : Nat) (name : String) : Claimed × List Finding :=
  if Text.isBlankText name then (claimed, [.emptyScreenName index])
  else
    -- a name that is there already has the route and the class of the first one with it
    match claimed.names.lookup name with
    | some first => (claimed, [.duplicateScreenName name first])
    | none => claimRoute { claimed with names := (name, index) :: claimed.names } name

/-- Looks at a screen. -/
def claim (claimed : Claimed) (index : Nat) (screen : Screen) : Claimed × List Finding :=
  let (claimed, aboutId) := claimed.claimId index screen.id
  let (claimed, aboutName) := claimed.claimName index screen.name
  (claimed, aboutId ++ aboutName)

end Claimed

/-- The issues with ids and names of screens, the first of which has the given index. -/
def screenIssues (claimed : Claimed) (index : Nat) : List Screen → List Issue
  | [] => []
  | screen :: rest =>
      let (claimed, findings) := claimed.claim index screen
      findings.map (.of · (.screen screen.name)) ++ screenIssues claimed (index + 1) rest

/-! ### Elements -/

/-- What is wrong with a rectangle, the worst fault only. -/
def rectFindings (rect : Rect .canvas) : List Finding :=
  if !rect.isFinite then [.rectNotFinite rect]
  else if !rect.isOnCanvas rectTolerance then [.rectOutOfBounds rect]
  else if rect.area ≤ 0.0 then [.emptyRect]
  else []

/-- The entries of a navigation bar. -/
def navItems : Widget → List NavItem
  | .sidebar props => props.items
  | .bottomNav props => props.items
  | _ => []

/-- What is wrong with the kind of a widget. -/
def kindFindings : Widget → List Finding
  | .unknown tag _ => [.unknownElementKind tag]
  | _ => []

/-- The entries of a navigation bar that lead to none of the given routes. -/
def targetFindings (routes : List String) (widget : Widget) : List Finding :=
  ((navItems widget).filter fun item => !routes.contains (App.routeId item.targetScreen)).map
    fun item => .unknownTargetScreen item.text item.targetScreen

/-- What is wrong with an element, `earlier` being the ids before it. -/
def elementFindings (routes : List String) (earlier : List String) (element : Element) :
    List Finding :=
  (match earlier.idxOf? element.id with
    | some first => [.duplicateElementId element.id first]
    | none => []) ++
    rectFindings element.rect ++ kindFindings element.widget ++
    targetFindings routes element.widget

/-- The issues with the elements of a screen, `earlier` being the ids before them. -/
def elementIssues (routes : List String) (screen : String) (earlier : List String) :
    List Element → List Issue
  | [] => []
  | element :: rest =>
      (elementFindings routes earlier element).map (.of · (.element screen element.id)) ++
        elementIssues routes screen (earlier ++ [element.id]) rest

/-- The kinds of navigation bars that a screen has more than once. -/
def overlayFindings (elements : List Element) : List Finding :=
  [Kind.sidebar, Kind.bottomNav].flatMap fun kind =>
    -- kinds come in their own order, not in that of the elements
    let count := (elements.filter (·.widget.kind? = some kind)).length
    if 1 < count then [.multipleOverlays count kind] else []

/-- The issues within a screen. -/
def withinScreen (routes : List String) (screen : Screen) : List Issue :=
  elementIssues routes screen.name [] screen.elements ++
    (overlayFindings screen.elements).map (.of · (.screen screen.name))

/-! ### Designs -/

/-- The issues of a design, each with the severity that it has by itself. -/
def issues (project : Project) : List Issue :=
  if project.screens.isEmpty then [.of .noScreens .project]
  else
    let routes := project.screens.map (App.routeId ·.name)
    screenIssues {} 0 project.screens ++ project.screens.flatMap (withinScreen routes)

/-- The report of a design; a strict one takes every issue for an error. -/
def check (strict : Bool) (project : Project) : Report :=
  let report : Report := ⟨issues project⟩
  if strict then report.promote else report

end Wireframe.Review
