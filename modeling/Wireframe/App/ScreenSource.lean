/-
The code of a screen.

The elements of a screen are painted one over the other: navigation bars above everything else, and
then by their depth.  Going through them in this order yields the code of each, the helpers that they
need, and the state that the navigation bars keep.

* `paintOrder` — the elements in the order in which they are painted;
* `Fragment`, `fragmentOf` — the code of an element;
* `ScreenState`, `ScreenState.note` — what is collected on the way;
* `ScreenUnit`, `screenUnit` — everything that is generated for a screen.
-/
import Wireframe.App.Field
import Wireframe.App.HelperSource
import Wireframe.App.Navigation
import Wireframe.App.Table

namespace Wireframe.App

open Dart Design

/-! ### Elements -/

/-- `a` is not painted over `b`. -/
def paintedBefore (a b : Element) : Bool :=
  -- navigation bars lie above everything else, whatever their depth
  match a.widget.isOverlay, b.widget.isOverlay with
  | false, true => true
  | true, false => false
  | _, _ => a.zIndex ≤ b.zIndex

/-- The elements in the order in which they are painted; those at one depth keep their order. -/
def paintOrder (elements : List Element) : List Element := elements.mergeSort paintedBefore

/-- The code of an element, one expression for each thing that it paints. -/
def elementCode (around : Surroundings) (element : Element) : List Expr :=
  let placed (child : Expr) : List Expr := [positioned element.rect child]
  match element.widget with
  | .label p => placed (labelCode p)
  | .paragraph p => placed (paragraphCode p)
  | .inputText p => placed (inputTextCode p)
  | .inputDate p => placed (inputDateCode p)
  | .button p => placed (buttonCode p)
  | .link p => placed (linkCode p)
  | .table p => placed (tableCode p)
  | .checkbox p => placed (checkboxCode p)
  | .selector p => placed (selectorCode p)
  | .sidebar p => sidebarCode around element.rect p
  | .bottomNav p => placed (bottomNavCode around p)
  | .rectangle p => placed (rectangleCode p)
  | .ellipse p => placed (ellipseCode p)
  | .image p => placed (imageCode p)
  | .video p => placed (videoCode p)
  | .audio p => placed (audioCode p)
  | .unknown tag _ => placed (placeholderCode tag)

/-- The code of an element and where it comes from. -/
structure Fragment where
  elementId : String
  zIndex : Int32
  code : List Expr
deriving Repr, Inhabited

/-- The code of an element and where it comes from. -/
def fragmentOf (around : Surroundings) (element : Element) : Fragment where
  elementId := element.id
  zIndex := element.zIndex
  code := elementCode around element

/-- The code of an element as a text. -/
def Fragment.text (fragment : Fragment) : String :=
  String.intercalate ",\n" (fragment.code.map Expr.text)

/-! ### State -/

/-- What the elements of a screen need beside their own code. -/
structure ScreenState where
  helpers : HelperTable (List ClassDecl) := {}
  /-- The bar at the side is shown at first. -/
  sidebarVisible : Option Bool := none
  /-- The entry of the bar at the bottom that is chosen at first. -/
  navIndex : Option Nat := none
deriving Inhabited

namespace ScreenState

/-- Defines the helper that a widget needs. -/
def noteHelper (state : ScreenState) (widget : Widget) : ScreenState :=
  match helper? widget with
  | some helper => { state with helpers := state.helpers.register helper helper.classes }
  | none => state

/-- Keeps what the first navigation bar of each kind says. -/
def noteBar (around : Surroundings) (state : ScreenState) : Widget → ScreenState
  | .sidebar p => { state with sidebarVisible := state.sidebarVisible <|> some p.visible }
  | .bottomNav p => { state with navIndex := state.navIndex <|> some (startIndex around p) }
  | _ => state

/-- Takes note of an element. -/
def note (around : Surroundings) (state : ScreenState) (element : Element) : ScreenState :=
  (state.noteHelper element.widget).noteBar around element.widget

/-- What the elements of a list need. -/
def ofElements (around : Surroundings) (elements : List Element) : ScreenState :=
  elements.foldl (note around) {}

end ScreenState

/-! ### Classes -/

/-- The fields of the state of a screen. -/
def stateFields (state : ScreenState) : List Outline :=
  (state.sidebarVisible.toList.map fun visible =>
    .code ("bool _sidebarVisible = " ++ (if visible then "true" else "false") ++ ";")) ++
  (state.navIndex.toList.map fun index => .code ("int _navIndex = " ++ toString index ++ ";"))

/-- The shape of the canvas. -/
def aspectCode (profile : Profile) : String :=
  double profile.canvas.1 ++ " / " ++ double profile.canvas.2

/-- The method that builds a screen. -/
def screenBuild (profile : Profile) (fragments : List Fragment) : List Outline :=
  overriding buildHead
    [parens "return Scaffold"
      ["backgroundColor: Colors.white,",
        parens "body: SafeArea"
          [parens "child: Center"
            [parens "child: AspectRatio"
              [.code ("aspectRatio: " ++ aspectCode profile ++ ","),
                parens "child: LayoutBuilder"
                  [parens ("builder: (context, " ++ constraintsName ++ ") => Stack")
                    ["clipBehavior: Clip.hardEdge,",
                      brackets "children: " ((fragments.flatMap Fragment.code).map .item)]]]]]]
      ";"]

/-- The class that holds the state of a screen. -/
def stateClassName (className : String) : String := "_" ++ className ++ "State"

/-- The classes of a screen. -/
def screenClasses (className : String) (profile : Profile) (state : ScreenState)
    (fragments : List Fragment) : List ClassDecl :=
  let fields := stateFields state
  let build := screenBuild profile fragments
  stateful className (stateClassName className) (constructorLine className ["super.key"]) []
    (if fields.isEmpty then [build] else [fields, build])

/-! ### Files -/

/-- A generated file; its path is relative to the root of the app. -/
structure SourceFile where
  path : String
  contents : String
deriving Repr, DecidableEq, Inhabited

/-- The directory that holds all generated files. -/
def sourceRoot : String := "lib"

/-- The first line of every generated file. -/
def banner : Outline := "// Generated by sketchport. Do not edit by hand."

/-- The line that imports a file. -/
def importLine (path : String) : Outline := .line [.raw "import ", .quoted path, .raw ";"]

/-- The file of a screen with all its classes. -/
def screenFile (classes : List ClassDecl) : List Outline :=
  [banner, importLine "package:flutter/material.dart",
    importLine "package:url_launcher/url_launcher.dart"] ++
    classes.flatMap fun c => [.blank, c.outline]

/-- An outline as the text of a file. -/
def fileText (outline : List Outline) : String := String.ofList (Outline.writeAll 0 outline)

/-- Everything that is generated for a screen. -/
structure ScreenUnit where
  screenId : String
  names : Names
  /-- The helpers, in their order. -/
  helpers : List (Helper × List ClassDecl)
  /-- The elements, in the order in which they are painted. -/
  fragments : List Fragment
  /-- The classes of the file, in their order. -/
  classes : List ClassDecl
deriving Inhabited

namespace ScreenUnit

/-- The path of the file of a screen. -/
def path (unit : ScreenUnit) : String := sourceRoot ++ "/screens/" ++ unit.names.fileName

/-- The file of a screen. -/
def file (unit : ScreenUnit) : SourceFile := ⟨unit.path, fileText (screenFile unit.classes)⟩

end ScreenUnit

/-- Everything that is generated for a screen of an app with the given routes. -/
def screenUnit (profile : Profile) (routes : Routes) (screen : Screen) : ScreenUnit :=
  let names := Names.ofName screen.name
  let around : Surroundings := ⟨routes, names.routeId⟩
  let elements := paintOrder screen.elements
  let state := ScreenState.ofElements around elements
  let fragments := elements.map (fragmentOf around)
  { screenId := screen.id
    names
    helpers := state.helpers.entries
    fragments
    classes := state.helpers.entries.flatMap (·.2) ++
      screenClasses names.className profile state fragments }

end Wireframe.App
