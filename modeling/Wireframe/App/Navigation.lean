/-
Routes and navigation bars.

Every screen of a project has a route, in the order of the screens; the first one is home.  What
leads to a screen names it, and the route is found by the route id of that name.  An entry of a bar
leads to the screen that it names; an entry that names no screen does nothing.

* `Routes.ofProject` — the routes of a project;
* `Routes.resolve?`, `Routes.path?` — the route that a name leads to, and its path;
* `sidebarCode` — a bar at the side, which slides in and out, and the button that moves it;
* `bottomNavCode` — a bar at the bottom;
* `startIndex` — the entry that is chosen when a screen is shown first.
-/
import Wireframe.App.Naming
import Wireframe.App.Place
import Wireframe.Design.Project

namespace Wireframe.App

open Dart Design

/-! ### Routes -/

/-- The route of a screen. -/
structure Route where
  screenName : String
  names : Names
deriving Repr, DecidableEq, Inhabited

/-- The routes of a project. -/
structure Routes where
  entries : List Route := []
deriving Repr, DecidableEq, Inhabited

namespace Routes

/-- The route of a screen. -/
def ofScreen (screen : Screen) : Route := ⟨screen.name, .ofName screen.name⟩

/-- The routes of a project. -/
def ofProject (project : Project) : Routes := ⟨project.screens.map ofScreen⟩

/-- The first route with the route id of a name. -/
def resolve? (routes : Routes) (target : String) : Option Route :=
  routes.entries.find? (·.names.routeId == routeId target)

/-- The path of the screen that a name leads to. -/
def path? (routes : Routes) (target : String) : Option String :=
  (routes.resolve? target).map (·.names.routePath)

/-- The route of the first screen. -/
def home? (routes : Routes) : Option Route := routes.entries.head?

end Routes

/-- The routes of an app and the one that is being generated. -/
structure Surroundings where
  routes : Routes
  /-- The route id of the screen. -/
  current : String
deriving Repr, Inhabited

/-- What replaces the screen by the one at a path. -/
def replacePieces (path : String) : List Piece :=
  [.raw "Navigator.pushReplacementNamed(context, ", .quoted path, .raw ")"]

/-! ### At the side -/

/-- What an entry at the side does. -/
def sidebarHandler (path : Option String) : Expr :=
  match path with
  | some path => .inline (.raw "() => " :: replacePieces path)
  | none => "null"

/-- The size of the title of a bar at the side. -/
def titleFontSize : Float := 0.025

/-- The size of the entries of a bar at the side. -/
def sidebarFontSize : Float := 0.02

/-- The title of a bar at the side. -/
def sidebarTitle (p : SidebarProps) : Expr :=
  .call "Padding"
    [.named "padding" "const EdgeInsets.fromLTRB(16, 48, 16, 16)",
      .named "child" (textWidget p.title
        [ellipsisArg,
          .named "style" (.call "TextStyle"
            [colorArg p.textColor, fontSizeArg titleFontSize, boldArg])])]

/-- An entry of a bar at the side. -/
def sidebarEntry (around : Surroundings) (p : SidebarProps) (item : NavItem) : Expr :=
  .call "ListTile"
    [.named "tileColor" (constColor p.itemColor),
      .named "title" (textWidget item.text
        [.named "style" (.call "TextStyle" [colorArg p.textColor, fontSizeArg sidebarFontSize])]),
      .named "onTap" (sidebarHandler (around.routes.path? item.targetScreen))]

/-- A bar at the side. -/
def sidebarPanel (around : Surroundings) (rect : Rect .canvas) (p : SidebarProps) : Expr :=
  .call "AnimatedPositioned"
    [.named "duration" "const Duration(milliseconds: 250)",
      .named "left" ("_sidebarVisible ? " ++ width rect.x ++ " : -(" ++ width rect.w ++ ")"),
      .named "top" (height rect.y), .named "width" (width rect.w), .named "height" (height rect.h),
      .named "child" (.call "Material"
        [colorArg p.bgColor, .named "elevation" "8",
          .named "child" (.call "ListView"
            [.named "padding" "EdgeInsets.zero",
              .named "children"
                (.list (sidebarTitle p :: p.items.map (sidebarEntry around p)))])])]

/-- The button that moves a bar at the side. -/
def sidebarToggle (rect : Rect .canvas) (p : SidebarProps) : Expr :=
  .call "Positioned"
    [.named "left" (width rect.x), .named "top" (height rect.y),
      .named "child" (.call "IconButton"
        [.named "icon" "Icon(_sidebarVisible ? Icons.close : Icons.menu)",
          .named "color"
            ("_sidebarVisible ? " ++ constColor p.textColor ++ " : Colors.black87"),
          .named "onPressed" "() => setState(() => _sidebarVisible = !_sidebarVisible)"])]

/-- The code of a bar at the side. -/
def sidebarCode (around : Surroundings) (rect : Rect .canvas) (p : SidebarProps) : List Expr :=
  [sidebarPanel around rect p, sidebarToggle rect p]

/-! ### At the bottom -/

/-- The icons that may be named. -/
def knownIcons : List String :=
  ["home", "search", "settings", "person", "menu", "favorite", "notifications", "shopping_cart",
    "info", "list", "chat", "calendar_today"]

/-- The icon of an entry. -/
def iconName (item : NavItem) : String := (item.icon.filter knownIcons.contains).getD "circle"

/-- What entry number `i` at the bottom does. -/
def bottomHandler (i : Nat) (path : Option String) : Expr :=
  match path with
  | some path =>
      .closure [[.raw ("setState(() => _navIndex = " ++ toString i ++ ")")], replacePieces path]
  | none => "null"

/-- The size of the entries of a bar at the bottom. -/
def bottomFontSize : Float := 0.014

/-- The colour of entry number `i`. -/
def tintCode (p : BottomNavProps) (i : Nat) : String :=
  "_navIndex == " ++ toString i ++ " ? " ++ constColor p.activeColor ++ " : " ++
    constColor p.inactiveColor

/-- Entry number `i` of a bar at the bottom. -/
def bottomEntry (around : Surroundings) (p : BottomNavProps) (i : Nat) (item : NavItem) : Expr :=
  let icon : Expr :=
    .call "Icon" [.code ("Icons." ++ iconName item), .named "color" (tintCode p i)]
  let label := textWidget item.text
    [.named "style" (.call "TextStyle"
      [fontSizeArg bottomFontSize, .named "color" (tintCode p i)])]
  let column : Expr := .call "Column"
    [.named "mainAxisSize" "MainAxisSize.min", .named "children" (.list [icon, label])]
  .call "Expanded"
    [.named "child" (.call "InkWell"
      [.named "onTap" (bottomHandler i (around.routes.path? item.targetScreen)),
        .named "child" (.call "Center"
          [.named "child" (.call "FittedBox"
            [.named "fit" "BoxFit.scaleDown", .named "child" column])])])]

/-- The code of a bar at the bottom. -/
def bottomNavCode (around : Surroundings) (p : BottomNavProps) : Expr :=
  .call "Material"
    [colorArg p.bgColor, .named "elevation" "8",
      .named "child" (.call "Row"
        [.named "children" (.list (p.items.mapIdx (bottomEntry around p)))])]

/-- The first entry that leads to the screen itself, or else the first one. -/
def startIndex (around : Surroundings) (p : BottomNavProps) : Nat :=
  (p.items.findIdx? fun item =>
    around.routes.path? item.targetScreen == some ("/" ++ around.current)).getD 0

end Wireframe.App
