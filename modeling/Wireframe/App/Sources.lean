/-
The code of an app.

An app consists of a file for each screen and of the file that it starts with, which lists the
routes.  Code is generated for every design whose screens can be told apart; whatever else is wrong
with a design is worked around.

* `generate` — the code of an app;
* `blocking` — the faults that leave nothing to generate;
* `Entry`, `Entry.file` — the file that an app starts with;
* `Sources.files` — all files.
-/
import Wireframe.App.ScreenSource
import Wireframe.Failure
import Wireframe.Review.Check

namespace Wireframe.App

open Dart Design Review

/-! ### The file that an app starts with -/

/-- What the file that an app starts with says. -/
structure Entry where
  title : String
  /-- The files of the screens. -/
  imports : List String
  /-- The path of each screen and its class. -/
  routes : List (String × String)
  /-- The path of the screen that is shown first. -/
  initial : String
deriving Repr, DecidableEq, Inhabited

namespace Entry

/-- The title of an app that has no name. -/
def defaultTitle : String := "Generated App"

/-- The title of an app. -/
def titleOf (project : Project) : String :=
  (project.name.filter (!Text.isBlankText ·)).getD defaultTitle

/-- What the file says for a project and its routes. -/
def ofRoutes (project : Project) (routes : Routes) : Entry where
  title := titleOf project
  imports := routes.entries.map (·.names.fileName)
  routes := routes.entries.map fun route => (route.names.routePath, route.names.className)
  initial := (routes.home?.map (·.names.routePath)).getD "/"

/-- The line for a route. -/
def routeLine (route : String × String) : Outline :=
  .line [.quoted route.1, .raw (": (context) => const " ++ route.2 ++ "(),")]

/-- The class of the app. -/
def appClass (entry : Entry) : ClassDecl :=
  classOf "GeneratedApp" "StatelessWidget"
    [[constructorLine "GeneratedApp" ["super.key"]],
      overriding buildHead
        [parens "return MaterialApp"
          [.line [.raw "title: ", .quoted entry.title, .raw ","],
            "debugShowCheckedModeBanner: false,", "theme: ThemeData(useMaterial3: true),",
            .line [.raw "initialRoute: ", .quoted entry.initial, .raw ","],
            "routes: appRoutes,"]
          ";"]]

/-- The lines that import other files. -/
def importLines (entry : Entry) : List Outline :=
  [importLine "package:flutter/material.dart", .blank] ++
    entry.imports.map fun file => importLine ("screens/" ++ file)

/-- The lines that list the routes. -/
def routeLines (entry : Entry) : List Outline :=
  ["/// One route per screen.",
    braces "final Map<String, WidgetBuilder> appRoutes = <String, WidgetBuilder>"
      (entry.routes.map routeLine) ";"]

/-- The lines of the file. -/
def outline (entry : Entry) : List Outline :=
  Text.joinWith [.blank]
    [banner :: entry.importLines, ["void main() => runApp(const GeneratedApp());"],
      entry.routeLines, [entry.appClass.outline]]

/-- The path of the file. -/
def path : String := sourceRoot ++ "/main.dart"

/-- The file that an app starts with. -/
def file (entry : Entry) : SourceFile := ⟨path, fileText entry.outline⟩

end Entry

/-! ### Apps -/

/-- The code of an app. -/
structure Sources where
  entry : Entry
  units : List ScreenUnit
  routes : Routes
deriving Inhabited

/-- All files, the one that the app starts with first. -/
def Sources.files (sources : Sources) : List SourceFile :=
  sources.entry.file :: sources.units.map ScreenUnit.file

/-- The faults that leave nothing to generate. -/
def blocking : List Code :=
  [.noScreens, .emptyScreenName, .duplicateScreenName, .routeCollision]

/-- The code of a project whose screens can be told apart. -/
def sourcesOf (project : Project) : Sources :=
  let routes := Routes.ofProject project
  { entry := .ofRoutes project routes
    units := project.screens.map (screenUnit project.profile routes)
    routes }

/-- The code of a project. -/
def generate (project : Project) : Except Failure Sources :=
  let report := check false project
  if report.has .noScreens then .error .noScreens
  else
    -- warnings are left aside as well as errors that the generator can work around
    let fatal := report.only blocking
    if fatal.isOk then .ok (sourcesOf project) else .error (.rejected fatal)

end Wireframe.App
