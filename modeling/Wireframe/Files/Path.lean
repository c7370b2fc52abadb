/-
Paths of files.

A path is kept as it was given, since messages show it; what it means is told by its components.
Empty components and points inside a path mean nothing and are left out.

* `Component`, `components` — the components of a path;
* `join` — a path below another;
* `parent` — the path of the directory that holds a file;
* `isPlainRelative` — a path that cannot lead out of the directory that it is taken from;
* `liesUnder` — a path leads to another or into it.
-/
import Wireframe.Text.Blank
import Wireframe.Text.Words

namespace Wireframe.Files

/-- A component of a path. -/
inductive Component
  /-- The directory that holds everything. -/
  | root
  /-- The directory that a path is taken from. -/
  | here
  /-- The directory above. -/
  | up
  | name (name : String)
deriving DecidableEq, Repr, Inhabited

/-- What stands between the slashes of a path. -/
def pieces (path : String) : List String :=
  (Text.fields '/' path.toList).map String.ofList

/-- The path starts at the root. -/
def isAbsolute (path : String) : Bool := path.toList.head? == some '/'

/-- The component for a piece that is not the first one, if it means something. -/
def componentOf? (piece : String) : Option Component :=
  if piece = "" ∨ piece = "." then none
  else if piece = ".." then some .up
  else some (.name piece)

/-- The components of a path. -/
def components (path : String) : List Component :=
  match pieces path with
  | [] => []
  | first :: rest =>
      let front : List Component :=
        if isAbsolute path then [.root]
        else if first = "." then [.here]
        else (componentOf? first).toList
      front ++ rest.filterMap componentOf?

/-- A path below another; an absolute one takes its place. -/
def join (base path : String) : String :=
  if isAbsolute path then path
  else if base = "" then path
  else if base.toList.getLast? = some '/' then base ++ path
  else base ++ "/" ++ path

/-- The reversed path without slashes and points at its end that mean nothing. -/
def trimEnd : List Char → List Char
  | ['/'] => ['/']
  | '/' :: rest => trimEnd rest
  | '.' :: '/' :: rest => trimEnd ('/' :: rest)
  | cs => cs

/-- The path of the directory that holds a file. -/
def parent (path : String) : String :=
  String.ofList (trimEnd ((trimEnd path.toList.reverse).dropWhile (· ≠ '/'))).reverse

/-- The component is a name. -/
def Component.isName : Component → Bool
  | .name _ => true
  | _ => false

/-- A path of names only. -/
def isPlainRelative (path : String) : Bool := (components path).all Component.isName

/-- The first path leads to what the second one leads to or to something in it. -/
def liesUnder (path top : String) : Bool := (components top).isPrefixOf (components path)

/-- A path without slashes at its end. -/
def withoutEndSlashes (path : String) : String :=
  String.ofList (Text.dropEndWhile (· == '/') path.toList)

example : components "./a//b/../c/." = [.here, .name "a", .name "b", .up, .name "c"] := by
  decide +kernel
example : parent "out/a/./b" = "out/a" := by decide +kernel
example : parent "a" = "" := by decide +kernel

end Wireframe.Files
