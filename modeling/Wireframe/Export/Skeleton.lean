/-
The skeleton of an app.

An app is exported together with a skeleton: a directory of files that are copied as they are.  Some
of them are left out; to leave out a directory is to leave out everything in it.  Links are not
followed.

* `isDenied` — a path that is left out;
* `Item`, `plan` — what is copied, in the order in which it is copied;
* `enters` — the directories that are entered;
* `copySkeleton` — copies a skeleton.

Design notes:
* a directory that is left out is not entered, so that one that cannot be read does no harm.
-/
import Wireframe.Files.Path
import Wireframe.Job

namespace Wireframe.Export

open Files

/-- What is left out unless something else is said. -/
def defaultDenyList : List String :=
  [".dart_tool", ".gradle", ".idea", "build", "android/.gradle"]

/-- The path leads to something that is left out. -/
def isDenied (path : String) (deny : List String) : Bool :=
  deny.any fun denied => liesUnder path (withoutEndSlashes denied)

/-- A path of names below a directory. -/
def relative (names : List String) : String := String.intercalate "/" names

/-- Something to copy, by the names that lead to it. -/
inductive Item
  | directory (names : List String)
  | file (names : List String)
deriving Repr, DecidableEq, Inhabited

mutual

/-- What is copied of something below the names `above`. -/
def planOf (deny : List String) (above : List String) : Shape → List Item
  | .file => [.file above]
  | .directory entries => .directory above :: planEntries deny above entries
  | .other => []

/-- What is copied of the entries of a directory. -/
def planEntries (deny : List String) (above : List String) : List (String × Shape) → List Item
  | [] => []
  | (name, shape) :: rest =>
      (if isDenied (relative (above ++ [name])) deny then []
        else planOf deny (above ++ [name]) shape) ++ planEntries deny above rest

end

/-- What is copied of a directory. -/
def plan (deny : List String) : Shape → List Item
  | .directory entries => planEntries deny [] entries
  | _ => []

/-- Copies one thing; tells how many files were copied. -/
def copyItem (source target : String) : Item → Job Nat
  | .directory names => do
      let path := join target (relative names)
      attempt (.request (.makeDirectory path)) (.packaging path)
      return 0
  | .file names => do
      let path := join source (relative names)
      attempt (.request (.copy path (join target (relative names)))) (.packaging path)
      return 1

/-- Copies one thing after the other. -/
def copyItems (source target : String) : List Item → Job Nat
  | [] => return 0
  | item :: rest => do
      let copied ← copyItem source target item
      return copied + (← copyItems source target rest)

/-- A directory of a skeleton is entered unless it is left out. -/
def enters (deny : List String) (names : List String) : Bool := !isDenied (relative names) deny

/-- Copies a skeleton; tells how many files were copied. -/
def copySkeleton (source target : String) (deny : List String) : Job Nat := do
  let shape ← attempt (.request (.survey source (enters deny))) fun reason =>
    .packaging source ("failed while traversing skeleton: " ++ reason)
  copyItems source target (plan deny shape)

end Wireframe.Export
