/-
Trees of files.

* `Tree` — a file, a directory or a link;
* `Tree.at?` — what is at the end of a list of names;
* `Tree.change?` — the tree with something put there, or taken away;
* `Tree.shape` — a tree without contents.
-/
import Wireframe.Files.Script

namespace Wireframe.Files

/-- A file, a directory with its entries in the order of their names, or a link. -/
inductive Tree
  | file (contents : Bytes) (mode : Nat) (modified : Int)
  | directory (entries : List (String × Tree)) (modified : Int)
  | link (target : String) (modified : Int)
deriving Repr, Inhabited

namespace Tree

/-- The entries with `tree` under a name, in the order of their names. -/
def putEntry (name : String) (tree : Tree) : List (String × Tree) → List (String × Tree)
  | [] => [(name, tree)]
  | entry :: rest =>
      if name < entry.1 then (name, tree) :: entry :: rest
      else if name = entry.1 then (name, tree) :: rest
      else entry :: putEntry name tree rest

/-- The entries without the one of a name. -/
def dropEntry (name : String) (entries : List (String × Tree)) : List (String × Tree) :=
  entries.filter (·.1 != name)

/-- What is at the end of a list of names. -/
def at? : (names : List String) → Tree → Option Tree
  | [], tree => some tree
  | name :: names, .directory entries _ =>
      match entries.lookup name with
      | some tree => tree.at? names
      | none => none
  | _ :: _, _ => none

/-- The entries with `tree` put under a name, or with nothing there. -/
def setEntry (name : String) (tree : Option Tree) (entries : List (String × Tree)) :
    List (String × Tree) :=
  match tree with
  | some tree => putEntry name tree entries
  | none => dropEntry name entries

/-- The tree with `tree` at the end of a list of names, or with nothing there; the directory that
holds it changes at the given time.  There is no such tree if a name before the last one is not that
of a directory. -/
def change? (time : Int) (tree : Option Tree) : (names : List String) → Tree → Option Tree
  | [], _ => tree
  | [name], .directory entries _ => some (.directory (setEntry name tree entries) time)
  | name :: next :: names, .directory entries modified =>
      match entries.lookup name with
      | some inner =>
          match inner.change? time tree (next :: names) with
          | some inner => some (.directory (putEntry name inner entries) modified)
          | none => none
      | none => none
  | _ :: _, _ => none

/-- The tree is a directory. -/
def isDirectory : Tree → Bool
  | .directory _ _ => true
  | _ => false

/-- When the tree was changed last. -/
def modified : Tree → Int
  | .file _ _ modified => modified
  | .directory _ modified => modified
  | .link _ modified => modified

mutual

/-- The tree without contents. -/
def shape : Tree → Shape
  | .file _ _ _ => .file
  | .directory entries _ => .directory (shapes entries)
  | .link _ _ => .other

/-- The entries without contents. -/
def shapes : List (String × Tree) → List (String × Shape)
  | [] => []
  | (name, tree) :: rest => (name, shape tree) :: shapes rest

end

end Tree

end Wireframe.Files
