/-
Workspaces.

An export works in a directory of its own, named for the project and by a number that nobody else
has, and writes its archive beside it.  What an export that never came to its end left behind is
swept away by a later one of the same project.

* `Workspace`, `Workspace.of` — directory and archive of an export;
* `isId` — the spellings of a number;
* `isWorkspaceName` — the names of workspaces of a project;
* `sweep` — removes what was left behind.

Design notes:
* the number of a workspace is given to it as the text that the world has for it; `isId` is asked of
  names only, which may be of any origin;
* `isId` takes what a parser of such numbers documents as its input: hyphenated, simple, braced and
  `urn:uuid:` spellings, digits of either case, and no version or variant asked for;
* an entry that is exactly as old as the limit is swept.
-/
import Wireframe.Export.Skeleton
import Wireframe.Json.Quoted

namespace Wireframe.Export

open Files

/-- Directory and archive of an export. -/
structure Workspace where
  directory : String
  archive : String
deriving Repr, DecidableEq, Inhabited

namespace Workspace

/-- The workspace for a project and a number. -/
def of (root slug id : String) : Workspace where
  directory := join root (slug ++ "-" ++ id)
  archive := join root (slug ++ "-" ++ id ++ ".zip")

/-- Reserves a workspace: its directory is made. -/
def create (workspace : Workspace) : Job Unit :=
  attempt (.request (.makeDirectory workspace.directory)) (.packaging workspace.directory)

/-- Removes directory and archive, as far as they are there. -/
def remove (workspace : Workspace) : Script Unit := do
  let _ ← Script.request (.removeDirectory workspace.directory)
  let _ ← Script.request (.removeFile workspace.archive)

end Workspace

/-! ### Names -/

/-- A hexadecimal digit of either case. -/
def isHex (c : Char) : Bool := (Json.hexValue? c).isSome

/-- Five groups of hexadecimal digits with hyphens between them. -/
def isHyphenated (cs : List Char) : Bool :=
  let groups := Text.fields '-' cs
  groups.map List.length == [8, 4, 4, 4, 12] && groups.all (·.all isHex)

/-- A number of 128 bits in one of its spellings: in groups, in groups within braces or after
`urn:uuid:` in either case, or as plain digits. -/
def isId (cs : List Char) : Bool :=
  isHyphenated cs || (cs.length == 32 && cs.all isHex) ||
    ((cs.take 9).map Char.toLower == "urn:uuid:".toList && isHyphenated (cs.drop 9)) ||
    (match cs with
      | '\x7b' :: rest => rest.getLast? == some '\x7d' && isHyphenated rest.dropLast
      | _ => false)

/-- The ending of archives. -/
def archiveEnding : List Char := ".zip".toList

/-- The name of a directory or an archive of a workspace of the project. -/
def isWorkspaceName (name slug : String) : Bool :=
  match (slug.toList ++ ['-']).isPrefixOf? name.toList with
  | some rest => isId ((archiveEnding.isSuffixOf? rest).getD rest)
  | none => false

/-! ### Sweeping -/

/-- The entry is at least `age` seconds old. -/
def isStale (now : Int) (age : Nat) (entry : DirEntry) : Bool :=
  entry.modified ≤ now && age ≤ now - entry.modified

/-- Removes an entry of a directory. -/
def removeEntry (root : String) (entry : DirEntry) : Script (Except Fault Unit) :=
  let path := join root entry.name
  if entry.isDirectory then .request (.removeDirectory path) else .request (.removeFile path)

/-- Removes entries of a directory; tells how many were removed. -/
def removeEntries (root : String) : List DirEntry → Script Nat
  | [] => return 0
  | entry :: rest => do
      let result ← removeEntry root entry
      let removed ← removeEntries root rest
      match result with
      | .ok () => return removed + 1
      | .error _ => return removed

/-- Removes the workspaces of a project that are at least `age` seconds old; tells how many entries
were removed. -/
def sweep (root slug : String) (age : Nat) : Script Nat := do
  match ← Script.request (.entries root) with
  | .error _ => return 0
  | .ok entries =>
      let now ← Script.request .time
      removeEntries root
        (entries.filter fun entry => isWorkspaceName entry.name slug && isStale now age entry)

end Wireframe.Export
