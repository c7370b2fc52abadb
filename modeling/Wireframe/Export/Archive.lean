/-
Archives.

An archive is written by a library.  Files are added to it one after the other: each is begun under its
name, and then its contents are written.  In the end there are the bytes of an archive with all of
them.

* `Archive.Entry` — a file of an archive;
* `Archiver` — what writes archives;
* `Archiver.Takes` — files that have been added one after the other;
* `Archiver.IsReadBy` — a reader finds in an archive what has been added to it.

Design notes:
* an archiver is known by the files that it has been given so far; how it compresses them, and what it
  refuses, is its own affair;
* its readers are those of zip archives: they tell the files in the order in which they were added,
  each with its name, its permissions and its contents.
-/
import Wireframe.Files.Script

namespace Wireframe.Export

open Files

namespace Archive

/-- A file of an archive. -/
structure Entry where
  name : String
  executable : Bool
  contents : Bytes
deriving Repr, DecidableEq, Inhabited

/-- The permissions of a file. -/
def Entry.mode (entry : Entry) : Nat := if entry.executable then 0o755 else 0o644

end Archive

/-- What writes archives, by the files that have been added so far; a refusal is in its own words. -/
structure Archiver where
  /-- Begins a file of a name. -/
  start : (added : List Archive.Entry) → (name : String) → Except String Unit
  /-- Writes the contents of a file that has been begun. -/
  write : (added : List Archive.Entry) → Archive.Entry → Except String Unit
  /-- The bytes of the archive. -/
  finish : (added : List Archive.Entry) → Except String Bytes

namespace Archiver

/-- Files that can be added one after the other. -/
inductive Takes (archiver : Archiver) : List Archive.Entry → Prop
  | nil : Takes archiver []
  | concat {added : List Archive.Entry} {entry : Archive.Entry} (h : Takes archiver added)
      (hstart : archiver.start added entry.name = .ok ())
      (hwrite : archiver.write added entry = .ok ()) : Takes archiver (added ++ [entry])

/-- A reader finds in an archive the files that have been added to it. -/
def IsReadBy (archiver : Archiver) (read? : Bytes → Option (List Archive.Entry)) : Prop :=
  ∀ entries bytes, archiver.Takes entries → archiver.finish entries = .ok bytes →
    read? bytes = some entries

end Archiver

end Wireframe.Export
