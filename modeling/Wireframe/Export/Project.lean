/-
Exporting a project.

The skeleton and the code of the app are brought together in a workspace, put into an archive, and
the archive is handed out.  The workspace is removed, whatever happened in it.  What writes the archive is
given.

* `Options` — how to export;
* `writeSources` — writes code below a directory;
* `writeArchive` — writes an archive of a directory;
* `exportProject` — exports a project;
* `Summary` — what an export amounts to.
-/
import Wireframe.App.Sources
import Wireframe.Export.Archive
import Wireframe.Export.ArchiveName
import Wireframe.Export.Skeleton
import Wireframe.Export.Workspace

namespace Wireframe.Export

open Files

/-- The age in seconds from which on a workspace is taken to be left behind. -/
def staleAge : Nat := 3600

/-- How to export. -/
structure Options where
  skeleton : String
  /-- The directory that holds the workspaces. -/
  workRoot : String
  denyList : List String := defaultDenyList
  /-- The name of the archive, unless it is that of the project. -/
  archiveName : Option String := none
  staleAfter : Nat := staleAge
deriving Repr, DecidableEq, Inhabited

/-- What an export amounts to. -/
structure Summary where
  archiveName : String
  skeletonFiles : Nat
  generatedFiles : Nat
  /-- The number of files of the archive. -/
  entries : Nat
  /-- The size of the archive. -/
  bytes : Nat
deriving Repr, DecidableEq, Inhabited

/-! ### Code -/

/-- Writes one file below a directory. -/
def writeSource (directory : String) (file : App.SourceFile) : Job Unit := do
  if !isPlainRelative file.path then
    throw (.packaging file.path "generated path escapes the output dir")
  let path := join directory file.path
  attempt (.request (.makeDirectory (parent path))) (.packaging (parent path))
  attempt (writeFile path (textBytes file.contents)) (.packaging path)

/-- Writes files below a directory; tells how many were written. -/
def writeSources (directory : String) : List App.SourceFile → Job Nat
  | [] => return 0
  | file :: rest => do
      writeSource directory file
      return (← writeSources directory rest) + 1

/-! ### Archives -/

/-- A name that leads out of the directory into which an archive is unpacked. -/
def escapes (name : String) : Bool :=
  (pieces name).contains ".." || isAbsolute name || name.toList.head? == some '\\'

/-- The names of all files in a directory and below, in their order. -/
def fileNames (shape : Shape) : List String :=
  let names := (plan [] shape).filterMap fun
    | .file names => some (relative names)
    | .directory _ => none
  names.mergeSort fun a b => a ≤ b

section Archives

variable (archiver : Archiver)

/-- Adds a file to the files of an archive, if the archiver takes it. -/
def addEntry (added : List Archive.Entry) (entry : Archive.Entry) : Job (List Archive.Entry) := do
  Job.settle ((archiver.start added entry.name).mapError .archive)
  Job.settle ((archiver.write added entry).mapError (.packaging entry.name))
  return added ++ [entry]

/-- Adds a file in a directory to the files of an archive. -/
def archiveEntry (directory : String) (added : List Archive.Entry) (name : String) :
    Job (List Archive.Entry) := do
  let path := join directory name
  let contents ← attempt (.request (.read path)) (.packaging path)
  let executable ← obtain (.request (.isExecutable path))
  if escapes name then throw (.packaging name "invalid archive entry name")
  addEntry archiver added { name, executable, contents }

/-- Adds files in a directory to the files of an archive. -/
def archiveEntries (directory : String) (added : List Archive.Entry) :
    List String → Job (List Archive.Entry)
  | [] => return added
  | name :: rest => do archiveEntries directory (← archiveEntry archiver directory added name) rest

/-- Writes an archive of a directory; tells how many files it holds. -/
def writeArchive (directory archive : String) : Job Nat := do
  let shape ← attempt (.request (.survey directory (enters []))) fun reason =>
    .packaging directory ("failed while traversing work dir: " ++ reason)
  let names := fileNames shape
  attempt (.request (.create archive)) (.packaging archive)
  let entries ← archiveEntries archiver directory [] names
  let bytes ← Job.settle ((archiver.finish entries).mapError .archive)
  attempt (.request (.append archive bytes)) .archive
  return names.length

end Archives

/-! ### Exports -/

/-- The name of a project in the names of its workspaces. -/
def slug (project : Design.Project) : String := App.routeId (project.name.getD "project")

/-- The name under which the archive of a project is offered. -/
def offeredName (project : Design.Project) (options : Options) : String :=
  options.archiveName.getD (archiveName (project.name.getD ""))

section Exports

variable (archiver : Archiver)

/-- Brings skeleton and code together in a workspace that has been reserved, and hands out the
archive. -/
def pack (project : Design.Project) (sources : App.Sources) (options : Options)
    (workspace : Workspace) : Job Summary := do
  let skeletonFiles ← copySkeleton options.skeleton workspace.directory options.denyList
  let generatedFiles ← writeSources workspace.directory sources.files
  let entries ← writeArchive archiver workspace.directory workspace.archive
  let bytes ← attempt (.request (.read workspace.archive)) (.packaging workspace.archive)
  attempt (.request (.send bytes)) (.packaging workspace.archive)
  return {
    archiveName := offeredName project options
    skeletonFiles, generatedFiles, entries
    bytes := bytes.length }

/-- Does everything that is done in a workspace. -/
def fill (project : Design.Project) (sources : App.Sources) (options : Options)
    (workspace : Workspace) : Job Summary := do
  workspace.create
  pack archiver project sources options workspace

/-- Exports the code of a project in a workspace of its own. -/
def exportSources (project : Design.Project) (sources : App.Sources) (options : Options) :
    Script (Except Failure Summary) := do
  let _ ← sweep options.workRoot (slug project) options.staleAfter
  let id ← Script.request .freshId
  let workspace := Workspace.of options.workRoot (slug project) id
  let result ← (fill archiver project sources options workspace).run
  workspace.remove
  return result

/-- Exports a project. -/
def exportProject (project : Design.Project) (options : Options) :
    Script (Except Failure Summary) := do
  if !(← Script.request (.isDirectory options.skeleton)) then
    return .error (.missingSkeleton options.skeleton)
  match App.generate project with
  | .error failure => return .error failure
  | .ok sources => exportSources archiver project sources options

end Exports

end Wireframe.Export
