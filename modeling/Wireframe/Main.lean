/-
The program on a machine.

This is all that reads and writes real files: each request of a script is handed to the system, and
what it replies is handed back.

Design notes:
* the system does not tell which files may be run, so none is taken to be;
* the time is that of a file that has just been made.
-/
import Wireframe.Command.Run
import Wireframe.PlainLibraries

namespace Wireframe.Machine

open Files

/-- A path of the system. -/
def located (path : String) := (IO.FS.DirEntry.mk path "").root

/-- What the system replies to an action that it may refuse. -/
def attempted {α : Type} (action : IO α) : IO (Except Fault α) := do
  match ← action.toBaseIO with
  | .ok a => return .ok a
  | .error refusal => return .error ⟨toString refusal⟩

/-- What lies at a path and below; the names `above` lead to it, and a directory is listed only if it is
entered. -/
partial def survey (path : String) (enters : List String → Bool) (above : List String) : IO Shape := do
  let mut entries := #[]
  for entry in ← (located path).readDir do
    let inner := join path entry.fileName
    let names := above ++ [entry.fileName]
    match (← (located inner).symlinkMetadata).type with
    | .dir =>
        let shape ← if enters names then survey inner enters names else pure (.directory [])
        entries := entries.push (entry.fileName, shape)
    | .file => entries := entries.push (entry.fileName, .file)
    | _ => entries := entries.push (entry.fileName, .other)
  return .directory (entries.toList.mergeSort fun a b => a.1 ≤ b.1)

/-- The entries of a directory. -/
def entriesOf (path : String) : IO (List DirEntry) := do
  let mut found := #[]
  for entry in ← (located path).readDir do
    let facts ← entry.path.symlinkMetadata
    found := found.push ⟨entry.fileName, facts.type == .dir, facts.modified.sec⟩
  return found.toList

/-- Adds bytes to a file. -/
def appendTo (path : String) (contents : Bytes) : IO Unit := do
  let handle ← IO.FS.Handle.mk path .append
  handle.write contents.toByteArray

/-- The time in seconds. -/
def now : IO Int :=
  IO.FS.withTempFile fun _ path => do return (← path.metadata).modified.sec

/-- A number of 128 bits by chance, in groups. -/
def randomId : IO String := do
  let bytes := (← IO.getRandomBytes 16).toList
  let digits := bytes.flatMap fun b =>
    let text := Nat.toDigits 16 b.toNat
    List.replicate (2 - text.length) '0' ++ text
  let groups := [(0, 8), (8, 4), (12, 4), (16, 4), (20, 12)].map fun (start, count) =>
    String.ofList ((digits.drop start).take count)
  return String.intercalate "-" groups

/-- What the system replies to a request. -/
def reply : (request : Request) → IO request.Reply
  | .read path => attempted do return (← IO.FS.readBinFile path).toList
  | .create path => attempted (IO.FS.writeBinFile path ByteArray.empty)
  | .append path contents => attempted (appendTo path contents)
  | .copy source target => attempted do IO.FS.writeBinFile target (← IO.FS.readBinFile source)
  | .makeDirectory path => attempted (if path.isEmpty then pure () else IO.FS.createDirAll path)
  | .isDirectory path => (located path).isDir
  | .isExecutable _ => return false
  | .entries path => attempted (entriesOf path)
  | .survey path enters => attempted (survey path enters [])
  | .removeFile path => attempted (IO.FS.removeFile path)
  | .removeDirectory path => attempted (IO.FS.removeDirAll path)
  | .time => now
  | .freshId => randomId
  | .send bytes => attempted do (← IO.getStdout).write bytes.toByteArray
  | .print text => IO.print text
  | .report line => IO.eprintln line

/-- The variables of the environment that the program asks for. -/
def environment : IO (List (String × String)) := do
  let names := ["SKETCHPORT_CONFIG", "SKETCHPORT_SKELETON", "SKETCHPORT_WORK_DIR"]
  let mut found := #[]
  for name in names do
    if let some value ← IO.getEnv name then found := found.push (name, value)
  return found.toList

/-- The directory for temporary files. -/
def temporary : IO String := do return (← IO.getEnv "TMPDIR").getD "/tmp"

end Wireframe.Machine

/-- Runs the program with the words of its command line. -/
def main (words : List String) : IO UInt32 := do
  let script := Wireframe.Command.run Wireframe.Libraries.plain (← Wireframe.Machine.environment)
    (← Wireframe.Machine.temporary) words
  return (← script.run Wireframe.Machine.reply).toUInt32
