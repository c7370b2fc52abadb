/-
Scripts.

What the library does to files is said by scripts.  A script asks the system for one thing after the
other and goes on with the replies; it does nothing by itself.  The same script can be run against
the files of a machine and against a world that is a value.

* `Shape.seen` — what is seen of a directory by who does not enter all that is in it;
* `Request`, `Request.Reply` — what can be asked for, and what is replied;
* `Script` — scripts, which form a monad;
* `Script.run` — a script against a system that replies in a monad;
* `Script.sendTo` — a script that hands its bytes to a file.

Design notes:
* a request that may be refused replies with a `Fault`, and the script goes on; nothing is undone
  by itself.
-/
namespace Wireframe.Files

/-- The contents of a file. -/
abbrev Bytes := List UInt8

/-- A refusal of the system, in its own words. -/
structure Fault where
  reason : String
deriving Repr, DecidableEq, Inhabited

/-- What lies in a directory and below, without contents. -/
inductive Shape
  | file
  | directory (entries : List (String × Shape))
  /-- Anything else, such as a link. -/
  | other
deriving Repr, Inhabited

mutual

/-- What is seen of something below the names `above`: a directory that is not entered is seen, but
nothing in it. -/
def Shape.seenFrom (enters : List String → Bool) (above : List String) : Shape → Shape
  | .directory entries =>
      if enters above then .directory (Shape.seenEntries enters above entries) else .directory []
  | shape => shape

/-- What is seen of the entries of a directory. -/
def Shape.seenEntries (enters : List String → Bool) (above : List String) :
    List (String × Shape) → List (String × Shape)
  | [] => []
  | (name, shape) :: rest =>
      (name, shape.seenFrom enters (above ++ [name])) :: Shape.seenEntries enters above rest

end

/-- What is seen of a directory, which is entered itself. -/
def Shape.seen (enters : List String → Bool) : Shape → Shape
  | .directory entries => .directory (Shape.seenEntries enters [] entries)
  | shape => shape

/-- An entry of a directory. -/
structure DirEntry where
  name : String
  isDirectory : Bool
  /-- When it was changed last, in seconds. -/
  modified : Int
deriving Repr, DecidableEq, Inhabited

/-- What a script can ask for. -/
inductive Request
  /-- The contents of a file. -/
  | read (path : String)
  /-- A file without contents, whether or not there is one. -/
  | create (path : String)
  /-- Contents at the end of a file. -/
  | append (path : String) (contents : Bytes)
  /-- A copy of a file with its permissions. -/
  | copy (source target : String)
  /-- A directory, with all directories above it. -/
  | makeDirectory (path : String)
  /-- Whether there is a directory at the path. -/
  | isDirectory (path : String)
  /-- Whether the file may be run. -/
  | isExecutable (path : String)
  /-- The entries of a directory. -/
  | entries (path : String)
  /-- Everything in a directory and below.  Whether a directory on the way is entered depends on the
  names that lead to it. -/
  | survey (path : String) (enters : List String → Bool)
  | removeFile (path : String)
  /-- Removes a directory with everything in it. -/
  | removeDirectory (path : String)
  /-- The time, in seconds. -/
  | time
  /-- A number that nobody else has, as a text. -/
  | freshId
  /-- Hands bytes to whoever asked for an archive. -/
  | send (bytes : Bytes)
  /-- Shows a text. -/
  | print (text : String)
  /-- Shows a line about what is going on. -/
  | report (line : String)

/-- What is replied to a request. -/
abbrev Request.Reply : Request → Type
  | read _ => Except Fault Bytes
  | create _ => Except Fault Unit
  | append _ _ => Except Fault Unit
  | copy _ _ => Except Fault Unit
  | makeDirectory _ => Except Fault Unit
  | isDirectory _ => Bool
  | isExecutable _ => Bool
  | entries _ => Except Fault (List DirEntry)
  | survey _ _ => Except Fault Shape
  | removeFile _ => Except Fault Unit
  | removeDirectory _ => Except Fault Unit
  | time => Int
  | freshId => String
  | send _ => Except Fault Unit
  | print _ => Unit
  | report _ => Unit

/-- A script with a result. -/
inductive Script (α : Type) : Type
  | done (result : α)
  | ask (request : Request) (next : request.Reply → Script α)

namespace Script

variable {α β : Type}

/-- Asks for one thing. -/
def request (request : Request) : Script request.Reply := .ask request .done

/-- One script after the other. -/
def bind : Script α → (α → Script β) → Script β
  | .done result, f => f result
  | .ask request next, f => .ask request fun reply => (next reply).bind f

instance : Monad Script where
  pure := .done
  bind := bind

theorem bind_done (a : α) (f : α → Script β) : (Script.done a).bind f = f a := rfl

theorem bind_ask (r : Request) (next : r.Reply → Script α) (f : α → Script β) :
    (Script.ask r next).bind f = .ask r fun reply => (next reply).bind f := rfl

theorem bind_result (script : Script α) : script.bind .done = script := by
  induction script with
  | done a => rfl
  | ask r next ih => simp only [bind_ask, ih]

theorem bind_assoc {γ : Type} (script : Script α) (f : α → Script β) (g : β → Script γ) :
    (script.bind f).bind g = script.bind fun a => (f a).bind g := by
  induction script with
  | done a => rfl
  | ask r next ih => simp only [bind_ask, ih]

instance : LawfulMonad Script := .mk' Script bind_result bind_done bind_assoc

/-- Runs a script against a system. -/
def run {m : Type → Type} [Monad m] (reply : (r : Request) → m r.Reply) : Script α → m α
  | .done result => pure result
  | .ask request next => do
      let answer ← reply request
      (next answer).run reply

/-- The script with what it hands out put at the end of a file. -/
def sendTo (path : String) : Script α → Script α
  | .done result => .done result
  | .ask (.send bytes) next => .ask (.append path bytes) fun reply => (next reply).sendTo path
  | .ask request next => .ask request fun reply => (next reply).sendTo path

end Script

/-- A file with the given contents. -/
def writeFile (path : String) (contents : Bytes) : Script (Except Fault Unit) := do
  match ← Script.request (.create path) with
  | .error fault => return .error fault
  | .ok () => Script.request (.append path contents)

/-- The contents of a text file. -/
def textBytes (text : String) : Bytes := text.toUTF8.data.toList

/-- What is said of a file whose contents are no text. -/
def notText : String := "stream did not contain valid UTF-8"

/-- The text of a file, if its contents are one. -/
def bytesText? (bytes : Bytes) : Option String := String.fromUTF8? bytes.toByteArray

end Wireframe.Files
