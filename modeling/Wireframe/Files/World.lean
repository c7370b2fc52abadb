/-
Worlds.

A world is a machine as a value: its files, the time, and what has been shown and handed out.
Scripts can be run in it, and what they do to it can be looked at.

* `World` — worlds;
* `World.locate?` — where a path leads, links being followed;
* `World.reply` — what a world replies to a request, and the world after that;
* `World.run` — the result of a script and the world after it.

Design notes:
* a refusal says no more than that the system refused; the time stands still, and every number that
  is given out is new.
-/
import Wireframe.Files.Path
import Wireframe.Files.Tree

namespace Wireframe.Files

/-- A machine as a value. -/
structure World where
  /-- All files. -/
  tree : Tree := .directory [] 0
  /-- The directory that paths are taken from. -/
  here : List String := []
  clock : Int := 0
  /-- How many numbers have been given out. -/
  issued : Nat := 0
  /-- How many bytes are still taken when an archive is handed out, if there is a bound. -/
  patience : Option Nat := none
  /-- What has been handed out. -/
  received : Bytes := []
  /-- What has been shown. -/
  shown : String := ""
  /-- The lines about what was going on. -/
  reported : List String := []
deriving Inhabited

namespace World

/-- The refusal of the system. -/
def refused : Fault := ⟨"os error"⟩

/-- The refusal of a path that holds the character zero. -/
def refusedZero : Fault := ⟨"file name contained an unexpected NUL byte"⟩

/-- The refusal of whoever takes the archive. -/
def wentAway : Fault := ⟨"client went away"⟩

/-! ### Paths -/

/-- How many links are followed on the way. -/
def linkLimit : Nat := 40

/-- The longest name, in bytes. -/
def nameLimit : Nat := 255

/-- The longest path, in bytes. -/
def pathLimit : Nat := 4095

/-- A name that a file can have. -/
def isShort (name : String) : Bool := name.utf8ByteSize ≤ nameLimit

/-- A path that can be looked at. -/
def lookable (path : String) : Except Fault Unit :=
  if path.toList.contains '\x00' then .error refusedZero
  else if path = "" ∨ pathLimit < path.utf8ByteSize then .error refused
  else .ok ()

/-- A path that can lead to something. -/
def allowed (path : String) : Except Fault Unit := do
  lookable path
  if (pieces path).all isShort then return () else throw refused

/-- Follows names from a place, up to a link that is followed: where it goes on is up to `onLink`. -/
def walkAlong (tree : Tree) (follow : Bool) (onLink : List String → List String → Option (List String))
    (place : List String) : (names : List String) → Option (List String)
  | [] => some place
  | name :: rest =>
      if name = "" ∨ name = "." then
        if (tree.at? place).any Tree.isDirectory then walkAlong tree follow onLink place rest
        else none
      else if name = ".." then
        if (tree.at? place).any Tree.isDirectory then
          walkAlong tree follow onLink place.dropLast rest
        else none
      else
        let next := place ++ [name]
        match tree.at? next with
        | some (.link target _) =>
            if rest.isEmpty && !follow then some next
            else onLink (if isAbsolute target then [] else place) (pieces target ++ rest)
        | some (.directory _ _) => walkAlong tree follow onLink next rest
        | some (.file _ _ _) => if rest.isEmpty then some next else none
        | none =>
            if rest.isEmpty && (tree.at? place).any Tree.isDirectory then some next else none

/-- Follows names from a place; the last one need not be there.  With `follow`, a link at the end is
followed too.  Links may lead around in circles, so only so many of them are followed. -/
def walk (tree : Tree) (follow : Bool) : (links : Nat) → (place names : List String) →
    Option (List String)
  | 0, place, names => walkAlong tree follow (fun _ _ => none) place names
  | links + 1, place, names => walkAlong tree follow (walk tree follow links) place names

/-- Where a path leads; the last name need not be there. -/
def locate? (world : World) (follow : Bool) (path : String) : Option (List String) :=
  let start := if isAbsolute path then [] else world.here
  walk world.tree follow linkLimit start (pieces path)

/-- What a path leads to, and where that is. -/
def find (world : World) (follow : Bool) (path : String) :
    Except Fault (List String × Option Tree) := do
  allowed path
  match world.locate? follow path with
  | some place => return (place, world.tree.at? place)
  | none => throw refused

/-- The world with something put at a place, or taken away. -/
def change (world : World) (place : List String) (tree : Option Tree) : Except Fault World :=
  match world.tree.change? world.clock tree place with
  | some tree => .ok { world with tree }
  | none => .error refused

/-! ### Requests -/

/-- The contents of a file. -/
def readFile (world : World) (path : String) : Except Fault Bytes := do
  match ← world.find true path with
  | (_, some (.file contents _ _)) => return contents
  | _ => throw refused

/-- The permissions of a file that has been given none. -/
def plainMode : Nat := 0o644

/-- The world with an empty file at a path. -/
def createFile (world : World) (path : String) : Except Fault World := do
  match ← world.find true path with
  | (place, none) => world.change place (some (.file [] plainMode world.clock))
  | (place, some (.file _ mode _)) => world.change place (some (.file [] mode world.clock))
  | _ => throw refused

/-- The world with more in a file. -/
def appendFile (world : World) (path : String) (more : Bytes) : Except Fault World := do
  match ← world.find true path with
  | (place, some (.file contents mode _)) =>
      world.change place (some (.file (contents ++ more) mode world.clock))
  | _ => throw refused

/-- The world with a copy of a file. -/
def copyFile (world : World) (source target : String) : Except Fault World := do
  match ← world.find true source, ← world.find true target with
  | (_, some (.file contents mode _)), (place, none) =>
      world.change place (some (.file contents mode world.clock))
  | (_, some (.file contents mode _)), (place, some (.file _ _ _)) =>
      world.change place (some (.file contents mode world.clock))
  | _, _ => throw refused

/-- Some names lead from a place to a directory. -/
def leadsToDirectory (world : World) (start names : List String) : Bool :=
  match walk world.tree true linkLimit start names with
  | some place => (world.tree.at? place).any Tree.isDirectory
  | none => false

/-- The world with a directory at the end of some names, if the last one is not there. -/
def makeAt (world : World) (start names : List String) : Except Fault World :=
  match walk world.tree false linkLimit start names with
  | none => .error refused
  | some place =>
      match world.tree.at? place with
      | none => world.change place (some (.directory [] world.clock))
      -- a link counts as a directory if it leads to one; nothing is made where it leads
      | some _ => if world.leadsToDirectory start names then .ok world else .error refused

/-- Makes directories along some names behind those that are made.  They stay when a name after them
cannot be used. -/
def makeAlong (world : World) (start made : List String) : (names : List String) →
    Except Fault Unit × World
  | [] => (.ok (), world)
  | name :: rest =>
      if !isShort name then (.error refused, world)
      else
        match world.makeAt start (made ++ [name]) with
        | .ok world => makeAlong world start (made ++ [name]) rest
        | .error fault => (.error fault, world)

/-- Makes a directory at a path and all directories above it. -/
def makeDirectory (world : World) (path : String) : Except Fault Unit × World :=
  if path = "" then (.ok (), world)
  else
    match lookable path with
    | .ok () => makeAlong world (if isAbsolute path then [] else world.here) [] (pieces path)
    | .error fault => (.error fault, world)

/-- What a path leads to is a directory. -/
def isDirectory (world : World) (path : String) : Bool :=
  match world.find true path with
  | .ok (_, some tree) => tree.isDirectory
  | _ => false

/-- What a path leads to may be run. -/
def isExecutable (world : World) (path : String) : Bool :=
  match world.find true path with
  | .ok (_, some (.file _ mode _)) => mode &&& 0o111 != 0
  | _ => false

/-- The entries of a directory. -/
def entries (world : World) (path : String) : Except Fault (List DirEntry) := do
  match ← world.find true path with
  | (_, some (.directory entries _)) =>
      return entries.map fun (name, tree) => ⟨name, tree.isDirectory, tree.modified⟩
  | _ => throw refused

/-- Everything in a directory and below, as far as it is entered. -/
def survey (world : World) (path : String) (enters : List String → Bool) : Except Fault Shape := do
  match ← world.find true path with
  | (_, some tree) => return tree.shape.seen enters
  | _ => throw refused

/-- The world without what is at a path, if that is or is not a directory as it should be. -/
def remove (world : World) (directory : Bool) (path : String) : Except Fault World := do
  match ← world.find false path with
  | (place, some tree) =>
      if tree.isDirectory = directory ∧ place ≠ [] then world.change place none
      else throw refused
  | _ => throw refused

/-- A number as a text of hyphenated groups of hexadecimal digits. -/
def idText (n : Nat) : String :=
  let digits := (Nat.toDigits 16 n).reverse.take 12
  "00000000-0000-4000-8000-" ++
    String.ofList (List.replicate (12 - digits.length) '0' ++ digits.reverse)

/-- Hands out bytes, as many as are taken. -/
def sendBytes (world : World) (bytes : Bytes) : Except Fault Unit × World :=
  match world.patience with
  | none => (.ok (), { world with received := world.received ++ bytes })
  | some left =>
      let world := { world with
        received := world.received ++ bytes.take left, patience := some (left - bytes.length) }
      (if bytes.length ≤ left then .ok () else .error wentAway, world)

/-- The reply for a change that may be refused, and the world after it. -/
def settle (world : World) : Except Fault World → Except Fault Unit × World
  | .ok changed => (.ok (), changed)
  | .error fault => (.error fault, world)

/-- What a world replies to a request, and the world after that. -/
def reply (world : World) : (request : Request) → request.Reply × World
  | .read path => (world.readFile path, world)
  | .create path => world.settle (world.createFile path)
  | .append path contents => world.settle (world.appendFile path contents)
  | .copy source target => world.settle (world.copyFile source target)
  | .makeDirectory path => world.makeDirectory path
  | .isDirectory path => (world.isDirectory path, world)
  | .isExecutable path => (world.isExecutable path, world)
  | .entries path => (world.entries path, world)
  | .survey path enters => (world.survey path enters, world)
  | .removeFile path => world.settle (world.remove false path)
  | .removeDirectory path => world.settle (world.remove true path)
  | .time => (world.clock, world)
  | .freshId => (idText world.issued, { world with issued := world.issued + 1 })
  | .send bytes => world.sendBytes bytes
  | .print text => ((), { world with shown := world.shown ++ text })
  | .report line => ((), { world with reported := world.reported ++ [line] })

/-- The result of a script and the world after it. -/
def run {α : Type} : Script α → World → α × World
  | .done result, world => (result, world)
  | .ask request next, world =>
      let (answer, world) := world.reply request
      run (next answer) world

theorem run_bind {α β : Type} (script : Script α) (f : α → Script β) (world : World) :
    world.run (script.bind f) = (world.run script).2.run (f (world.run script).1) := by
  induction script generalizing world with
  | done a => rfl
  | ask request next ih => simp only [Script.bind_ask, run, ih]

end World

end Wireframe.Files
