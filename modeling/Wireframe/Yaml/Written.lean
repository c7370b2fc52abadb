/-
Documents as they are written.

The tokens of a document are put together to a tree.  A node may be given a name, and a name may stand
in the place of a node.

* `Written` — a node as it is written, with references to other nodes;
* `Reader` — readers, which take tokens from the front;
* `node` — a node with its properties;
* `Written.ofTokens?` — the root of the only document of a row of tokens.

Design notes:
* where a node may be left out, it stands for a plain scalar without text;
* a name is known by a number: how many names had been given when it was given, each one counted once.
  So a name that is given again gets another number, which the next new name may share;
* in a sequence in brackets, a question mark without a key takes the indicator after it along;
* every call of a reader takes a token or is followed by one that does, so that `fuel` is bounded by
  the number of tokens.
-/
import Wireframe.Yaml.Token

namespace Wireframe.Yaml

/-- What may stand before a node: the number of its name, and a tag. -/
structure Properties where
  anchor : Option Nat := none
  tag : Option String := none
deriving Repr, DecidableEq, Inhabited

/-- A node as it is written. -/
inductive Written
  /-- The node of the name with this number. -/
  | reference (number : Nat)
  | scalar (properties : Properties) (plain : Bool) (text : String)
  | sequence (properties : Properties) (items : List Written)
  | mapping (properties : Properties) (entries : List (Written × Written))
deriving Repr, Inhabited

/-- A node that has been left out. -/
def Written.empty : Written := .scalar {} true ""

/-- What is left of a document, and what is known from before. -/
structure Reading where
  tokens : List Token
  /-- The numbers of names. -/
  names : List (String × Nat) := []
  shorthands : List Shorthand := []
deriving Repr, Inhabited

/-- Reads something, or refuses the document. -/
abbrev Reader := StateT Reading Option

/-! ### Steps -/

/-- The next token. -/
def peek : Reader (Option Token) := return (← get).tokens.head?

/-- Moves over a token. -/
def advance : Reader Unit :=
  modify fun reading => { reading with tokens := reading.tokens.tail }

/-- Moves over a token if it is the given one. -/
def takes (token : Token) : Reader Bool := do
  if (← peek) = some token then
    advance
    return true
  else return false

/-- One of the given tokens is next. -/
def isNext (tokens : List Token) : Reader Bool := return (← peek).any tokens.contains

/-! ### Properties -/

/-- Gives a number to a name. -/
def declare (name : String) : Reader Nat := do
  let reading ← get
  let number := reading.names.length
  set { reading with names := (name, number) :: reading.names.filter (·.1 != name) }
  return number

/-- A name for a node, if one is next. -/
def anchor? : Reader (Option Nat) := do
  match ← peek with
  | some (.anchor name) =>
      advance
      return some (← declare name)
  | _ => return none

/-- A tag, if one is next. -/
def tag? : Reader (Option String) := do
  match ← peek with
  | some (.tag tag) =>
      advance
      match tag.resolve? ((← get).shorthands ++ Shorthand.defaults) with
      | some tag => return some tag
      | none => failure
  | _ => return none

/-- The properties that are next, in either order. -/
def properties : Reader Properties := do
  let before ← anchor?
  let tag ← tag?
  let anchor ← if before.isSome then pure before else anchor?
  return { anchor, tag }

/-- The node of a name. -/
def reference (name : String) : Reader Written := do
  match (← get).names.lookup name with
  | some number => return .reference number
  | none => failure

/-- A node of which there are only the properties. -/
def bare (properties : Properties) : Reader Written :=
  if properties = {} then failure else return .scalar properties true ""

/-! ### Nodes -/

mutual

/-- A node.  Outside of brackets it may be a block; as a part of an entry, it may be a sequence that
begins at the column of the key. -/
def node (block belongs : Bool) : (fuel : Nat) → Reader Written
  | 0 => failure
  | fuel + 1 => do
      if let some (.reference name) ← peek then
        advance
        return ← reference name
      let properties ← properties
      match ← peek with
      | some (.scalar plain text) => advance; return .scalar properties plain text
      | some .sequenceStart =>
          advance
          return .sequence properties (← bracketItems true fuel)
      | some .mappingStart =>
          advance
          return .mapping properties (← bracketEntries true fuel)
      -- the hyphens of a sequence may stand in the column of the key that it belongs to
      | some .entry =>
          if belongs then return .sequence properties (← looseItems fuel) else bare properties
      | some .blockSequenceStart =>
          if block then
            advance
            return .sequence properties (← blockItems fuel)
          else bare properties
      | some .blockMappingStart =>
          if block then
            advance
            return .mapping properties (← blockEntries fuel)
          else bare properties
      | _ => bare properties
termination_by structural fuel => fuel

/-- A node, which is left out where one of the given tokens is next. -/
def nodeBefore (stops : List Token) (block belongs : Bool) : (fuel : Nat) → Reader Written
  | 0 => failure
  | fuel + 1 => do
      if ← isNext stops then return .empty
      else node block belongs fuel
termination_by structural fuel => fuel

/-- The node after the colon of an entry, which may be missing with its colon. -/
def valueBefore (stops : List Token) (block : Bool) : (fuel : Nat) → Reader Written
  | 0 => failure
  | fuel + 1 => do
      if ← takes .value then nodeBefore stops block block fuel
      else return .empty
termination_by structural fuel => fuel

/-- The items of a block. -/
def blockItems : (fuel : Nat) → Reader (List Written)
  | 0 => failure
  | fuel + 1 => do
      if ← takes .blockEnd then return []
      else if ← takes .entry then
        let item ← nodeBefore [.entry, .blockEnd] true false fuel
        return item :: (← blockItems fuel)
      else failure
termination_by structural fuel => fuel

/-- The items of a sequence that begins at the column of its key. -/
def looseItems : (fuel : Nat) → Reader (List Written)
  | 0 => failure
  | fuel + 1 => do
      if ← takes .entry then
        let item ← nodeBefore [.entry, .key, .value, .blockEnd] true false fuel
        return item :: (← looseItems fuel)
      else return []
termination_by structural fuel => fuel

/-- The entries of a block. -/
def blockEntries : (fuel : Nat) → Reader (List (Written × Written))
  | 0 => failure
  | fuel + 1 => do
      if ← takes .blockEnd then return []
      else if ← takes .key then
        let stops := [.key, .value, .blockEnd]
        let key ← nodeBefore stops true true fuel
        let value ← valueBefore stops true fuel
        return (key, value) :: (← blockEntries fuel)
      else failure
termination_by structural fuel => fuel

/-- The items of a sequence in brackets, with a comma before each one but the first. -/
def bracketItems (first : Bool) : (fuel : Nat) → Reader (List Written)
  | 0 => failure
  | fuel + 1 => do
      if ← takes .sequenceEnd then return []
      if !first then
        if !(← takes .comma) then failure
      if ← takes .sequenceEnd then return []
      else if ← takes .key then
        let pair ← bracketPair fuel
        return .mapping {} [pair] :: (← bracketItems false fuel)
      else
        let item ← node false false fuel
        return item :: (← bracketItems false fuel)
termination_by structural fuel => fuel

/-- An entry that stands for an item of a sequence in brackets. -/
def bracketPair : (fuel : Nat) → Reader (Written × Written)
  | 0 => failure
  | fuel + 1 => do
      let key ← if ← isNext [.value, .comma, .sequenceEnd] then
          advance
          pure Written.empty
        else node false false fuel
      return (key, ← valueBefore [.comma, .sequenceEnd] false fuel)
termination_by structural fuel => fuel

/-- The entries of a mapping in brackets, with a comma before each one but the first. -/
def bracketEntries (first : Bool) : (fuel : Nat) → Reader (List (Written × Written))
  | 0 => failure
  | fuel + 1 => do
      if ← takes .mappingEnd then return []
      if !first then
        if !(← takes .comma) then failure
      if ← takes .mappingEnd then return []
      else if ← takes .key then
        let key ← nodeBefore [.value, .comma, .mappingEnd] false false fuel
        let value ← valueBefore [.comma, .mappingEnd] false fuel
        return (key, value) :: (← bracketEntries false fuel)
      else
        let key ← node false false fuel
        return (key, .empty) :: (← bracketEntries false fuel)
termination_by structural fuel => fuel

end

/-! ### Documents -/

/-- A version of the language that can be read. -/
def isKnownVersion (major minor : Nat) : Bool := major == 1 && (minor == 1 || minor == 2)

/-- What is said before a document: its version at most once, and what handles stand for, each one at
most once; `versioned` if the version has been said.  The document must begin then. -/
def directives (versioned : Bool) : List Token → List Shorthand → Option Reading
  | .version major minor :: rest, shorthands =>
      if versioned || !isKnownVersion major minor then none
      else directives true rest shorthands
  | .shorthand new :: rest, shorthands =>
      if shorthands.any (·.handle == new.handle) then none
      else directives versioned rest (new :: shorthands)
  | .documentStart :: rest, shorthands => some { tokens := rest, shorthands }
  | _, _ => none

/-- The token stands around documents. -/
def isOutside : Token → Bool
  | .version _ _ | .shorthand _ | .documentStart | .documentEnd => true
  | _ => false

/-- The root of a document, which may be left out after the mark before it. -/
def root (marked : Bool) (fuel : Nat) : Reader Written := do
  if marked && (← peek).all isOutside then return .empty
  else node true false fuel

/-- The root of the only document of a row of tokens; nothing if there is no document. -/
def Written.ofTokens? (tokens : List Token) : Option (Option Written) := do
  let fuel := 4 * tokens.length + 8
  match tokens with
  | [] => return none
  | token :: _ =>
      let marked := isOutside token && token != .documentEnd
      let reading ← if marked then directives false tokens [] else some { tokens }
      let (root, reading) ← (root marked fuel).run reading
      if reading.tokens.all (· == .documentEnd) then return some root else none

end Wireframe.Yaml
