/-
Tokens of a document.

A document is a row of tokens: indicators, properties and scalars.  Where blocks begin and end is told
by columns, and gets tokens of its own.

* `Token` — the tokens;
* `Scan` — what has been read and what is left;
* `tokens?` — the tokens of a document.

Design notes:
* a key that no question mark announces is known as one only at the colon after it.  So the place
  where a key may begin is remembered, and the token for it is put in when the colon comes;
* such a key stands on one line, with at most `keyLength` characters before its colon;
* outside of brackets nothing but a key may begin at the column of the block around it;
* every token takes at least one character, so that their number is bounded by the length.
-/
import Wireframe.Yaml.Scalar
import Wireframe.Yaml.Tag

namespace Wireframe.Yaml

/-- A token. -/
inductive Token
  /-- The version of the language, said before a document. -/
  | version (major minor : Nat)
  | shorthand (shorthand : Shorthand)
  | documentStart
  | documentEnd
  | blockSequenceStart
  | blockMappingStart
  | blockEnd
  | sequenceStart
  | sequenceEnd
  | mappingStart
  | mappingEnd
  /-- The dash before an item of a block. -/
  | entry
  | comma
  | key
  | value
  | reference (name : String)
  | anchor (name : String)
  | tag (tag : Tag)
  /-- A text; `plain` if it stands without quotes. -/
  | scalar (plain : Bool) (text : String)
deriving Repr, DecidableEq, Inhabited

/-- A place where a key may have begun. -/
structure PossibleKey where
  place : Place
  /-- The number of tokens before it. -/
  index : Nat
  /-- Nothing but a key may begin here. -/
  required : Bool
deriving Repr, Inhabited

/-- The greatest number of characters from the start of a key to its colon. -/
def keyLength : Nat := 1024

/-- The key can no longer be followed by its colon. -/
def PossibleKey.isPast (key : PossibleKey) (place : Place) : Bool :=
  key.place.line < place.line || key.place.column + keyLength < place.column

/-- What has been read, and what is left. -/
structure Scan where
  rest : List Char
  place : Place := {}
  tokens : Array Token := #[]
  /-- The columns of the blocks around this place, the innermost first. -/
  blocks : List Nat := []
  /-- Where a key may have begun, within the innermost brackets if there are any. -/
  key : Option PossibleKey := none
  /-- Where keys may have begun around each of the brackets, the innermost first. -/
  around : List (Option PossibleKey) := []
deriving Repr, Inhabited

namespace Scan

/-- There are brackets around this place. -/
def bracketed (scan : Scan) : Bool := !scan.around.isEmpty

/-- The least column that is further to the right than the block around this place. -/
def least (scan : Scan) : Nat :=
  match scan.blocks with
  | [] => 0
  | column :: _ => column + 1

/-- Adds a token. -/
def add (scan : Scan) (token : Token) : Scan := { scan with tokens := scan.tokens.push token }

/-- Puts in a token after as many tokens as `index` says. -/
def insert (scan : Scan) (index : Nat) (token : Token) : Scan :=
  { scan with tokens := scan.tokens.insertIdxIfInBounds index token }

/-- Moves to a place. -/
def moveTo (scan : Scan) (place : Place) (rest : List Char) : Scan := { scan with place, rest }

/-- Moves over some characters of this line. -/
def skip (scan : Scan) (count : Nat) : Scan :=
  scan.moveTo (scan.place.skip count) (scan.rest.drop count)

/-- Says whether a key may begin next. -/
def opening (scan : Scan) (opens : Bool) : Scan :=
  { scan with place := { scan.place with opens } }

/-! ### Blocks -/

/-- Ends the blocks that begin to the right of a column, or all blocks; within brackets columns mean
nothing. -/
def endBlocks (scan : Scan) (column : Option Nat) : Scan :=
  if scan.bracketed then scan
  else
    let isRight := fun block => column.all (· < block)
    let ended := (scan.blocks.takeWhile isRight).length
    { scan with
      tokens := scan.tokens ++ Array.replicate ended Token.blockEnd
      blocks := scan.blocks.dropWhile isRight }

/-- Begins a block at a column, if it is to the right of the block around; `index` tokens stand before
it. -/
def beginBlock (scan : Scan) (column index : Nat) (token : Token) : Scan :=
  if scan.bracketed || column < scan.least then scan
  else { scan.insert index token with blocks := column :: scan.blocks }

/-! ### Keys -/

/-- No key begins where one might have begun. -/
def dropKey (scan : Scan) : Option Scan :=
  if scan.key.any (·.required) then none else some { scan with key := none }

/-- Remembers that a key may begin here. -/
def saveKey (scan : Scan) : Option Scan :=
  if scan.place.opens then do
    let required := !scan.bracketed && scan.blocks.head? == some scan.place.column
    let scan ← scan.dropKey
    return { scan with key := some ⟨scan.place, scan.tokens.size, required⟩ }
  else some scan

/-- Forgets a key that can no longer be followed by its colon.  One that may have begun around brackets
is looked at when they are closed. -/
def forgetKey (scan : Scan) : Option Scan :=
  if scan.key.any (·.isPast scan.place) then scan.dropKey else some scan

/-! ### Indicators -/

/-- Adds the token of an indicator, after which a key may begin or not. -/
def indicator (scan : Scan) (count : Nat) (token : Token) (opens : Bool) : Scan :=
  ((scan.add token).skip count).opening opens

/-- A mark around documents. -/
def mark (scan : Scan) (token : Token) : Option Scan := do
  return (← (scan.endBlocks none).dropKey).indicator 3 token false

/-- A bracket that opens. -/
def enter (scan : Scan) (token : Token) : Option Scan := do
  let scan ← scan.saveKey
  return ({ scan with key := none, around := scan.key :: scan.around }).indicator 1 token true

/-- A bracket that closes. -/
def leave (scan : Scan) (token : Token) : Option Scan := do
  let scan ← scan.dropKey
  let scan := match scan.around with
    | [] => scan
    | key :: around => { scan with key, around }
  return scan.indicator 1 token false

/-- A comma. -/
def comma (scan : Scan) : Option Scan := do
  return (← scan.dropKey).indicator 1 .comma true

/-- A block may begin here, or there are brackets around. -/
def mayBegin (scan : Scan) : Bool := scan.bracketed || scan.place.opens

/-- A dash before an item. -/
def entry (scan : Scan) : Option Scan := do
  if !scan.mayBegin then failure
  let scan := scan.beginBlock scan.place.column scan.tokens.size .blockSequenceStart
  return (← scan.dropKey).indicator 1 .entry true

/-- A question mark before a key. -/
def keyMark (scan : Scan) : Option Scan := do
  if !scan.mayBegin then failure
  let scan := scan.beginBlock scan.place.column scan.tokens.size .blockMappingStart
  return (← scan.dropKey).indicator 1 .key (!scan.bracketed)

/-- A colon after a key. -/
def valueMark (scan : Scan) : Option Scan := do
  match scan.key with
  | some key =>
      let scan := (scan.insert key.index .key).beginBlock key.place.column key.index
        .blockMappingStart
      return ({ scan with key := none }).indicator 1 .value false
  | none =>
      if !scan.mayBegin then failure
      let scan := scan.beginBlock scan.place.column scan.tokens.size .blockMappingStart
      return scan.indicator 1 .value (!scan.bracketed)

/-! ### Directives -/

/-- The greatest number of digits of a version. -/
def versionLength : Nat := 9

/-- The number at the start of a text, and what follows. -/
def versionPart? (cs : List Char) : Option (Nat × List Char) :=
  let digits := cs.takeWhile Char.isDigit
  if digits.isEmpty || versionLength < digits.length then none
  else some (digits.foldl (fun n d => n * 10 + (d.toNat - '0'.toNat)) 0, cs.dropWhile Char.isDigit)

/-- The directive of a name, which stands before the text. -/
def directiveOf? (name : String) (cs : List Char) : Option (Token × List Char) := do
  match name with
  | "YAML" =>
      match ← versionPart? cs with
      | (major, '.' :: rest) =>
          let (minor, rest) ← versionPart? rest
          return (.version major minor, rest)
      | _ => failure
  | "TAG" =>
      let (shorthand, rest) ← Shorthand.scan cs
      return (.shorthand shorthand, rest)
  | _ => failure

/-- A directive, which takes a line. -/
def directive (scan : Scan) : Option Scan := do
  let scan ← (scan.endBlocks none).dropKey
  let cs := scan.rest.drop 1
  let rest := cs.dropWhile isNameChar
  if !endsWord rest then failure
  let name := String.ofList (cs.takeWhile isNameChar)
  let (token, rest) ← directiveOf? name (rest.dropWhile isGap)
  let rest ← emptyLine? rest
  return (scan.add token).moveTo { scan.place.nextLine with opens := false } rest

/-! ### Properties and scalars -/

/-- What may follow a name. -/
def endsName (cs : List Char) : Bool :=
  endsWord cs || cs.head?.any fun c =>
    ['?', ':', ',', ']', '\x7d', '%', '@', '\x60'].contains c

/-- A name after its indicator. -/
def name (scan : Scan) (token : String → Token) : Option Scan := do
  let scan ← scan.saveKey
  let cs := scan.rest.drop 1
  let name := cs.takeWhile isNameChar
  if name.isEmpty || !endsName (cs.dropWhile isNameChar) then failure
  return scan.indicator (name.length + 1) (token (String.ofList name)) false

/-- A tag. -/
def tag (scan : Scan) : Option Scan := do
  let scan ← scan.saveKey
  let (tag, rest) ← Tag.scan scan.rest
  if !endsWord rest && !(scan.bracketed && rest.head? == some ',') then failure
  return scan.indicator (scan.rest.length - rest.length) (.tag tag) false

/-- Adds a scalar. -/
def scalar (scan : Scan) (plain : Bool) (scanned : Scanned) : Option Scan := do
  let (text, place, rest) ← scanned
  return (scan.add (.scalar plain (String.ofList text))).moveTo place rest

/-- A scalar in quotes. -/
def quoted (scan : Scan) (text : Place → List Char → Scanned) : Option Scan := do
  let scan ← scan.saveKey
  scan.scalar false (text scan.place.next (scan.rest.drop 1))

/-- A scalar without quotes. -/
def plain (scan : Scan) : Option Scan := do
  let scan ← scan.saveKey
  scan.scalar true (plainText scan.bracketed scan.least .nothing scan.place scan.rest)

/-- A scalar of whole lines, which is no key. -/
def wholeLines (scan : Scan) (folding : Bool) : Option Scan := do
  let scan ← scan.dropKey
  scan.scalar false (blockText folding scan.least scan.place.next (scan.rest.drop 1))

/-! ### Tokens -/

/-- The next token, if its first character tells it. -/
def byCharacter? (scan : Scan) : Char → Option (Option Scan)
  | '[' => some (scan.enter .sequenceStart)
  | '\x7b' => some (scan.enter .mappingStart)
  | ']' => some (scan.leave .sequenceEnd)
  | '\x7d' => some (scan.leave .mappingEnd)
  | ',' => some scan.comma
  | '*' => some (scan.name .reference)
  | '&' => some (scan.name .anchor)
  | '!' => some scan.tag
  | '\'' => some (scan.quoted (singleText .nothing))
  | '"' => some (scan.quoted (doubleText .nothing none))
  | _ => none

/-- The next token, which begins with the given character. -/
def token (scan : Scan) (c : Char) : Option Scan :=
  let isWord := endsWord (scan.rest.drop 1)
  let bracketed := scan.bracketed
  if scan.place.column == 0 && c == '%' then scan.directive
  else if isMark startMark scan.place scan.rest then scan.mark .documentStart
  else if isMark endMark scan.place scan.rest then scan.mark .documentEnd
  else
    match scan.byCharacter? c with
    | some found => found
    | none =>
        if c == '-' && isWord then scan.entry
        else if c == '?' && (bracketed || isWord) then scan.keyMark
        else if c == ':' && (bracketed || isWord) then scan.valueMark
        else if (c == '|' || c == '>') && !bracketed then scan.wholeLines (c == '>')
        else if startsPlain bracketed scan.rest then scan.plain
        else none

/-- Moves on to the next token; blocks end before it. -/
def ready (scan : Scan) : Option Scan := do
  let (place, rest) := skipFiller scan.bracketed false scan.place scan.rest
  let scan ← (scan.moveTo place rest).forgetKey
  return scan.endBlocks (some place.column)

/-- All tokens, with those that are left; `fuel` bounds the number of the latter. -/
def run : (fuel : Nat) → Scan → Option (Array Token)
  | 0, _ => none
  | fuel + 1, scan => do
      let scan ← scan.ready
      match scan.rest with
      | [] => return (← (scan.endBlocks none).dropKey).tokens
      | c :: _ => run fuel (← scan.token c)

end Scan

/-- The tokens of a text. -/
def tokens? (text : String) : Option (List Token) := do
  let cs ← normalize? text.toList
  return (← Scan.run (cs.length + 1) { rest := cs }).toList

example : tokens? "a: [b]" = some [.blockMappingStart, .key, .scalar true "a", .value,
    .sequenceStart, .scalar true "b", .sequenceEnd, .blockEnd] := by
  decide +kernel

end Wireframe.Yaml
