/-
Places in a document.

The structure of a document is told by the columns in which its parts begin.

* `Place` — a place, and whether a key may begin there;
* `normalize?` — a document of the characters that are allowed, with one kind of line break;
* `skipFiller` — the place after blanks, comments and line breaks;
* `isMark` — the lines between documents.
-/
import Wireframe.Text.Words

namespace Wireframe.Yaml

/-- A place in a document. -/
structure Place where
  line : Nat := 0
  column : Nat := 0
  /-- A key or a block may begin here: nothing but the indicators of blocks stands before it on its
  line. -/
  opens : Bool := true
deriving Repr, DecidableEq, Inhabited

namespace Place

/-- The place after a character. -/
def next (place : Place) : Place := { place with column := place.column + 1 }

/-- The place after some characters of one line. -/
def skip (place : Place) (count : Nat) : Place := { place with column := place.column + count }

/-- The place after a line break. -/
def nextLine (place : Place) : Place := { place with line := place.line + 1, column := 0 }

end Place

/-! ### Characters -/

/-- A line break; all others have become line feeds. -/
def isBreak (c : Char) : Bool := c == '\n' || c == '\u2028' || c == '\u2029'

/-- Space and tab. -/
def isGap (c : Char) : Bool := c == ' ' || c == '\t'

/-- A blank, a line break or the end follows. -/
def endsWord : List Char → Bool
  | [] => true
  | c :: _ => isGap c || isBreak c

/-- The characters of which documents are made. -/
def isAllowed (c : Char) : Bool :=
  let n := c.toNat
  n == 0x09 || n == 0x0A || n == 0x0D || (0x20 ≤ n && n ≤ 0x7E) || n == 0x85 ||
    (0xA0 ≤ n && n ≤ 0xFFFD) || 0x10000 ≤ n

/-- The text with line feeds for its line breaks. -/
def unifyBreaks : List Char → List Char
  | '\r' :: '\n' :: rest => '\n' :: unifyBreaks rest
  | '\r' :: rest => '\n' :: unifyBreaks rest
  | '\u0085' :: rest => '\n' :: unifyBreaks rest
  | c :: rest => c :: unifyBreaks rest
  | [] => []

/-- A document with line feeds for its line breaks. -/
def normalize? (cs : List Char) : Option (List Char) :=
  if cs.all isAllowed then some (unifyBreaks cs) else none

/-! ### Filler -/

/-- The place after blanks, comments and line breaks, and what follows.  Within brackets line breaks
mean nothing; elsewhere a key may begin after one, and tabs may not stand where it may.  A byte order
mark at the start of a line is passed over like a blank. -/
def skipFiller (bracketed : Bool) (comment : Bool) (place : Place) :
    List Char → Place × List Char
  | [] => (place, [])
  | c :: rest =>
      if isBreak c then
        let place := place.nextLine
        skipFiller bracketed false { place with opens := place.opens || !bracketed } rest
      else if comment || c == ' ' || (c == '\t' && (bracketed || !place.opens)) ||
          (c == '\uFEFF' && place.column == 0) then
        skipFiller bracketed comment place.next rest
      else if c == '#' then skipFiller bracketed true place.next rest
      else (place, c :: rest)

/-- One of the marks around documents stands here. -/
def isMark (mark : List Char) (place : Place) (cs : List Char) : Bool :=
  place.column == 0 &&
    match mark.isPrefixOf? cs with
    | some rest => endsWord rest
    | none => false

/-- The mark before a document. -/
def startMark : List Char := ['-', '-', '-']

/-- The mark after a document. -/
def endMark : List Char := ['.', '.', '.']

/-- A mark before or after a document stands here. -/
def isMarker (place : Place) (cs : List Char) : Bool :=
  isMark startMark place cs || isMark endMark place cs

end Wireframe.Yaml
