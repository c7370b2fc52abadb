/-
Texts of scalars.

A scalar may go on over several lines.  Where its style folds lines, one line break stands for a
space, and of several the first one for nothing.

* `Gap` — blanks or line breaks between the words of a scalar;
* `plainText` — a scalar without quotes, which ends before an indicator or at a lesser column;
* `singleText`, `doubleText` — scalars in quotes;
* `blockText` — a scalar of whole lines.

Design notes:
* every function gets the place and the text after what opens the scalar, and gives the text of the
  scalar, the place after it and what follows; none where the scalar is not well-formed.
-/
import Wireframe.Json.Quoted
import Wireframe.Yaml.Cursor

namespace Wireframe.Yaml

/-- The text of a scalar, the place after it, and what follows. -/
abbrev Scanned := Option (List Char × Place × List Char)

/-- The scanned text with something before it. -/
def Scanned.after (front : List Char) (scanned : Scanned) : Scanned :=
  scanned.map fun (text, place, rest) => (front ++ text, place, rest)

/-- What stands between two words of a scalar. -/
inductive Gap
  | blanks (cs : List Char)
  /-- Line breaks, which may have to be kept all. -/
  | lines (folds : Bool) (breaks : List Char)

/-- Line breaks when lines are folded. -/
def foldBreaks : List Char → List Char
  | ['\n'] => [' ']
  | '\n' :: more => more
  | breaks => breaks

namespace Gap

/-- Nothing. -/
def nothing : Gap := .blanks []

/-- The gap with one more blank or line break. -/
def add (c : Char) : Gap → Gap
  | blanks cs => if isBreak c then .lines true [c] else .blanks (cs ++ [c])
  | lines folds breaks => .lines folds (if isBreak c then breaks ++ [c] else breaks)

/-- What the gap stands for. -/
def text : Gap → List Char
  | blanks cs => cs
  | lines true breaks => foldBreaks breaks
  | lines false breaks => breaks

/-- The gap goes over a line break. -/
def isLines : Gap → Bool
  | blanks _ => false
  | lines _ _ => true

/-- There is no gap. -/
def isNothing : Gap → Bool
  | blanks cs => cs.isEmpty
  | lines _ _ => false

end Gap

/-! ### Scalars without quotes -/

/-- Brackets and commas. -/
def isBracket (c : Char) : Bool := [',', '[', ']', '\x7b', '\x7d'].contains c

/-- The characters that say something at the start of a value. -/
def isIndicator (c : Char) : Bool :=
  isBracket c ||
    ['-', '?', ':', '#', '&', '*', '!', '|', '>', '\'', '"', '%', '@', '\x60'].contains c

/-- A scalar without quotes may begin here. -/
def startsPlain (bracketed : Bool) : List Char → Bool
  | [] => false
  | c :: rest =>
      if c == '-' then !endsWord rest
      else if c == '?' || c == ':' then !bracketed && !endsWord rest
      else !isGap c && !isBreak c && !isIndicator c

/-- A scalar without quotes ends here, after a gap. -/
def endsPlain (bracketed : Bool) (least : Nat) (gap : Gap) (place : Place) (c : Char)
    (rest : List Char) : Bool :=
  (gap.isLines && !bracketed && place.column < least) || (c == '#' && !gap.isNothing) ||
    isMarker place (c :: rest) || (c == ':' && endsWord rest) || (bracketed && isBracket c)

/-- The colon may not stand here. -/
def isMisplaced (bracketed : Bool) (c : Char) (rest : List Char) : Bool :=
  bracketed && c == ':' && rest.head?.any fun d => isBracket d || d == '?'

/-- The rest of a scalar without quotes after a gap; lines that go on with it begin at the column
`least` or later. -/
def plainText (bracketed : Bool) (least : Nat) (gap : Gap) (place : Place) :
    List Char → Scanned
  | [] => some ([], { place with opens := gap.isLines }, [])
  | c :: rest =>
      if isBreak c then plainText bracketed least (gap.add c) place.nextLine rest
      else if isGap c then
        if gap.isLines && c == '\t' && place.column < least then none
        else plainText bracketed least (gap.add c) place.next rest
      else if endsPlain bracketed least gap place c rest then
        some ([], { place with opens := gap.isLines }, c :: rest)
      else if isMisplaced bracketed c rest then none
      else (plainText bracketed least .nothing place.next rest).after (gap.text ++ [c])

/-! ### Scalars in quotes -/

/-- The rest of a scalar in single quotes after a gap. -/
def singleText (gap : Gap) (place : Place) : List Char → Scanned
  | [] => none
  | '\'' :: '\'' :: rest => (singleText .nothing (place.skip 2) rest).after (gap.text ++ ['\''])
  | c :: rest =>
      if c = '\'' then some (gap.text, { place.next with opens := false }, rest)
      else if isBreak c then singleText (gap.add c) place.nextLine rest
      else if isGap c then singleText (gap.add c) place.next rest
      else if isMarker place (c :: rest) then none
      else (singleText .nothing place.next rest).after (gap.text ++ [c])

/-- The character for a character after a backslash. -/
def escaped? (c : Char) : Option Char :=
  [('0', '\x00'), ('a', '\x07'), ('b', '\x08'), ('t', '\t'), ('\t', '\t'), ('n', '\n'),
    ('v', '\x0b'), ('f', '\x0c'), ('r', '\r'), ('e', '\x1b'), (' ', ' '), ('"', '"'), ('/', '/'),
    ('\\', '\\'), ('N', '\u0085'), ('_', '\u00a0'), ('L', '\u2028'), ('P', '\u2029')].lookup c

/-- The number of hexadecimal digits that follow a character after a backslash. -/
def hexDigits? (c : Char) : Option Nat := [('x', 2), ('u', 4), ('U', 8)].lookup c

/-- The rest of a scalar in double quotes after a gap, or with hexadecimal digits still missing: their
number, and the value of those that have been read. -/
def doubleText (gap : Gap) (hex : Option (Nat × Nat)) (place : Place) : List Char → Scanned
  | [] => none
  | c :: rest =>
      match hex with
      | some (missing, value) =>
          match Json.hexValue? c with
          | none => none
          | some d =>
              let value := value * 16 + d
              if 1 < missing then doubleText gap (some (missing - 1, value)) place.next rest
              else if value.isValidChar then
                (doubleText .nothing none place.next rest).after [Char.ofNat value]
              else none
      | none =>
          if c == '"' then some (gap.text, { place.next with opens := false }, rest)
          else if c == '\\' then
            match rest with
            | [] => none
            | e :: rest =>
                -- a backslash at the end of a line joins it to the next one
                if isBreak e then
                  (doubleText (.lines false []) none place.nextLine rest).after gap.text
                else
                  match hexDigits? e, escaped? e with
                  | some count, _ =>
                      (doubleText .nothing (some (count, 0)) (place.skip 2) rest).after gap.text
                  | none, some meant =>
                      (doubleText .nothing none (place.skip 2) rest).after (gap.text ++ [meant])
                  | none, none => none
          else if isBreak c then doubleText (gap.add c) none place.nextLine rest
          else if isGap c then doubleText (gap.add c) none place.next rest
          else if isMarker place (c :: rest) then none
          else (doubleText .nothing none place.next rest).after (gap.text ++ [c])

/-! ### Scalars of whole lines -/

/-- What becomes of the line breaks at the end. -/
inductive Chomping
  | strip
  | clip
  | keep
deriving DecidableEq, Repr

/-- The head of a scalar of whole lines. -/
structure BlockHead where
  chomping : Chomping := .clip
  /-- How far the lines are indented, if it is said. -/
  indent : Option Nat := none

/-- The chomping that is asked for by a character. -/
def chomping? : Char → Option Chomping
  | '-' => some .strip
  | '+' => some .keep
  | _ => none

/-- The indentation that is asked for by a character. -/
def indent? (c : Char) : Option Nat :=
  if c.isDigit && c != '0' then some (c.toNat - '0'.toNat) else none

/-- The head of a scalar and the rest of its line. -/
def blockHead (cs : List Char) : BlockHead × List Char :=
  match cs with
  | [] => ({}, [])
  | c :: rest =>
      -- the two signs of a head may stand in either order
      match chomping? c, indent? c with
      | some chomping, _ =>
          match rest with
          | d :: more =>
              match indent? d with
              | some n => (⟨chomping, some n⟩, more)
              | none => (⟨chomping, none⟩, rest)
          | [] => (⟨chomping, none⟩, [])
      | none, some n =>
          match rest with
          | d :: more =>
              match chomping? d with
              | some chomping => (⟨chomping, some n⟩, more)
              | none => (⟨.clip, some n⟩, rest)
          | [] => (⟨.clip, some n⟩, [])
      | none, none => ({}, cs)

/-- What follows a line that holds nothing but blanks and a comment. -/
def emptyLine? (cs : List Char) : Option (List Char) :=
  let rest := match cs.dropWhile isGap with
    | '#' :: rest => rest.dropWhile (!isBreak ·)
    | rest => rest
  match rest with
  | [] => some []
  | c :: rest => if isBreak c then some rest else none

/-- Empty lines before a line of a scalar: their breaks, the place at which the line begins, the
widest indentation of all, and what follows.  Spaces are skipped up to the indentation, or all of
them if it is not known. -/
def blockBreaks (indent : Option Nat) (widest : Nat) (place : Place) :
    List Char → Option (List Char × Place × Nat × List Char)
  | [] => some ([], place, max widest place.column, [])
  | c :: rest =>
      let inside := indent.all (place.column < ·)
      if inside && c == ' ' then blockBreaks indent widest place.next rest
      else if inside && c == '\t' then none
      else
        let widest := max widest place.column
        if isBreak c then
          (blockBreaks indent widest place.nextLine rest).map fun (breaks, found) =>
            (c :: breaks, found)
        else some ([], place, widest, c :: rest)

/-- The line breaks between two lines: the one that ends the first, and those of empty lines. -/
structure BlockGap where
  first : List Char := []
  more : List Char

/-- What line breaks stand for between lines that are folded or not. -/
def BlockGap.text (gap : BlockGap) (folds : Bool) : List Char :=
  if folds && gap.first == ['\n'] then if gap.more.isEmpty then [' '] else gap.more
  else gap.first ++ gap.more

/-- What the line breaks at the end stand for. -/
def BlockGap.ending (gap : BlockGap) : Chomping → List Char
  | .strip => []
  | .clip => gap.first
  | .keep => gap.first ++ gap.more

/-- The lines of a scalar, after a gap; `blank` if the line before began with a blank.  `fuel` bounds
their number. -/
def blockLines (folding : Bool) (chomping : Chomping) (indent : Nat) :
    (fuel : Nat) → (gap : BlockGap) → (blank : Bool) → Place → List Char → Scanned
  | 0, _, _, _, _ => none
  | fuel + 1, gap, blank, place, cs =>
      match cs with
      | [] => some (gap.ending chomping, { place with opens := true }, [])
      | c :: _ =>
          if place.column = indent then
            let line := cs.takeWhile (!isBreak ·)
            -- lines are folded together only if neither of them begins with a blank
            let front := gap.text (folding && !blank && !isGap c)
            match cs.dropWhile (!isBreak ·) with
            | [] =>
                (blockLines folding chomping indent fuel ⟨[], []⟩ (isGap c)
                  (place.skip line.length) []).after (front ++ line)
            | newline :: rest => do
                let (breaks, place, _, rest) ← blockBreaks (some indent) 0 place.nextLine rest
                (blockLines folding chomping indent fuel ⟨[newline], breaks⟩ (isGap c) place
                  rest).after (front ++ line)
          else some (gap.ending chomping, { place with opens := true }, cs)

/-- A scalar of whole lines, folded or not, the lines of which are indented to the column `least` or
further.  A key may begin after it. -/
def blockText (folding : Bool) (least : Nat) (place : Place) (cs : List Char) : Scanned := do
  let (head, rest) := blockHead cs
  let rest ← emptyLine? rest
  let place := place.nextLine
  let stated := head.indent.map fun n => least - 1 + n
  let (breaks, place, widest, rest) ← blockBreaks stated 0 place rest
  let indent := stated.getD (max (max widest least) 1)
  blockLines folding head.chomping indent (rest.length + 1) ⟨[], breaks⟩ false place rest

end Wireframe.Yaml
