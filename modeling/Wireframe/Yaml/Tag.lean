/-
Tags.

A tag tells the kind of a node.  It is written in full between angle brackets, or as a suffix after a
handle; what a handle stands for may be said before a document.

* `Tag` — a tag as it is written;
* `Tag.scan` — the tag at the start of a text;
* `Shorthand` — what a handle stands for;
* `Tag.resolve?` — the tag in full.

Design notes:
* after a percent sign two hexadecimal digits stand for an octet, and the octets of one character
  stand together;
* a tag in full is kept as its octets, each one as a character, and ends before an octet that is zero.
-/
import Wireframe.Json.Quoted
import Wireframe.Yaml.Cursor

namespace Wireframe.Yaml

/-- A tag as it is written; one in full has an empty handle. -/
structure Tag where
  handle : String
  suffix : String
deriving Repr, DecidableEq, Inhabited

/-- What a handle stands for. -/
structure Shorthand where
  handle : String
  front : String
deriving Repr, DecidableEq, Inhabited

/-- A character of a name. -/
def isNameChar (c : Char) : Bool := c.isAlphanum || c == '-' || c == '_'

/-! ### Octets -/

/-- The octet of two hexadecimal digits. -/
def octet? (a b : Char) : Option Nat := do
  return (← Json.hexValue? a) * 16 + (← Json.hexValue? b)

/-- The number of octets that follow the first one of a character. -/
def following? (octet : Nat) : Option Nat :=
  if octet < 0x80 then some 0
  else if octet < 0xC0 then none
  else if octet < 0xE0 then some 1
  else if octet < 0xF0 then some 2
  else if octet < 0xF8 then some 3
  else none

/-- The octet is not the first one of a character. -/
def isFollowing (octet : Nat) : Bool := 0x80 ≤ octet && octet < 0xC0

/-- A character of a tag that stands for itself; in full tags, commas and square brackets do. -/
def isTagChar (full : Bool) (c : Char) : Bool :=
  isNameChar c ||
    [';', '/', '?', ':', '@', '&', '=', '+', '$', '.', '!', '~', '*', '\'', '(', ')'].contains c ||
    (full && [',', '[', ']'].contains c)

/-- The octets of a tag and what follows it, when `missing` octets of a character are to come. -/
def tagOctets (full : Bool) (missing : Nat) : List Char → Option (List Char × List Char)
  | '%' :: a :: b :: rest => do
      let octet ← octet? a b
      let missing ← match missing with
        | 0 => following? octet
        | missing + 1 => if isFollowing octet then some missing else none
      let (octets, rest) ← tagOctets full missing rest
      return (Char.ofNat octet :: octets, rest)
  | c :: rest =>
      if missing == 0 && isTagChar full c then do
        let (octets, rest) ← tagOctets full 0 rest
        return (c :: octets, rest)
      else if missing == 0 && c != '%' then some ([], c :: rest)
      else none
  | [] => if missing == 0 then some ([], []) else none

/-- The octets up to one that is zero. -/
def untilZero (octets : List Char) : String := String.ofList (octets.takeWhile (· != '\x00'))

/-- The text of a tag, of which at least one character stands here, and what follows it. -/
def tagText? (full : Bool) (cs : List Char) : Option (String × List Char) := do
  let (octets, rest) ← tagOctets full 0 cs
  if octets.isEmpty then none else return (untilZero octets, rest)

/-! ### Handles -/

/-- The name between exclamation marks at the start of a text, whether the second mark is there, and
what follows. -/
def handle? : List Char → Option (List Char × Bool × List Char)
  | '!' :: cs =>
      let name := cs.takeWhile isNameChar
      match cs.dropWhile isNameChar with
      | '!' :: rest => some (name, true, rest)
      | rest => some (name, false, rest)
  | _ => none

/-- The handle of a name. -/
def handleOf (name : List Char) : String := String.ofList ('!' :: name ++ ['!'])

namespace Tag

/-- The tag at the start of a text, and what follows it. -/
def scan (cs : List Char) : Option (Tag × List Char) :=
  match cs with
  | '!' :: '<' :: rest => do
      match ← tagText? true rest with
      | (suffix, '>' :: rest) => return (⟨"", suffix⟩, rest)
      | _ => none
  | _ => do
      match ← handle? cs with
      | (name, true, rest) =>
          let (suffix, rest) ← tagText? false rest
          return (⟨handleOf name, suffix⟩, rest)
      | (name, false, rest) =>
          let (octets, rest) ← tagOctets false 0 rest
          match untilZero (name ++ octets) with
          | "" => return (⟨"", "!"⟩, rest)
          | suffix => return (⟨"!", suffix⟩, rest)

/-- The tag in full, if it is known what its handle stands for. -/
def resolve? (tag : Tag) (shorthands : List Shorthand) : Option String :=
  if tag.handle = "" then some tag.suffix
  else (shorthands.find? (·.handle = tag.handle)).map (·.front ++ tag.suffix)

end Tag

namespace Shorthand

/-- What a handle stands for, as it is said at the start of a text, and what follows. -/
def scan (cs : List Char) : Option (Shorthand × List Char) := do
  let (handle, rest) ← match ← handle? cs with
    | (name, true, rest) => some (handleOf name, rest)
    | ([], false, rest) => some ("!", rest)
    | _ => none
  if !rest.head?.any isGap then failure
  let (front, rest) ← tagText? true (rest.dropWhile isGap)
  if endsWord rest then return (⟨handle, front⟩, rest) else failure

/-- The namespace of the tags that every document knows. -/
def core : String := "tag:yaml.org,2002:"

/-- What handles stand for if nothing is said. -/
def defaults : List Shorthand := [⟨"!", "!"⟩, ⟨"!!", core⟩]

end Shorthand

/-- The tag of a name that every document knows. -/
def coreTag (name : String) : String := Shorthand.core ++ name

/-- The name of a tag that only the document itself knows; none if its octets are no text. -/
def localName? (tag : String) : Option String :=
  match tag.toList with
  | '!' :: name =>
      let octets := if name.isEmpty then ['!'] else name
      String.fromUTF8? (ByteArray.mk (octets.map fun c => c.toNat.toUInt8).toArray)
  | _ => none

example : (Tag.scan "!!int 1".toList).map (·.1) = some ⟨"!!", "int"⟩ := by decide +kernel
example : (Tag.scan "!a%62 1".toList).map (·.1) = some ⟨"!", "ab"⟩ := by decide +kernel
example : (Tag.scan "! 1".toList).map (·.1) = some ⟨"", "!"⟩ := by decide +kernel
example : Tag.scan "!%ff 1".toList = none := by decide +kernel

end Wireframe.Yaml
