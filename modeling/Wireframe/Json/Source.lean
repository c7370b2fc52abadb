/-
The text of a document, and what can be wrong with it.

A document arrives as text or as bytes.  Both become a list of symbols: characters, and *stray*
bytes that belong to no character.  A stray byte is an error only where a character is needed, so
the reader meets it at its place instead of refusing the document as a whole.

* `Source.ofString`, `Source.ofBytes` — documents as symbols;
* `Problem` — why reading failed; the first problem from the left is the one reported;
* `Mismatch.summary` — the words for a well-formed document of the wrong shape.
-/
namespace Wireframe.Json

/-- One unit of a document. -/
inductive Symbol
  | char (c : Char)
  | stray (byte : UInt8)
deriving Repr, DecidableEq

/-- The number of bytes of a symbol. -/
def Symbol.size : Symbol → Nat
  | .char c => c.utf8Size
  | .stray _ => 1

/-- What is left to read of a document. -/
abbrev Source := List Symbol

/-- How a well-formed value differs from what is expected in its place. -/
inductive Mismatch
  | invalidType
  | invalidValue
  | invalidLength (count : Nat)
  | missingField (name : String)
  | duplicateField (name : String)
  | unknownVariant (name : String)
deriving Repr, DecidableEq

/-- Why a document could not be read. -/
inductive Problem
  /-- The text ends too early. -/
  | ended
  /-- The text is not JSON. -/
  | malformed
  /-- The text is JSON of the wrong shape. -/
  | mismatch (reason : Mismatch)
deriving Repr, DecidableEq

/-- A mismatch in words. -/
def Mismatch.summary : Mismatch → String
  | .invalidType => "invalid type"
  | .invalidValue => "invalid value"
  | .invalidLength count => s!"invalid length {count}"
  | .missingField name => s!"missing field `{name}`"
  | .duplicateField name => s!"duplicate field `{name}`"
  | .unknownVariant name => s!"unknown variant `{name}`"

namespace Source

/-- A text as symbols. -/
def ofString (text : String) : Source := text.toList.map .char

/-- The byte may follow the first byte of a character. -/
def continues (b : UInt8) : Bool := 0x80 ≤ b && b ≤ 0xBF

/-- The character whose bits are those of `lead` followed by six of each byte of `rest`. -/
def assemble (lead : Nat) (rest : List UInt8) : Char :=
  Char.ofNat (rest.foldl (fun n b => n * 64 + b.toNat % 64) lead)

/-- The character at the start of the bytes, by the well-formed sequences of UTF-8, and how many
bytes after the first belong to it. -/
def leading? : List UInt8 → Option (Char × Nat)
  | [] => none
  | a :: rest =>
      if a < 0x80 then some (Char.ofNat a.toNat, 0)
      else if 0xC2 ≤ a && a ≤ 0xDF then
        match rest with
        | b :: _ => if continues b then some (assemble (a.toNat % 32) [b], 1) else none
        | _ => none
      else if 0xE0 ≤ a && a ≤ 0xEF then
        match rest with
        | b :: c :: _ =>
            if continues b && continues c && (a != 0xE0 || 0xA0 ≤ b) && (a != 0xED || b ≤ 0x9F) then
              some (assemble (a.toNat % 16) [b, c], 2)
            else none
        | _ => none
      else if 0xF0 ≤ a && a ≤ 0xF4 then
        match rest with
        | b :: c :: d :: _ =>
            if continues b && continues c && continues d &&
                (a != 0xF0 || 0x90 ≤ b) && (a != 0xF4 || b ≤ 0x8F) then
              some (assemble (a.toNat % 8) [b, c, d], 3)
            else none
        | _ => none
      else none

/-- Bytes as symbols, the first `skip` of them already taken. -/
def ofBytesAfter : (skip : Nat) → List UInt8 → Source
  | _, [] => []
  | skip + 1, _ :: rest => ofBytesAfter skip rest
  | 0, b :: rest =>
      match leading? (b :: rest) with
      | some (c, more) => .char c :: ofBytesAfter more rest
      | none => .stray b :: ofBytesAfter 0 rest

/-- Bytes as symbols. -/
def ofBytes (bytes : List UInt8) : Source := ofBytesAfter 0 bytes

/-- Space, tab, line feed and carriage return: the only blanks between tokens. -/
def isSpace (c : Char) : Bool :=
  c == ' ' || c == '\t' || c == '\n' || c == '\r'

/-- What follows the blanks. -/
def skipSpace : Source → Source
  | .char c :: rest => if isSpace c then skipSpace rest else .char c :: rest
  | source => source

/-- The source holds at least this many bytes. -/
def hasBytes (count : Nat) (source : Source) : Bool :=
  count ≤ (source.take count).foldl (fun size symbol => size + symbol.size) 0

end Source

end Wireframe.Json
