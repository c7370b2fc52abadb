/-
Strings of a document.

A string stands between quotes.  Quotes, backslashes and the characters below the space are written
with a backslash; any character may be written by its UTF-16 units in hexadecimal digits, where the
two halves of a pair must follow each other.

* `quote` — a string as it is written;
* `readString` — a string after its opening quote, and what follows it;
* `skipString` — where a string ends whose contents do not matter.

Design notes:
* `skipString` checks the shape of escapes but not what they stand for, so it passes over half
  pairs and stray bytes that `readString` refuses;
* a stray byte is reported where the string closes: an earlier fault of another kind wins.
-/
import Wireframe.Json.Source

namespace Wireframe.Json

/-- The value of a hexadecimal digit. -/
def hexValue? (c : Char) : Option Nat :=
  if '0' ≤ c ∧ c ≤ '9' then some (c.toNat - '0'.toNat)
  else if 'a' ≤ c ∧ c ≤ 'f' then some (c.toNat - 'a'.toNat + 10)
  else if 'A' ≤ c ∧ c ≤ 'F' then some (c.toNat - 'A'.toNat + 10)
  else none

/-- The value of four hexadecimal digits. -/
def unit? (a b c d : Char) : Option Nat := do
  return (((← hexValue? a) * 16 + (← hexValue? b)) * 16 + (← hexValue? c)) * 16 + (← hexValue? d)

/-- The character that one letter after a backslash stands for. -/
def escaped? : Char → Option Char
  | '"' => some '"'
  | '\\' => some '\\'
  | '/' => some '/'
  | 'b' => some '\x08'
  | 'f' => some '\x0c'
  | 'n' => some '\n'
  | 'r' => some '\r'
  | 't' => some '\t'
  | _ => none

/-- A unit that starts a pair. -/
def isHighHalf (n : Nat) : Bool := 0xD800 ≤ n && n ≤ 0xDBFF

/-- A unit that ends a pair. -/
def isLowHalf (n : Nat) : Bool := 0xDC00 ≤ n && n ≤ 0xDFFF

/-- The character of a pair of halves. -/
def joinHalves (high low : Nat) : Char :=
  Char.ofNat ((high - 0xD800) * 0x400 + (low - 0xDC00) + 0x10000)

/-- The problem of a source that does not start with four hexadecimal digits. -/
def unitProblem (source : Source) : Problem :=
  if Source.hasBytes 4 source then .malformed else .ended

/-- The problem of a source that should go on with the second half of a pair. -/
def pairProblem : Source → Problem
  | [] => .ended
  | .char '\\' :: rest =>
      match rest with
      | [] => .ended
      | .char 'u' :: rest =>
          match rest with
          | .char a :: .char b :: .char c :: .char d :: _ =>
              if (unit? a b c d).isSome then .malformed else unitProblem rest
          | _ => unitProblem rest
      | _ => .malformed
  | _ => .malformed

/-- The characters of a string after its opening quote, and what follows its closing quote. -/
def readChars : Source → Except Problem (List Char × Source)
  | [] => .error .ended
  -- octets that are no text are only noticed once the string has been read to its end
  | .stray _ :: rest =>
      match readChars rest with
      | .error problem => .error problem
      | .ok _ => .error .malformed
  | .char '"' :: rest => .ok ([], rest)
  | .char '\\' :: rest =>
      match rest with
      | [] => .error .ended
      | .stray _ :: _ => .error .malformed
      | .char 'u' :: rest =>
          match rest with
          | .char a :: .char b :: .char c :: .char d :: rest =>
              match unit? a b c d with
              | none => .error .malformed
              | some high =>
                  -- the half of a pair stands for a character only together with the other half
                  if isLowHalf high then .error .malformed
                  else if isHighHalf high then
                    match rest with
                    | .char '\\' :: .char 'u' :: .char a :: .char b :: .char c :: .char d :: more =>
                        match unit? a b c d with
                        | some low =>
                            if isLowHalf low then
                              match readChars more with
                              | .ok (chars, rest) => .ok (joinHalves high low :: chars, rest)
                              | .error problem => .error problem
                            else .error .malformed
                        | none => .error (pairProblem rest)
                    | _ => .error (pairProblem rest)
                  else
                    match readChars rest with
                    | .ok (chars, rest) => .ok (Char.ofNat high :: chars, rest)
                    | .error problem => .error problem
          | _ => .error (unitProblem rest)
      | .char e :: rest =>
          match escaped? e with
          | some c =>
              match readChars rest with
              | .ok (chars, rest) => .ok (c :: chars, rest)
              | .error problem => .error problem
          | none => .error .malformed
  | .char c :: rest =>
      if c.toNat < 0x20 then .error .malformed
      else
        match readChars rest with
        | .ok (chars, rest) => .ok (c :: chars, rest)
        | .error problem => .error problem

/-- A string after its opening quote, and what follows its closing quote. -/
def readString (source : Source) : Except Problem (String × Source) :=
  match readChars source with
  | .ok (chars, rest) => .ok (String.ofList chars, rest)
  | .error problem => .error problem

/-- What follows a string of which only the opening quote has been read. -/
def skipString : Source → Except Problem Source
  | [] => .error .ended
  | .stray _ :: rest => skipString rest
  | .char '"' :: rest => .ok rest
  | .char '\\' :: rest =>
      match rest with
      | [] => .error .ended
      | .stray _ :: _ => .error .malformed
      | .char 'u' :: rest =>
          match rest with
          | .char a :: .char b :: .char c :: .char d :: rest =>
              if (unit? a b c d).isSome then skipString rest else .error .malformed
          | _ => .error (unitProblem rest)
      | .char e :: rest => if (escaped? e).isSome then skipString rest else .error .malformed
  | .char c :: rest => if c.toNat < 0x20 then .error .malformed else skipString rest

/-- A hexadecimal digit in lower case. -/
def hexDigit (n : Nat) : Char := Nat.digitChar (n % 16)

/-- A character as it is written inside quotes. -/
def quoteChar (c : Char) : List Char :=
  match c with
  | '"' => ['\\', '"']
  | '\\' => ['\\', '\\']
  | '\x08' => ['\\', 'b']
  | '\t' => ['\\', 't']
  | '\n' => ['\\', 'n']
  | '\x0c' => ['\\', 'f']
  | '\r' => ['\\', 'r']
  | c => if c.toNat < 0x20 then ['\\', 'u', '0', '0', hexDigit (c.toNat / 16), hexDigit c.toNat]
      else [c]

/-- A string as it is written. -/
def quote (s : String) : List Char := '"' :: s.toList.flatMap quoteChar ++ ['"']

end Wireframe.Json
