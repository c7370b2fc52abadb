/-
Values as text.

* `Json.pretty` — one item or member a line, indented by two spaces for each level; empty arrays
  and objects on one line;
* `Json.compact` — everything on one line.
-/
import Wireframe.Decimal.Notation
import Wireframe.Json.Quoted
import Wireframe.Json.Value

namespace Wireframe.Json

/-- A number as it is written. -/
def Number.text : Number → List Char
  | .int n => (toString n).toList
  | .float x => (Decimal.documentNumber.render x).toList

/-- A line break and the indentation of a level. -/
def newLine (level : Nat) : List Char := '\n' :: List.replicate (2 * level) ' '

mutual

/-- A value whose first line is already indented to the given level. -/
def writePretty (level : Nat) : Json → List Char
  | .null => ['n', 'u', 'l', 'l']
  | .bool true => ['t', 'r', 'u', 'e']
  | .bool false => ['f', 'a', 'l', 's', 'e']
  | .number n => n.text
  | .string s => quote s
  | .array [] => ['[', ']']
  | .array (item :: items) =>
      '[' :: newLine (level + 1) ++ writePretty (level + 1) item ++
        writeItems (level + 1) items ++ newLine level ++ [']']
  | .object [] => ['\x7b', '\x7d']
  | .object ((name, value) :: members) =>
      '\x7b' :: newLine (level + 1) ++ quote name ++ ':' :: ' ' :: writePretty (level + 1) value ++
        writeMembers (level + 1) members ++ newLine level ++ ['\x7d']

/-- The items after the first. -/
def writeItems (level : Nat) : List Json → List Char
  | [] => []
  | item :: items => ',' :: newLine level ++ writePretty level item ++ writeItems level items

/-- The members after the first. -/
def writeMembers (level : Nat) : List (String × Json) → List Char
  | [] => []
  | (name, value) :: members =>
      ',' :: newLine level ++ quote name ++ ':' :: ' ' :: writePretty level value ++
        writeMembers level members

end

/-- A value on several lines. -/
def pretty (json : Json) : String := String.ofList (writePretty 0 json)

mutual

/-- A value on one line. -/
def writeCompact : Json → List Char
  | .null => ['n', 'u', 'l', 'l']
  | .bool true => ['t', 'r', 'u', 'e']
  | .bool false => ['f', 'a', 'l', 's', 'e']
  | .number n => n.text
  | .string s => quote s
  | .array [] => ['[', ']']
  | .array (item :: items) => '[' :: writeCompact item ++ compactItems items ++ [']']
  | .object [] => ['\x7b', '\x7d']
  | .object ((name, value) :: members) =>
      '\x7b' :: quote name ++ ':' :: writeCompact value ++ compactMembers members ++ ['\x7d']

/-- The items after the first. -/
def compactItems : List Json → List Char
  | [] => []
  | item :: items => ',' :: writeCompact item ++ compactItems items

/-- The members after the first. -/
def compactMembers : List (String × Json) → List Char
  | [] => []
  | (name, value) :: members =>
      ',' :: quote name ++ ':' :: writeCompact value ++ compactMembers members

end

/-- A value on one line. -/
def compact (json : Json) : String := String.ofList (writeCompact json)

end Wireframe.Json
