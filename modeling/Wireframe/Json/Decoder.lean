/-
Values of a known shape.

A `Decoder` takes a value apart that has been read before.  A record is an object, whose other
members do not matter, or an array of its fields in their order, which may end early.

* `asText`, `asBool`, `asFloat`, `asList`, `nullable` — values of one kind;
* `findOnce` — a member that may be given once;
* `Fields.optional` — the fields of a record;
* `asRecord` — a record of the given fields.
-/
import Wireframe.Json.Numeral

namespace Wireframe.Json

/-- Takes a value apart. -/
abbrev Decoder (α : Type) := Json → Except Mismatch α

/-- A string. -/
def asText : Decoder String
  | .string s => .ok s
  | _ => .error .invalidType

/-- A truth value. -/
def asBool : Decoder Bool
  | .bool b => .ok b
  | _ => .error .invalidType

/-- A number, as a float. -/
def asFloat : Decoder Float
  | .number n => .ok n.toFloat
  | _ => .error .invalidType

/-- A value, or `null` for none. -/
def nullable {α : Type} (inner : Decoder α) : Decoder (Option α)
  | .null => .ok none
  | json => some <$> inner json

/-- An array of values. -/
def asList {α : Type} (item : Decoder α) : Decoder (List α)
  | .array items => items.mapM item
  | _ => .error .invalidType

/-- The member of a name, which may be given once. -/
def findOnce (name : String) (members : List (String × Json)) : Except Mismatch (Option Json) :=
  match members.filter (·.1 == name) with
  | [] => .ok none
  | [member] => .ok (some member.2)
  | _ => .error (.duplicateField name)

/-- The fields of a record as they are given. -/
structure Fields where
  given : List (String × Json)
  /-- The number of items of an array that is longer than the record. -/
  surplus : Option Nat
deriving Repr

/-- The fields of these names. -/
def fieldsOf (names : List String) : Decoder Fields
  | .object members => .ok ⟨members, none⟩
  | .array items =>
      .ok ⟨names.zip items, if names.length < items.length then some items.length else none⟩
  | _ => .error .invalidType

/-- A field that may be absent. -/
def Fields.optional {α : Type} (fields : Fields) (name : String) (decode : Decoder α)
    (default : α) : Except Mismatch α :=
  match fields.given.lookup name with
  | some json => decode json
  | none => .ok default

/-- A record of the given fields, built by `build`. -/
def asRecord {α : Type} (names : List String) (build : Fields → Except Mismatch α) : Decoder α :=
  fun json => do
    let fields ← fieldsOf names json
    let value ← build fields
    match fields.surplus with
    | some count => .error (.invalidLength count)
    | none => return value

end Wireframe.Json
