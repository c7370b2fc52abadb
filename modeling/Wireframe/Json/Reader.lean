/-
Reading documents of a known shape.

A `Reader` reads one value from the left and stops at the first problem.  Records are read member by
member into a draft, so that a repeated member is refused before its value is looked at, and what is
missing is found at the end.  A record may also be written as an array of its fields.

* `readValue` — any value, members of objects in the order of their names, the last of one name
  kept;
* `skipValue` — passes over a value without taking it in;
* `readText`, `readFloat`, `readInt32`, `optional`, `listOf` — values of one kind;
* `record` — a record given by its fields;
* `readDocument` — a whole document.

Design notes:
* `room` counts how many arrays and objects may still be opened; a value that is skipped has no
  such bound;
* loops over members run on fuel, one unit for each symbol left, and every round takes at least
  one symbol, so the fuel is never used up.
-/
import Wireframe.Json.Numeral
import Wireframe.Json.Quoted

namespace Wireframe.Json

/-- Reads one value; `room` more arrays and objects may be opened on the way. -/
abbrev Reader (α : Type) := (room : Nat) → Source → Except Problem (α × Source)

/-- The rest of a word of which the first letter has been read. -/
def expectWord : List Char → Source → Except Problem Source
  | [], source => .ok source
  | _ :: _, [] => .error .ended
  | c :: word, .char d :: rest => if c = d then expectWord word rest else .error .malformed
  | _ :: _, .stray _ :: _ => .error .malformed

/-- A character that starts a number. -/
def startsNumber (c : Char) : Bool := c == '-' || c.isDigit

/-- The problem of a value that is not of the kind that is needed here: the value itself may be
malformed, or else its kind is wrong. -/
def wrongKind (source : Source) : Problem :=
  let wrong : Problem := .mismatch .invalidType
  let judge {α : Type} (result : Except Problem α) : Problem :=
    match result with
    | .error problem => problem
    | .ok _ => wrong
  match Source.skipSpace source with
  | [] => .ended
  | .stray _ :: _ => .malformed
  | .char c :: rest =>
      if c = 'n' then judge (expectWord ['u', 'l', 'l'] rest)
      else if c = 't' then judge (expectWord ['r', 'u', 'e'] rest)
      else if c = 'f' then judge (expectWord ['a', 'l', 's', 'e'] rest)
      else if startsNumber c then judge (readNumber (.char c :: rest))
      else if c = '"' then judge (readString rest)
      else if c = '[' ∨ c = '\x7b' then wrong
      else .malformed

/-- A string. -/
def readText : Reader String := fun _ source =>
  match Source.skipSpace source with
  | .char '"' :: rest => readString rest
  | rest => .error (wrongKind rest)

/-- A number of any kind. -/
def readAnyNumber : Reader Number := fun _ source =>
  match Source.skipSpace source with
  | .char c :: rest =>
      if startsNumber c then readNumber (.char c :: rest)
      else .error (wrongKind (.char c :: rest))
  | rest => .error (wrongKind rest)

/-- A number, as a float. -/
def readFloat : Reader Float := fun room source => do
  let (n, rest) ← readAnyNumber room source
  return (n.toFloat, rest)

/-- An integer of 32 bits, written without point and power of ten. -/
def readInt32 : Reader Int32 := fun room source => do
  match ← readAnyNumber room source with
  | (.float _, _) => .error (.mismatch .invalidType)
  | (.int n, rest) =>
      if -0x80000000 ≤ n ∧ n ≤ 0x7FFFFFFF then return (Int32.ofInt n, rest)
      else .error (.mismatch .invalidValue)

/-- A value, or `null` for none. -/
def optional {α : Type} (inner : Reader α) : Reader (Option α) := fun room source =>
  match Source.skipSpace source with
  | .char 'n' :: rest => do return (none, ← expectWord ['u', 'l', 'l'] rest)
  | rest => do
      let (value, rest) ← inner room rest
      return (some value, rest)

/-! ### Items of an array -/

/-- Where a container goes on: with something more, or after its end. -/
inductive Onward (α : Type)
  | more (next : α) (rest : Source)
  | done (rest : Source)

/-- Whether another item follows in an array; `first` tells that none has been read. -/
def nextItem (first : Bool) (source : Source) : Except Problem (Onward Unit) :=
  match Source.skipSpace source with
  | [] => .error .ended
  | .char c :: rest =>
      if c = ']' then .ok (.done rest)
      else if first then .ok (.more () (.char c :: rest))
      else if c = ',' then
        match Source.skipSpace rest with
        | [] => .error .ended
        | .char ']' :: _ => .error .malformed
        | rest => .ok (.more () rest)
      else .error .malformed
  | rest => if first then .ok (.more () rest) else .error .malformed

/-- The closing bracket of an array. -/
def closeArray (source : Source) : Except Problem Source :=
  match Source.skipSpace source with
  | [] => .error .ended
  | .char ']' :: rest => .ok rest
  | _ => .error .malformed

/-- The items of an array up to its closing bracket. -/
def readItems {α : Type} (item : Source → Except Problem (α × Source)) (first : Bool) :
    (fuel : Nat) → Source → Except Problem (List α × Source)
  | 0, _ => .error .malformed
  | fuel + 1, source => do
      match ← nextItem first source with
      | .done rest => return ([], rest)
      | .more _ rest =>
          let (value, rest) ← item rest
          let (values, rest) ← readItems item false fuel rest
          return (value :: values, rest)

/-- A list, written as an array. -/
def listOf {α : Type} (item : Reader α) : Reader (List α) := fun room source =>
  match Source.skipSpace source with
  | .char '[' :: rest =>
      match room with
      | 0 => .error .malformed
      | room + 1 => readItems (item room) true (rest.length + 1) rest
  | rest => .error (wrongKind rest)

/-! ### Members of an object -/

/-- The name of a member. -/
def nameAt : Source → Except Problem (Onward String)
  | [] => .error .ended
  | .char '"' :: rest => do
      let (name, rest) ← readString rest
      return .more name rest
  | _ => .error .malformed

/-- Whether another member follows in an object, and its name. -/
def nextName (first : Bool) (source : Source) : Except Problem (Onward String) :=
  match Source.skipSpace source with
  | [] => .error .ended
  | .char c :: rest =>
      if c = '\x7d' then .ok (.done rest)
      else if first then nameAt (.char c :: rest)
      else if c = ',' then nameAt (Source.skipSpace rest)
      else .error .malformed
  | _ => .error .malformed

/-- The colon between a name and its value. -/
def expectColon (source : Source) : Except Problem Source :=
  match Source.skipSpace source with
  | [] => .error .ended
  | .char ':' :: rest => .ok rest
  | _ => .error .malformed

/-- The members of an object up to its closing brace. -/
def readMembers {α : Type} (value : Source → Except Problem (α × Source)) (first : Bool) :
    (fuel : Nat) → Source → Except Problem (List (String × α) × Source)
  | 0, _ => .error .malformed
  | fuel + 1, source => do
      match ← nextName first source with
      | .done rest => return ([], rest)
      | .more name rest =>
          let rest ← expectColon rest
          let (a, rest) ← value rest
          let (members, rest) ← readMembers value false fuel rest
          return ((name, a) :: members, rest)

/-! ### Values of any kind -/

/-- A value whose items and members are read by `inner`; without `inner` no array or object may be
opened. -/
def readValueWith (inner : Option (Source → Except Problem (Json × Source))) (source : Source) :
    Except Problem (Json × Source) :=
  match Source.skipSpace source with
  | [] => .error .ended
  | .stray _ :: _ => .error .malformed
  | .char c :: rest =>
      if c = 'n' then do return (.null, ← expectWord ['u', 'l', 'l'] rest)
      else if c = 't' then do return (.bool true, ← expectWord ['r', 'u', 'e'] rest)
      else if c = 'f' then do return (.bool false, ← expectWord ['a', 'l', 's', 'e'] rest)
      else if startsNumber c then do
        let (n, rest) ← readNumber (.char c :: rest)
        return (.number n, rest)
      else if c = '"' then do
        let (text, rest) ← readString rest
        return (.string text, rest)
      else if c = '[' then
        match inner with
        | none => .error .malformed
        | some inner => do
            let (items, rest) ← readItems inner true (rest.length + 1) rest
            return (.array items, rest)
      else if c = '\x7b' then
        match inner with
        | none => .error .malformed
        | some inner => do
            let (members, rest) ← readMembers inner true (rest.length + 1) rest
            return (.sorted members, rest)
      else .error .malformed

/-- Any value. -/
def readValue : Reader Json
  | 0 => readValueWith none
  | room + 1 => readValueWith (some (readValue room))

/-! ### Values that are passed over -/

/-- A container that is open while values are passed over. -/
inductive Opened
  | array
  | object
deriving DecidableEq

/-- What to look for next while values are passed over. -/
inductive Expectation
  /-- A value. -/
  | value
  /-- The first item or member of the innermost container, or its end. -/
  | start
  /-- A comma or the end of the innermost container. -/
  | comma
deriving DecidableEq

/-- A number whose value does not matter; whatever is wrong with it, it is malformed. -/
def skipNumber (source : Source) : Except Problem Source :=
  match Numeral.read source with
  | .ok (_, rest) => .ok rest
  | .error _ => .error .malformed

/-- The name of a member and its colon. -/
def skipName (source : Source) : Except Problem Source :=
  match Source.skipSpace source with
  | [] => .error .ended
  | .char '"' :: rest => do expectColon (← skipString rest)
  | _ => .error .malformed

/-- Passes over what is expected, with the containers in `opened` still to be closed. -/
def skipFrom : (fuel : Nat) → List Opened → Expectation → Source → Except Problem Source
  | 0, _, _, _ => .error .malformed
  -- nothing is open any more, so the value has been passed over
  | _ + 1, [], .start, source => .ok source
  | _ + 1, [], .comma, source => .ok source
  | fuel + 1, opened, .value, source =>
      match Source.skipSpace source with
      | [] => .error .ended
      | .stray _ :: _ => .error .malformed
      | .char c :: rest =>
          if c = 'n' then do skipFrom fuel opened .comma (← expectWord ['u', 'l', 'l'] rest)
          else if c = 't' then do skipFrom fuel opened .comma (← expectWord ['r', 'u', 'e'] rest)
          else if c = 'f' then do
            skipFrom fuel opened .comma (← expectWord ['a', 'l', 's', 'e'] rest)
          else if startsNumber c then do
            skipFrom fuel opened .comma (← skipNumber (.char c :: rest))
          else if c = '"' then do skipFrom fuel opened .comma (← skipString rest)
          else if c = '[' then skipFrom fuel (.array :: opened) .start rest
          else if c = '\x7b' then skipFrom fuel (.object :: opened) .start rest
          else .error .malformed
  | fuel + 1, innermost :: opened, expectation, source =>
      match Source.skipSpace source with
      | [] => .error .ended
      | .stray _ :: _ => .error .malformed
      | .char c :: rest =>
          -- the next item, or the next member with its name in front
          let next (source : Source) : Except Problem Source :=
            match innermost with
            | .array => skipFrom fuel (.array :: opened) .value source
            | .object => do skipFrom fuel (.object :: opened) .value (← skipName source)
          if c = ']' ∧ innermost = .array ∨ c = '\x7d' ∧ innermost = .object then
            skipFrom fuel opened .comma rest
          else if expectation = .start then next (.char c :: rest)
          else if c = ',' then next rest
          else .error .malformed

/-- What follows a value. -/
def skipValue (source : Source) : Except Problem Source :=
  skipFrom (2 * source.length + 2) [] .value source

/-! ### Records -/

/-- A field of a record that is read into drafts of type `δ`. -/
structure RecordField (δ : Type) where
  name : String
  /-- Without a value for it there is no record. -/
  required : Bool
  /-- The draft has a value for it. -/
  filled : δ → Bool
  /-- Reads a value for it into the draft. -/
  fill : δ → Reader δ

/-- The fields of a record written as an array, `count` of them read before. -/
def readPositional {δ : Type} (room : Nat) :
    (fields : List (RecordField δ)) → (count : Nat) → δ → Source → Except Problem (δ × Source)
  | [], _, draft, source => do return (draft, ← closeArray source)
  | field :: fields, count, draft, source => do
      match ← nextItem (count == 0) source with
      | .more _ rest =>
          let (draft, rest) ← field.fill draft room rest
          readPositional room fields (count + 1) draft rest
      | .done rest =>
          if (field :: fields).any (·.required) then
            .error (.mismatch (.invalidLength count))
          else return (draft, rest)

/-- The first required field that a draft has no value for. -/
def missing? {δ : Type} (fields : List (RecordField δ)) (draft : δ) : Option String :=
  (fields.find? fun field => field.required && !field.filled draft).map (·.name)

/-- The members of a record; those that are no field of it are passed over. -/
def readNamed {δ : Type} (room : Nat) (fields : List (RecordField δ)) (first : Bool) :
    (fuel : Nat) → δ → Source → Except Problem (δ × Source)
  | 0, _, _ => .error .malformed
  | fuel + 1, draft, source => do
      match ← nextName first source with
      | .done rest =>
          match missing? fields draft with
          | some name => .error (.mismatch (.missingField name))
          | none => return (draft, rest)
      | .more name rest =>
          match fields.find? (·.name == name) with
          | some field =>
              if field.filled draft then .error (.mismatch (.duplicateField name))
              else
                let rest ← expectColon rest
                let (draft, rest) ← field.fill draft room rest
                readNamed room fields false fuel draft rest
          -- the value of a member that is no field is not read, so it may be nested deeply
          | none =>
              let rest ← expectColon rest
              let rest ← skipValue rest
              readNamed room fields false fuel draft rest

/-- A record with these fields, read into a draft that starts empty. -/
def record {δ : Type} (fields : List (RecordField δ)) (empty : δ) : Reader δ := fun room source =>
  match Source.skipSpace source with
  | .char '[' :: rest =>
      match room with
      | 0 => .error .malformed
      | room + 1 => readPositional room fields 0 empty rest
  | .char '\x7b' :: rest =>
      match room with
      | 0 => .error .malformed
      | room + 1 => readNamed room fields true (rest.length + 1) empty rest
  | rest => .error (wrongKind rest)

/-- How deeply arrays and objects may be nested. -/
def nestingLimit : Nat := 127

/-- A document that holds one value and nothing else. -/
def readDocument {α : Type} (reader : Reader α) (source : Source) : Except Problem α := do
  let (value, rest) ← reader nestingLimit source
  match Source.skipSpace rest with
  | [] => return value
  | _ => .error .malformed

end Wireframe.Json
