/-
JSON values.

Whole numbers that fit 64 bits, signed or unsigned, are kept as integers; all other numbers are
floats.  An object is a list of named values in the order in which it is written.

* `Json` — the values;
* `Json.insert` — adds a member to an object kept in the order of its names, replacing one of the
  same name;
* `Json.ofFloat` — a float as a value; what is not finite has no number and becomes `null`;
* `Json.find?` — the member of an object.
-/
namespace Wireframe

/-- A number of a document. -/
inductive Json.Number
  | int (value : Int)
  | float (value : Float)
deriving BEq, Repr, Inhabited

/-- A JSON value. -/
inductive Json
  | null
  | bool (value : Bool)
  | number (value : Json.Number)
  | string (value : String)
  | array (items : List Json)
  | object (members : List (String × Json))
deriving BEq, Repr, Inhabited

namespace Json

/-- Adds a member to a list kept in the order of its names; a member of the same name is replaced. -/
def insert (name : String) (value : Json) : List (String × Json) → List (String × Json)
  | [] => [(name, value)]
  | member :: rest =>
      if name < member.1 then (name, value) :: member :: rest
      else if name = member.1 then (name, value) :: rest
      else member :: insert name value rest

/-- The object of the given members in the order of their names; of two with one name the later
stays. -/
def sorted (members : List (String × Json)) : Json :=
  .object (members.foldl (fun done member => insert member.1 member.2 done) [])

/-- A float as a value. -/
def ofFloat (x : Float) : Json :=
  if x.isFinite then .number (.float x) else .null

/-- A whole number as a value. -/
def ofInt (n : Int) : Json := .number (.int n)

/-- The strings of a list as an array. -/
def ofStrings (items : List String) : Json := .array (items.map .string)

/-- The first member of an object with this name. -/
def find? (name : String) : Json → Option Json
  | .object members => members.lookup name
  | _ => none

/-- Nothing is there. -/
def isNull : Json → Bool
  | .null => true
  | _ => false

end Json

end Wireframe
