/-
Nodes.

In a document as it is written, a node may be a reference to another one.  A node has no references:
each of them is replaced by the node that it is meant for.

* `Node` — the nodes of a document;
* `Written.resolve?` — a node as it is written without its references;
* `Node.given?` — a node that may stand for nothing;
* `Node.value?` — the value that a node stands for;
* `readDocument?` — the root of the only document of a text.

Design notes:
* of the nodes that share a number, references are meant for the one that begins last;
* a node within itself, or too many references, would make a document too large: so the depth is
  limited to `depthLimit`, and the number of references to `repetitionLimit` for each part of the
  document.
-/
import Wireframe.Yaml.Value
import Wireframe.Yaml.Written

namespace Wireframe.Yaml

/-- A value of a document. -/
inductive Node
  /-- A text; `plain` if it stands without quotes. -/
  | scalar (tag : Option String) (plain : Bool) (text : String)
  | sequence (tag : Option String) (items : List Node)
  | mapping (tag : Option String) (entries : List (Node × Node))
deriving Repr, Inhabited

/-! ### References -/

namespace Written

/-- The properties of a node; a reference has none. -/
def properties : Written → Properties
  | reference _ => {}
  | scalar properties _ _ => properties
  | sequence properties _ => properties
  | mapping properties _ => properties

mutual

/-- The nodes within a node and itself, in the order in which they begin. -/
def parts (written : Written) : List Written :=
  match written with
  | reference _ => [written]
  | scalar _ _ _ => [written]
  | sequence _ items => written :: partsOfItems items
  | mapping _ entries => written :: partsOfEntries entries

/-- The nodes within items. -/
def partsOfItems : List Written → List Written
  | [] => []
  | item :: rest => item.parts ++ partsOfItems rest

/-- The nodes within entries. -/
def partsOfEntries : List (Written × Written) → List Written
  | [] => []
  | (key, value) :: rest => key.parts ++ value.parts ++ partsOfEntries rest

end

/-- The nodes with numbers, the one that begins last first. -/
def numbered (parts : List Written) : List (Nat × Written) :=
  (parts.filterMap fun part => part.properties.anchor.map fun number => (number, part)).reverse

/-- The marks of a node in a row of nodes: a collection has one at its end, too. -/
def marks : Written → Nat
  | reference _ => 1
  | scalar _ _ _ => 1
  | sequence _ _ => 2
  | mapping _ _ => 2

/-- How deep sequences and mappings may nest. -/
def depthLimit : Nat := 128

/-- How many references may be followed for each mark of a document. -/
def repetitionLimit : Nat := 100

/-- The node itself, or the one that a reference is meant for; the state is the number of references
that may still be followed. -/
def follow (targets : List (Nat × Written)) (written : Written) : StateT Nat Option Written := do
  match written with
  | reference number =>
      match ← get with
      | 0 => failure
      | left + 1 =>
          set left
          match targets.lookup number with
          | some target => return target
          | none => failure
  | written => return written

/-- A node without its references, which may be `depth` collections deep. -/
def expand (targets : List (Nat × Written)) : (depth : Nat) → Written → StateT Nat Option Node
  | 0, written => do
      match ← follow targets written with
      | scalar properties plain text => return .scalar properties.tag plain text
      | _ => failure
  | depth + 1, written => do
      match ← follow targets written with
      | scalar properties plain text => return .scalar properties.tag plain text
      | sequence properties items =>
          return .sequence properties.tag (← items.mapM (expand targets depth))
      | mapping properties entries =>
          return .mapping properties.tag (← entries.mapM fun (key, value) => do
            return (← expand targets depth key, ← expand targets depth value))
      | reference _ => failure

/-- A node without its references. -/
def resolve? (written : Written) : Option Node := do
  let parts := written.parts
  let marks := parts.foldl (fun n part => n + part.marks) 0
  let (node, _) ← (expand (numbered parts) depthLimit written).run (marks * repetitionLimit)
  return node

end Written

/-! ### Values -/

namespace Node

/-- The text of a scalar. -/
def text? : Node → Option String
  | scalar _ _ text => some text
  | _ => none

/-- A node that may stand for nothing; one that is tagged as nothing must. -/
def given? (node : Node) : Option (Option Node) :=
  match node with
  | scalar none true text => some (if text = "" ∨ isNullWord text then none else some node)
  | scalar (some tag) true text =>
      if tag = coreTag "null" then if isNullWord text then some none else none
      else some (some node)
  | _ => some (some node)

/-- A collection with this tag has a value. -/
def mayHold (tag : Option String) : Bool := (tag.bind localName?).isNone

mutual

/-- The value that a node stands for, if it has one. -/
def value? : Node → Option Value
  | scalar tag plain text => scalarValue? tag plain text
  | sequence tag items =>
      if mayHold tag then (valuesOf? items).map .sequence else none
  | mapping tag entries =>
      if mayHold tag then (entriesOf? entries).map .mapping else none

/-- The values of items. -/
def valuesOf? : List Node → Option (List Value)
  | [] => some []
  | item :: rest => do return (← item.value?) :: (← valuesOf? rest)

/-- The values of entries. -/
def entriesOf? : List (Node × Node) → Option (List (Value × Value))
  | [] => some []
  | (key, value) :: rest => do
      return (← key.value?, ← value.value?) :: (← entriesOf? rest)

end

end Node

/-! ### Documents -/

/-- The root of the only document of a text; nothing if the text holds none. -/
def readDocument? (text : String) : Option (Option Node) := do
  match ← Written.ofTokens? (← tokens? text) with
  | none => return none
  | some written => return some (← written.resolve?)

end Wireframe.Yaml
