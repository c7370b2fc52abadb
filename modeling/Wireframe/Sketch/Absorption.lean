/-
Labels drawn inside navigation bars.

A label that lies inside a navigation bar belongs to it: it names one of its entries, or the bar
itself.  A label inside several bars belongs to the first of them.

* `Absorption.of` — which bar takes which labels, and which labels are left;
* `readingOrder` — the order of the labels of a bar: downwards at the side, to the right at the
  bottom, labels at the same place in the order in which they were seen.

Design notes:
* places are compared by `orderKey`, the total order of floats in which `-0.0` lies below `0.0`.
-/
import Wireframe.Sketch.Payload

namespace Wireframe.Sketch

open Design

/-- The place of a float in the total order of all floats. -/
def orderKey (x : Float) : Int :=
  let bits := x.toBits.toNat
  if bits < 0x8000000000000000 then bits else 0x7FFFFFFFFFFFFFFF - (bits : Int)

/-- A box and its place in the list of boxes. -/
structure Placed where
  index : Nat
  box : DetectedBox
deriving Inhabited

/-- The boxes of a list with their places, the first of which is `index`. -/
def placedFrom (index : Nat) : List DetectedBox → List Placed
  | [] => []
  | box :: rest => ⟨index, box⟩ :: placedFrom (index + 1) rest

/-- Labels of a bar in the order in which they are read. -/
def readingOrder (bar : Kind) (labels : List Placed) : List Placed :=
  let place (label : Placed) : Int :=
    orderKey (if bar = .sidebar then label.box.bb.y else label.box.bb.x)
  labels.mergeSort fun a b => place a ≤ place b

/-- The labels that bars have taken. -/
structure Absorption where
  /-- The labels of each bar that has any, by the place of the bar. -/
  taken : List (Nat × List Placed)
  /-- The labels that no bar has taken. -/
  left : List Placed

namespace Absorption

/-- Lets each bar take its labels from those that are left. -/
def step (bars : List Placed) (labels : List Placed) : Absorption :=
  match bars with
  | [] => ⟨[], labels⟩
  | bar :: bars =>
      let (inside, outside) := labels.partition fun label => bar.box.bb.contains label.box.bb
      let rest := step bars outside
      if inside.isEmpty then rest
      else { rest with taken := (bar.index, readingOrder bar.box.kind inside) :: rest.taken }

/-- The labels that the bars among the boxes take. -/
def of (boxes : List DetectedBox) : Absorption :=
  let placed := placedFrom 0 boxes
  step (placed.filter (·.box.kind.isOverlay)) (placed.filter (·.box.kind = .label))

/-- The labels that the bar at a place has taken, if any. -/
def takenBy? (absorption : Absorption) (index : Nat) : Option (List Placed) :=
  absorption.taken.lookup index

/-- The box at a place has been taken by a bar. -/
def hasTaken (absorption : Absorption) (index : Nat) : Bool :=
  absorption.taken.any fun (_, labels) => labels.any (·.index == index)

end Absorption

end Wireframe.Sketch
