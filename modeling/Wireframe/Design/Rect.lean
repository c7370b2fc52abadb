/-
Rectangles.

A rectangle is given by its upper left corner and its extent, either in pixels of a sketch or in
fractions of a canvas.

* `Rect.contains` — one rectangle lies inside another, edges included;
* `Rect.toCanvas` — the fractions that a rectangle in pixels covers, cut to the canvas;
* `Rect.isOnCanvas` — fractions that stay on the canvas, up to a tolerance;
* `clamp`, `clampUnit` — numbers cut to an interval.
-/
import Wireframe.Decimal.Notation

namespace Wireframe.Design

/-- What the numbers of a rectangle measure. -/
inductive Space
  | pixel
  | canvas

/-- A rectangle: its upper left corner and its extent. -/
structure Rect (space : Space) where
  x : Float
  y : Float
  w : Float
  h : Float
deriving BEq, Repr, Inhabited

/-- `v` cut to the interval from `low` to `high`; what is not a number stays what it is. -/
def clamp (low high v : Float) : Float :=
  let v := if v < low then low else v
  if high < v then high else v

/-- `v` cut to the unit interval; what is not a number becomes zero. -/
def clampUnit (v : Float) : Float :=
  if v.isNaN then 0.0 else clamp 0.0 1.0 v

namespace Rect

variable {space : Space}

/-- The rectangle at the origin that covers nothing. -/
def empty : Rect space := ⟨0.0, 0.0, 0.0, 0.0⟩

/-- The right edge. -/
def right (r : Rect space) : Float := r.x + r.w

/-- The lower edge. -/
def bottom (r : Rect space) : Float := r.y + r.h

/-- The covered area. -/
def area (r : Rect space) : Float := r.w * r.h

/-- All four numbers are finite. -/
def isFinite (r : Rect space) : Bool :=
  r.x.isFinite && r.y.isFinite && r.w.isFinite && r.h.isFinite

/-- `inner` lies inside `outer`. -/
def contains (outer inner : Rect space) : Bool :=
  inner.x ≥ outer.x && inner.y ≥ outer.y &&
    inner.right ≤ outer.right && inner.bottom ≤ outer.bottom

/-- The fractions of an image that a rectangle in pixels covers. -/
def toCanvas (r : Rect .pixel) (width height : Float) : Rect .canvas :=
  let x := clampUnit (r.x / width)
  let y := clampUnit (r.y / height)
  let w := clamp 0.0 (1.0 - x) (r.w / width)
  let h := clamp 0.0 (1.0 - y) (r.h / height)
  ⟨x, y, w, h⟩

/-- `v` lies in the unit interval, up to a tolerance. -/
def inUnit (tolerance v : Float) : Bool := -tolerance ≤ v && v ≤ 1.0 + tolerance

/-- A rectangle stays on the canvas, up to a tolerance. -/
def isOnCanvas (r : Rect .canvas) (tolerance : Float) : Bool :=
  r.isFinite && inUnit tolerance r.x && inUnit tolerance r.y &&
    inUnit tolerance r.w && inUnit tolerance r.h &&
    r.right ≤ 1.0 + tolerance && r.bottom ≤ 1.0 + tolerance

/-- A rectangle as it is shown in messages. -/
def listing (r : Rect space) : String :=
  let number := Decimal.listedNumber.render
  "Rect \x7b x: " ++ number r.x ++ ", y: " ++ number r.y ++ ", w: " ++ number r.w ++
    ", h: " ++ number r.h ++ " \x7d"

end Rect

end Wireframe.Design
