/-
Sizes of text on a sketch.

The size of a text is a fraction of the height of the canvas.  Where nothing is said about it, it
follows from the height of the box that the text was seen in.

* `FontPolicy.size` — the size that a policy gives to a box;
* `statedSize` — the size that is meant by a number: a fraction up to one, pixels above;
* `FontPolicy.ofJson` — the policy of a value.
-/
import Wireframe.Design.Rect
import Wireframe.Json.Decoder

namespace Wireframe.Sketch

open Json

/-- How the size of a text follows from the height of its box. -/
inductive FontPolicy
  /-- One of a few fixed sizes. -/
  | stepped
  /-- A share of the height of the box. -/
  | proportional (ratio : Float)
deriving BEq, Repr, Inhabited

/-- The greatest height in pixels for each of the fixed sizes but the largest. -/
def steps : List (Float × Float) :=
  [(24.0, 0.016), (40.0, 0.02), (64.0, 0.025), (96.0, 0.032)]

/-- The largest of the fixed sizes. -/
def largestStep : Float := 0.04

namespace FontPolicy

/-- The size of text in a box of `height` pixels on an image of `imageHeight` pixels. -/
def size (policy : FontPolicy) (height imageHeight : Float) : Float :=
  match policy with
  | stepped => ((steps.find? (height ≤ ·.1)).map (·.2)).getD largestStep
  | proportional ratio =>
      let share := ratio * height / imageHeight
      if share.isFinite then Design.clamp 0.0 1.0 share else 0.0

end FontPolicy

/-- The size of text that a number stands for. -/
def statedSize (stated imageHeight : Float) : Float :=
  if stated ≤ 1.0 then stated else Design.clamp 0.0 1.0 (stated / imageHeight)

/-! ### Policies in documents -/

/-- A policy in a document: its mode, and what else was given with it, by name or by place. -/
inductive Tagged
  | named (mode : Json) (members : List (String × Json))
  | placed (mode : Json) (items : List Json)

/-- The mode of a policy and what is given with it. -/
def asTagged : Decoder Tagged
  | .object members => do
      match ← findOnce "mode" members with
      | some mode => return .named mode (members.filter (·.1 != "mode"))
      | none => throw (.missingField "mode")
  | .array (mode :: items) => .ok (.placed mode items)
  | .array [] => .error (.missingField "mode")
  | _ => .error .invalidType

namespace FontPolicy

/-- The policy of a mode that was given with nothing else to mind. -/
def steppedOf : Tagged → Except Mismatch FontPolicy
  | .named _ _ => .ok stepped
  | .placed _ [] => .ok stepped
  | .placed _ items => .error (.invalidLength items.length)

/-- The policy of a ratio. -/
def proportionalOf : Tagged → Except Mismatch FontPolicy
  | .named _ members => do
      match ← findOnce "ratio" members with
      | some ratio => return proportional (← asFloat ratio)
      | none => throw (.missingField "ratio")
  | .placed _ [] => .error (.invalidLength 0)
  | .placed _ (ratio :: items) => do
      let ratio ← asFloat ratio
      if items.isEmpty then return proportional ratio
      else throw (.invalidLength (items.length + 1))

/-- The policy of a value. -/
def ofJson : Decoder FontPolicy := fun json => do
  let tagged ← asTagged json
  let mode := match tagged with
    | .named mode _ => mode
    | .placed mode _ => mode
  match ← asText mode with
  | "stepped" => steppedOf tagged
  | "proportional" => proportionalOf tagged
  | other => throw (.unknownVariant other)

/-- A policy as a value. -/
def toJson : FontPolicy → Json
  | stepped => .object [("mode", .string "stepped")]
  | proportional ratio => .object [("mode", .string "proportional"), ("ratio", .ofFloat ratio)]

end FontPolicy

end Wireframe.Sketch
