/-
Asking a detector.

A detector looks at a sketch and answers with a text.  It may fail, and its answer may be no good; it
is then asked again, a few times.

* `instructions` — what the detector is told to do;
* `attempts` — how often it is asked;
* `detect` — the boxes of the first answer that is good enough;
* `interpretSketch` — the screen for a sketch.

Design notes:
* the detector is an action of any monad, so that the same rule serves a real one and a list of
  answers; `Detector` adds nothing to it but a name;
* which images are recognised, and what is said of the others, is up to a library.
-/
import Wireframe.App.Naming
import Wireframe.Sketch.Interpretation

namespace Wireframe.Sketch

open Design

/-- A failure of the detector itself. -/
inductive DetectorError
  /-- It cannot be reached. -/
  | unavailable (reason : String)
  /-- The file that holds its answer cannot be read. -/
  | unreadable (path reason : String)
deriving Repr, Inhabited

/-- A failure of the detector in words. -/
def DetectorError.message : DetectorError → String
  | unavailable reason => s!"detector unavailable: {reason}"
  | unreadable path reason => s!"failed to read payload file {path}: {reason}"

/-- Asks a detector once. -/
abbrev Detector (m : Type → Type _) := m (Except DetectorError String)

/-- What a detector is told to do. -/
def instructions : String :=
  "Identify every UI component drawn in this sketch. Answer with JSON only, " ++
  "shaped as \x7b\"boxes\": [\x7b\"kind\", \"text\"?, \"bb\": \x7b\"x\", \"y\", \"w\", \"h\"\x7d, " ++
  "\"headers\"?, \"rows\"?, \"items\"?, \"options\"?, \"url\"?\x7d]\x7d. " ++
  "\"bb\" is the component's bounding box in image pixels. " ++
  "\"kind\" must be one of: " ++ String.intercalate ", " (Kind.all.map Kind.tag) ++ ". " ++
  "Report every piece of text inside a Sidebar or BottomNav as its own Label."

/-- How often a detector is asked. -/
def attempts : Nat := 3

section Asking

variable {m : Type → Type _} [Monad m] (libraries : Libraries) (ask : Detector m)

/-- The boxes of an answer, or what is wrong with it in words. -/
def judge : Except DetectorError String → Except String (List DetectedBox)
  | .error e => .error e.message
  | .ok text =>
      match readPayload text with
      | .error e => .error (e.message libraries)
      | .ok boxes => .ok boxes

/-- Asks up to `left` times, `last` being what was wrong with the last answer. -/
def detectWithin (last : String) : (left : Nat) → m (Except Failure (List DetectedBox))
  | 0 => return .error (.detectionExhausted attempts last)
  | left + 1 => do
      match judge libraries (← ask) with
      | .ok boxes => return .ok boxes
      | .error reason => detectWithin reason left

/-- The boxes that a detector sees. -/
def detect : m (Except Failure (List DetectedBox)) := detectWithin libraries ask "" attempts

/-- The largest number of pixels that is told apart. -/
def pixelLimit : Nat := 4294967295

/-- The screen of a given name for a sketch; the detector is asked only if the size of the sketch is
known. -/
def interpretSketch (image : Files.Bytes) (name : String) (options : Options) :
    m (Except Failure Screen) := do
  match libraries.imageSize image with
  | .error reason => return .error (.unknownImage reason)
  | .ok (width, height) =>
      match ← detect libraries ask with
      | .error failure => return .error failure
      | .ok boxes =>
          return interpretScreen ("screen-" ++ App.routeId name) name (min width pixelLimit)
            (min height pixelLimit) boxes options

end Asking

end Wireframe.Sketch
