/-
Plain libraries.

The libraries that the program is run with where there are no others.  They recognise the images of
three formats, find few words, and write archives without compressing anything.

* `ImageFormat` — a format of images, in which the size stands at a fixed place;
* `Libraries.plain` — the libraries.

Design notes:
* sizes stand where the formats PNG, GIF and BMP have them: in the header chunk, in the screen
  descriptor, and in the information header;
* no theorem is about these libraries alone, apart from witnesses.
-/
import Wireframe.Export.StoredArchive
import Wireframe.Libraries
import Wireframe.Sketch.Payload

namespace Wireframe

/-! ### Images -/

/-- An image format in which the size stands at a fixed place. -/
structure ImageFormat where
  /-- The first bytes of every image. -/
  signature : List UInt8
  /-- The place of the width, right before the height. -/
  place : Nat
  /-- The number of bytes of each of the two. -/
  size : Nat
  /-- The most significant byte comes first. -/
  bigEndian : Bool

namespace ImageFormat

/-- Portable network graphics. -/
def png : ImageFormat := ⟨[0x89, 0x50, 0x4E, 0x47, 0x0D, 0x0A, 0x1A, 0x0A], 16, 4, true⟩

/-- Graphics interchange format. -/
def gif : ImageFormat := ⟨[0x47, 0x49, 0x46, 0x38], 6, 2, false⟩

/-- Bitmaps. -/
def bmp : ImageFormat := ⟨[0x42, 0x4D], 18, 4, false⟩

/-- A number of some bytes, the most significant first. -/
def numberOf (bytes : List UInt8) : Nat := bytes.foldl (fun n b => n * 256 + b.toNat) 0

/-- The number at a place. -/
def numberAt? (format : ImageFormat) (place : Nat) (bytes : List UInt8) : Option Nat :=
  let digits := (bytes.drop place).take format.size
  if digits.length = format.size then
    some (numberOf (if format.bigEndian then digits else digits.reverse))
  else none

/-- Width and height of an image of this format. -/
def size? (format : ImageFormat) (bytes : List UInt8) : Option (Nat × Nat) := do
  let width ← format.numberAt? format.place bytes
  let height ← format.numberAt? (format.place + format.size) bytes
  return (width, height)

end ImageFormat

/-- No image is shorter than this. -/
def leastImage : Nat := 12

/-- Width and height of an image. -/
def imageSize? (bytes : List UInt8) : Option (Nat × Nat) :=
  if bytes.length < leastImage then none
  else do
    let format ← [ImageFormat.png, .gif, .bmp].find? (·.signature.isPrefixOf bytes)
    format.size? bytes

/-! ### Words -/

/-- The words for what is wrong with a text. -/
def Json.Problem.words : Json.Problem → String
  | .ended => "EOF while parsing a value"
  | .malformed => "expected value"
  | .mismatch reason => reason.summary

/-- The words for what has been found wrong, if anything has. -/
def Json.wordsFor {α : Type} : Except Json.Problem α → String
  | .ok _ => ""
  | .error problem => problem.words

/-! ### Libraries -/

/-- The libraries that the program is run with where there are no others. -/
def Libraries.plain : Libraries where
  imageSize := fun image =>
    match imageSize? image with
    | some size => .ok size
    | none => .error "Could not determine image type"
  answerRefusal := fun given =>
    Json.wordsFor (Json.readDocument Sketch.readBoxes (.ofString given))
  documentRefusal := fun bytes => Json.wordsFor (Design.Project.read (.ofBytes bytes))
  settingsRefusal := fun _ => "invalid settings"
  archiver := Export.Archive.stored

end Wireframe
