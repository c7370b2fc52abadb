/-
What can go wrong.

Every operation of the library that can fail says why in one type.  Each failure belongs to one
category, by which callers and the exit code of the program tell failures apart.

* `Failure` — the causes;
* `Failure.category`, `Category.exitCode` — what they are taken for;
* `Failure.message` — a failure in words.
-/
import Wireframe.Review.Report

namespace Wireframe

/-- What a failure is taken for. -/
inductive Category
  /-- The design or the request makes no sense. -/
  | inputValidation
  /-- A sketch could not be read. -/
  | interpretation
  /-- Something that generating code needs is missing. -/
  | generation
  /-- Writing files or an archive failed. -/
  | packaging
deriving DecidableEq, Repr, Inhabited

namespace Category

/-- The name of a category. -/
def name : Category → String
  | inputValidation => "input_validation"
  | interpretation => "interpretation"
  | generation => "generation"
  | packaging => "packaging"

/-- The exit code of the program. -/
def exitCode : Category → Nat
  | inputValidation => 2
  | interpretation => 3
  | generation => 4
  | packaging => 5

end Category

/-- Why an operation failed.  Paths are as they were given; a `reason` is in the words of the system or
of the library that refused. -/
inductive Failure
  /-- There is nothing to generate. -/
  | noScreens
  /-- The design has faults that leave no app to generate. -/
  | rejected (report : Review.Report)
  /-- A sketch without width or without height. -/
  | emptySketch (width height : Nat)
  /-- Nothing tells how large the sketch is. -/
  | unknownSize
  /-- The image of a sketch cannot be read, or its size is not known. -/
  | unknownImage (reason : String)
  /-- A sketch on which nothing was seen. -/
  | noBoxes
  /-- The detector gave no usable answer; `last` is what was wrong with the last one. -/
  | detectionExhausted (attempts : Nat) (last : String)
  /-- The name of a new screen is in the way of one that exists. -/
  | screenExists (name : String)
  /-- Nothing tells where the skeleton is. -/
  | noSkeletonGiven
  /-- There is no skeleton at the path. -/
  | missingSkeleton (path : String)
  /-- The document at the path cannot be read. -/
  | unreadableDocument (path reason : String)
  /-- What is at the path is no design. -/
  | badDocument (path reason : String)
  /-- The document at the path cannot be written. -/
  | unwritableDocument (path reason : String)
  /-- The settings at the path cannot be read or are none. -/
  | badSettings (path reason : String)
  /-- Files cannot be written, or what is to go into an archive. -/
  | packaging (path reason : String)
  /-- The archive itself cannot be written. -/
  | archive (reason : String)
deriving Repr, Inhabited

namespace Failure

/-- What a failure is taken for. -/
def category : Failure → Category
  | noScreens | rejected _ | emptySketch _ _ | unknownSize | screenExists _ | noSkeletonGiven |
    badDocument _ _ | badSettings _ _ => .inputValidation
  | unknownImage _ | noBoxes | detectionExhausted _ _ => .interpretation
  | missingSkeleton _ | unreadableDocument _ _ | unwritableDocument _ _ => .generation
  | packaging _ _ | archive _ => .packaging

/-- A request that makes no sense, in words. -/
def invalidInput (what : String) : String := "Invalid input: " ++ what

/-- A failure in words. -/
def message : Failure → String
  | noScreens => "Project has no screens"
  | rejected report =>
      s!"Validation failed with {report.errorCount} error(s) and " ++
        s!"{report.warningCount} warning(s)"
  | emptySketch width height =>
      invalidInput s!"image dimensions must be positive, got {width}x{height}"
  | unknownSize => invalidInput "either --image or both --width and --height are required"
  | unknownImage reason => s!"Failed to read sketch image: {reason}"
  | noBoxes => "Detector returned no boxes"
  | detectionExhausted attempts last =>
      s!"Detector payload unusable after {attempts} attempt(s): {last}"
  | screenExists name => invalidInput s!"project already has a screen named '{name}'"
  | noSkeletonGiven =>
      invalidInput
        "no skeleton dir given (use --skeleton, SKETCHPORT_SKELETON or skeleton_dir)"
  | missingSkeleton path => s!"Project skeleton not found at {path}"
  | unreadableDocument path reason => s!"Failed to read project document {path}: {reason}"
  | badDocument path reason => s!"Failed to parse project JSON from {path}: {reason}"
  | unwritableDocument path reason => s!"Failed to write project document {path}: {reason}"
  | badSettings path reason => s!"Failed to read config file {path}: {reason}"
  | packaging path reason => s!"Failed to package export at {path}: {reason}"
  | archive reason => s!"Failed to write archive: {reason}"

end Failure

end Wireframe
