/-
Jobs.

A job is a script that may fail.  What comes after the step that failed is not done.

* `Job` — jobs;
* `attempt` — a step that the system may refuse;
* `obtain` — a script that cannot fail;
* `Job.settle` — a step that asks for nothing.
-/
import Wireframe.Failure
import Wireframe.Files.Script

namespace Wireframe

open Files

/-- A script that may fail. -/
abbrev Job := ExceptT Failure Script

/-- Asks for something that may be refused. -/
def attempt {α : Type} (script : Script (Except Fault α)) (failure : String → Failure) : Job α :=
  ExceptT.mk do
    match ← script with
    | .ok a => return .ok a
    | .error fault => return .error (failure fault.reason)

/-- Asks for something that cannot be refused. -/
def obtain {α : Type} (script : Script α) : Job α := ExceptT.lift script

/-- Goes on with a result or fails. -/
def Job.settle {α : Type} (result : Except Failure α) : Job α := ExceptT.mk (pure result)

end Wireframe
