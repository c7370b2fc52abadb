/-
How scripts end.

A script is run by a system that replies as it likes.  The endings of a script are the results that it
can have, each with the refusals that were among the replies.

* `Request.fault?` — the refusal in a reply;
* `Ends` — the endings of a script;
* `ends_bind_iff` — endings of one script after the other;
* `Ends.of_attempt` — a step that fails was refused;
* `Ends.of_job_bind` — endings of one step after the other.
-/
import Mathlib.Data.List.Basic
import Wireframe.Files.World
import Wireframe.Job

namespace Wireframe.Files

/-! ### Replies -/

/-- The refusal in a reply, if it is one. -/
def refusalOf {α : Type} : Except Fault α → Option Fault
  | .error fault => some fault
  | .ok _ => none

/-- The refusal in a reply to a request, if it is one. -/
def Request.fault? : (request : Request) → request.Reply → Option Fault
  | .read _, reply => refusalOf reply
  | .create _, reply => refusalOf reply
  | .append _ _, reply => refusalOf reply
  | .copy _ _, reply => refusalOf reply
  | .makeDirectory _, reply => refusalOf reply
  | .entries _, reply => refusalOf reply
  | .survey _ _, reply => refusalOf reply
  | .removeFile _, reply => refusalOf reply
  | .removeDirectory _, reply => refusalOf reply
  | .send _, reply => refusalOf reply
  | .isDirectory _, _ | .isExecutable _, _ | .time, _ | .freshId, _ | .print _, _ | .report _, _ =>
      none

/-- A script has a result after some refusals. -/
inductive Ends {α : Type} : Script α → List Fault → α → Prop
  | done (result : α) : Ends (.done result) [] result
  | ask {request : Request} {next : request.Reply → Script α} (reply : request.Reply)
      {faults : List Fault} {result : α} (h : Ends (next reply) faults result) :
      Ends (.ask request next) ((request.fault? reply).toList ++ faults) result

section Scripts

variable {α β : Type}

theorem ends_done_iff {a result : α} {faults : List Fault} :
    Ends (.done a) faults result ↔ faults = [] ∧ result = a := by
  constructor
  · intro h
    cases h
    exact ⟨rfl, rfl⟩
  · rintro ⟨rfl, rfl⟩
    exact .done _

theorem ends_request_iff {request : Request} {reply : request.Reply} {faults : List Fault} :
    Ends (Script.request request) faults reply ↔ faults = (request.fault? reply).toList := by
  constructor
  · intro h
    cases h with
    | ask answer h =>
      obtain ⟨rfl, rfl⟩ := ends_done_iff.mp h
      exact List.append_nil _
  · rintro rfl
    have h := Ends.ask reply (Ends.done reply)
    rwa [List.append_nil] at h

/-- Scripts one after the other end as the second one does after the first. -/
theorem ends_bind_iff {script : Script α} {f : α → Script β} {faults : List Fault} {result : β} :
    Ends (script.bind f) faults result ↔
      ∃ a before after, Ends script before a ∧ Ends (f a) after result ∧
        faults = before ++ after := by
  induction script generalizing faults with
  | done a =>
    rw [Script.bind_done]
    constructor
    -- A script that is done has asked nothing, so all faults are those of what follows.
    · exact fun h => ⟨a, [], faults, .done a, h, rfl⟩
    · rintro ⟨b, before, after, hb, hafter, rfl⟩
      obtain ⟨rfl, rfl⟩ := ends_done_iff.mp hb
      exact hafter
  | ask request next ih =>
    rw [Script.bind_ask]
    constructor
    · intro h
      cases h with
      | ask reply h =>
        -- The fault of the first request, if there is one, goes in front of the others.
        obtain ⟨a, before, after, ha, hafter, rfl⟩ := (ih reply).mp h
        exact ⟨a, _, after, .ask reply ha, hafter, (List.append_assoc _ _ _).symm⟩
    · rintro ⟨a, before, after, ha, hafter, rfl⟩
      cases ha with
      | ask reply ha =>
        rw [List.append_assoc]
        exact .ask reply ((ih reply).mpr ⟨a, _, after, ha, hafter, rfl⟩)

/-- The script fails only with a refusal of the system. -/
def PassesOn (script : Script (Except Fault α)) : Prop :=
  ∀ faults fault, Ends script faults (.error fault) → fault ∈ faults

theorem passesOn_makeDirectory (path : String) : PassesOn (.request (.makeDirectory path)) := by
  intro faults fault h
  rw [ends_request_iff.mp h]
  exact List.mem_singleton_self fault

theorem passesOn_writeFile (path : String) (contents : Bytes) :
    PassesOn (writeFile path contents) := by
  intro faults fault h
  obtain ⟨reply, before, after, hcreate, hrest, rfl⟩ := ends_bind_iff.mp h
  cases reply with
  | error other =>
    obtain ⟨-, hsame⟩ := ends_done_iff.mp hrest
    rw [ends_request_iff.mp hcreate, Except.error.inj hsame]
    exact List.mem_append_left _ (List.mem_singleton_self other)
  | ok created =>
    rw [ends_request_iff.mp hrest]
    exact List.mem_append_right _ (List.mem_singleton_self fault)

end Scripts

end Wireframe.Files

namespace Wireframe

open Files

section Jobs

variable {α β : Type} {faults : List Fault}

/-- A step that fails was refused. -/
theorem Files.Ends.of_attempt {script : Script (Except Fault α)} {failure : String → Failure}
    {result : Except Failure α} (hscript : PassesOn script)
    (h : Ends (attempt script failure).run faults result) :
    (∃ a, result = .ok a) ∨ ∃ fault ∈ faults, result = .error (failure fault.reason) := by
  obtain ⟨reply, before, after, hreply, hrest, rfl⟩ := ends_bind_iff.mp h
  cases reply with
  | ok a => exact .inl ⟨a, (ends_done_iff.mp hrest).2⟩
  | error fault =>
    refine .inr ⟨fault, List.mem_append_left _ (hscript before fault hreply), ?_⟩
    exact (ends_done_iff.mp hrest).2

/-- After a step that failed nothing is done. -/
theorem Files.Ends.of_job_bind {job : Job α} {f : α → Job β} {result : Except Failure β}
    (h : Ends (job >>= f).run faults result) :
    (∃ a before after, Ends job.run before (.ok a) ∧ Ends (f a).run after result ∧
      faults = before ++ after) ∨
    ∃ failure, Ends job.run faults (.error failure) ∧ result = .error failure := by
  obtain ⟨reply, before, after, hjob, hrest, rfl⟩ := ends_bind_iff.mp h
  cases reply with
  | ok a => exact .inl ⟨a, before, after, hjob, hrest, rfl⟩
  | error failure =>
    obtain ⟨rfl, rfl⟩ := ends_done_iff.mp hrest
    rw [List.append_nil]
    exact .inr ⟨failure, hjob, rfl⟩

end Jobs

end Wireframe
