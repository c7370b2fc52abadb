/-
Reading documents.

* `Runs.of_readProject` — to read the document of a design changes nothing.
-/
import Wireframe.Command.Run
import Wireframe.Proofs.Files.Refusal

namespace Wireframe

open Files World

/-- To read the document of a design changes nothing; the design that has been read is that of the
document. -/
theorem Files.World.Runs.of_readProject {libraries : Libraries} {path : String} {world after : World}
    {result : Except Failure Design.Project}
    (h : Runs (Command.readProject libraries path).run world result after) :
    after = world ∧ ∀ project, result = .ok project → ∃ contents,
      world.readFile path = .ok contents ∧ Design.Project.read (.ofBytes contents) = .ok project := by
  unfold Command.readProject at h
  obtain ⟨isDirectory, first, hfirst, hsecond⟩ | ⟨failure, rfl, hfirst⟩ := h.of_job_bind
  -- Both questions leave the world as it is, whatever the answers are.
  · obtain ⟨reply, -, hfirst⟩ := hfirst.of_obtain
    obtain rfl := (runs_request_iff.mp hfirst).eq_of_isQuestion rfl
    obtain ⟨contents, second, hread, hthird⟩ | ⟨failure, rfl, hread⟩ := hsecond.of_job_bind
    · obtain ⟨found, hfound, hread⟩ | ⟨fault, hfault, -⟩ := hread.of_attempt
      · obtain rfl := Except.ok.inj hfound
        have hgranted := runs_request_iff.mp hread
        obtain rfl := hgranted.eq_of_isQuestion rfl
        cases hproject : Design.Project.read (.ofBytes contents) with
        | ok project =>
            rw [hproject] at hthird
            obtain ⟨rfl, rfl⟩ := runs_done_iff.mp hthird
            refine ⟨rfl, fun other hother => ⟨contents, hgranted.of_read, ?_⟩⟩
            rw [hproject, Except.ok.inj hother]
        | error problem =>
            rw [hproject] at hthird
            obtain ⟨rfl, rfl⟩ := runs_done_iff.mp hthird
            exact ⟨rfl, fun project hproject => nomatch hproject⟩
      · cases hfault
    · obtain ⟨found, hfound, -⟩ | ⟨fault, -, hread⟩ := hread.of_attempt
      · cases hfound
      · obtain rfl := (runs_request_iff.mp hread).eq_of_isQuestion rfl
        exact ⟨rfl, fun project hproject => nomatch hproject⟩
  -- Asking whether something is a directory has an answer always.
  · obtain ⟨reply, hreply, -⟩ := hfirst.of_obtain
    cases hreply

end Wireframe
