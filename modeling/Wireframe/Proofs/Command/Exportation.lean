/-
Exports to a file.

The file that an export writes is made before it is known whether there is anything to export, and if
the export fails it is taken away again.

* `Runs.of_exportTo` — how an export to a file ends;
* `Exportation.ComesTo` — what is known when a command comes to its output;
* `Exportation.readFile_of_failure` — there is no file at the output after a failure, unless the command
  failed before it came to the output;
* `Exportation.readFile_lost_withoutSkeleton` — not even the file that was there before.
-/
import Wireframe.PlainLibraries
import Wireframe.Proofs.Command.Reading
import Wireframe.Proofs.Files.Removal

namespace Wireframe

open Files World

section Exportation

variable {libraries : Libraries} {world after : World} {failure : Failure}

/-- What is shown is shown. -/
theorem Files.World.Runs.of_display {text : String} {result : Except Failure Unit}
    (h : Runs (Command.display text).run world result after) : result = .ok () := by
  obtain ⟨shown, hshown, -⟩ := h.of_obtain
  exact hshown

/-- An export to a file fails if the file cannot be made, or if the export itself fails; in the latter
case the file is taken away. -/
theorem Files.World.Runs.of_exportTo {output : String} {project : Design.Project}
    {options : Export.Options}
    (h : Runs (Command.exportTo libraries output project options).run world (.error failure) after) :
    Leaves world (.create output) after ∨
      ∃ made between, world.createFile output = .ok made ∧
        Runs ((Export.exportProject libraries.archiver project options).sendTo output) made
          (.error failure) between ∧
        after = (between.reply (.removeFile output)).2 := by
  unfold Command.exportTo at h
  -- The output is made first: if that fails, there is nothing else.
  obtain ⟨created, made, hcreate, h⟩ | ⟨other, hfailure, hcreate⟩ := h.of_job_bind
  · obtain ⟨_, -, hcreate⟩ | ⟨fault, hfault, -⟩ := hcreate.of_attempt
    · refine .inr ?_
      obtain ⟨result, between, hexport, h⟩ | ⟨other, -, hexport⟩ := h.of_job_bind
      · obtain ⟨answer, hanswer, hexport⟩ := hexport.of_obtain
        obtain rfl := Except.ok.inj hanswer
        cases result with
        | ok summary =>
            obtain ⟨hresult, -⟩ := runs_done_iff.mp h
            cases hresult
        -- The export failed, so what it was to be sent to is removed.
        | error other =>
            obtain ⟨reply, last, hremove, h⟩ | ⟨third, -, hremove⟩ := h.of_job_bind
            · obtain ⟨hfailure, rfl⟩ := runs_done_iff.mp h
              obtain rfl := Except.error.inj hfailure
              obtain ⟨answer, -, hremove⟩ := hremove.of_obtain
              exact ⟨made, between, (runs_request_iff.mp hcreate).of_create, hexport,
                (runs_request_iff.mp hremove).of_isRemoval rfl⟩
            · obtain ⟨answer, hanswer, -⟩ := hremove.of_obtain
              cases hanswer
      -- The result of the export is obtained as it is, so that this step cannot fail.
      · obtain ⟨answer, hanswer, -⟩ := hexport.of_obtain
        cases hanswer
    · cases hfault
  · obtain ⟨_, hcreated, -⟩ | ⟨fault, -, hcreate⟩ := hcreate.of_attempt
    · cases hcreated
    · exact .inl ((runs_request_iff.mp hcreate).leaves_of_create rfl rfl)

namespace Command

/-- An export command comes to its output: its design can be read, and it is known how to export it. -/
structure Exportation.ComesTo (exportation : Exportation) (settings : Settings) (temporary : String)
    (world : World) (project : Design.Project) (options : Export.Options) (output : String) :
    Prop where
  read : ∃ contents, world.readFile exportation.input = .ok contents ∧
    Design.Project.read (.ofBytes contents) = .ok project
  chosen : settings.exportOptions temporary exportation.skeleton exportation.workRoot
    exportation.name = .ok options
  named : output = exportation.output.getD (Export.offeredName project options)

/-- An export command that fails leaves the world as it was before it comes to its output.  After that
there is no file at the output, whatever was there before: only if the file could not be made at all,
something may be left of the attempt. -/
theorem Exportation.readFile_of_failure {exportation : Exportation} {settings : Settings}
    {temporary : String}
    (h : Runs (exportation.perform libraries settings temporary).run world (.error failure) after) :
    after = world ∨ ∃ project options output,
      exportation.ComesTo settings temporary world project options output ∧
        (Leaves world (.create output) after ∨ ∃ made between, world.createFile output = .ok made ∧
          Runs ((Export.exportProject libraries.archiver project options).sendTo output) made
            (.error failure) between ∧
          ∀ contents, after.readFile output ≠ .ok contents) := by
  obtain ⟨project, first, hfirst, hsecond⟩ | ⟨other, -, hfirst⟩ := h.of_job_bind
  · obtain ⟨rfl, hread⟩ := hfirst.of_readProject
    obtain ⟨options, second, hsettle, hthird⟩ | ⟨other, -, hsettle⟩ := hsecond.of_job_bind
    · obtain ⟨hoptions, rfl⟩ := runs_done_iff.mp hsettle
      refine .inr ⟨project, options, _, ⟨hread project rfl, hoptions.symm, rfl⟩, ?_⟩
      obtain ⟨summary, third, -, hlast⟩ | ⟨other, hfailure, hexport⟩ := hthird.of_job_bind
      · cases hlast.of_display
      · obtain rfl := Except.error.inj hfailure
        obtain hleaves | ⟨made, between, hmade, hruns, rfl⟩ := hexport.of_exportTo
        · exact .inl hleaves
        · exact .inr ⟨made, between, hmade, hruns, readFile_of_removeFile between _⟩
    · obtain ⟨-, rfl⟩ := runs_done_iff.mp hsettle
      exact .inl rfl
  · exact .inl hfirst.of_readProject.1

/-- A design and the archive of an earlier export, to which a link leads; there is no skeleton. -/
def archiveOnly : World where
  tree := .directory [
    ("kept.zip", .file (textBytes "an older archive") plainMode 0),
    ("out.zip", .link "kept.zip" 0),
    ("shop.json", .file (textBytes "\x7b\"screens\": [\x7b\"id\": \"a\", \"name\": \"Home\"\x7d]\x7d")
      plainMode 0)] 0

/-- The export of the design with a skeleton that is not there. -/
def exportWithoutSkeleton : Exportation where
  input := "shop.json"
  skeleton := some "missing"
  output := some "out.zip"

theorem Exportation.readFile_of_failure_withoutSkeleton : ∃ failure after,
    Runs (exportWithoutSkeleton.perform .plain {} "/tmp").run archiveOnly (.error failure) after ∧
      (after = archiveOnly ∨ ∃ project options output,
        exportWithoutSkeleton.ComesTo {} "/tmp" archiveOnly project options output ∧
          (Leaves archiveOnly (.create output) after ∨
            ∃ made between, archiveOnly.createFile output = .ok made ∧
              Runs ((Export.exportProject Libraries.plain.archiver project options).sendTo output) made
                (.error failure) between ∧
              ∀ contents, after.readFile output ≠ .ok contents)) := by
  have hfails : (archiveOnly.run (exportWithoutSkeleton.perform .plain {} "/tmp").run).1.toOption = none := by
    decide +kernel
  have hrun := runs_run (exportWithoutSkeleton.perform .plain {} "/tmp").run archiveOnly
  cases hresult : (archiveOnly.run (exportWithoutSkeleton.perform .plain {} "/tmp").run).1 with
  | ok done =>
      rw [hresult] at hfails
      cases hfails
  | error failure =>
      rw [hresult] at hrun
      exact ⟨failure, _, hrun, Exportation.readFile_of_failure hrun⟩

/-- A file that was at the output can be lost although the export failed at once. -/
theorem Exportation.readFile_lost_withoutSkeleton :
    (archiveOnly.run (exportWithoutSkeleton.perform .plain {} "/tmp").run).1.toOption = none ∧
    (archiveOnly.readFile "out.zip").toOption = some (textBytes "an older archive") ∧
    ((archiveOnly.run (exportWithoutSkeleton.perform .plain {} "/tmp").run).2.readFile "out.zip").toOption =
      none ∧
    ((archiveOnly.run (exportWithoutSkeleton.perform .plain {} "/tmp").run).2.readFile "kept.zip").toOption =
      some [] := by
  decide +kernel

end Command

end Exportation

end Wireframe
