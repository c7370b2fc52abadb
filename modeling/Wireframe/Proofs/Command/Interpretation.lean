/-
Sketches that are added to a design.

A screen is added to a design under any name that no screen of the design has.  That says nothing yet
about its class and its id: they are derived from the name, and another screen may have them already.

* `Interpretation.Begins`, `Interpretation.Delivers` — the design that a screen is added to, and where
  the new one goes;
* `IsSketched` — a screen that has been read off a sketch under a name;
* `Runs.of_screenOf`, `Runs.of_deliver` — how the steps of the command end;
* `Interpretation.passes_iff_fits` — the new design passes the review exactly if the name fits;
* `Interpretation.spoils_home` — a name that does not fit is not refused.
-/
import Wireframe.PlainLibraries
import Wireframe.Proofs.Command.Reading
import Wireframe.Proofs.Design.Reload
import Wireframe.Proofs.Files.Success
import Wireframe.Proofs.Json.Source
import Wireframe.Proofs.Review.Addition

namespace Wireframe

open Design Files World

/-! ### Steps -/

section Steps

variable {world after : World}

/-- What is shown is shown after what was shown before. -/
theorem Files.World.Replies.of_print {text : String} {reply : Unit}
    (h : Replies world (.print text) reply after) :
    after = { world with shown := world.shown ++ text } :=
  (Prod.mk.inj (h.granted Bool.false_ne_true)).2

theorem Files.World.Replies.of_report {line : String} {reply : Unit}
    (h : Replies world (.report line) reply after) :
    after = { world with reported := world.reported ++ [line] } :=
  (Prod.mk.inj (h.granted Bool.false_ne_true)).2

/-- To ask for the answer in a file changes nothing. -/
theorem Files.World.Runs.of_answerIn {path : String} {answer : Except Sketch.DetectorError String}
    (h : Runs (Command.answerIn path) world answer after) : after = world := by
  obtain ⟨reply, between, hread, hrest⟩ := runs_bind_iff.mp h
  obtain rfl := (runs_request_iff.mp hread).eq_of_isQuestion rfl
  cases reply with
  | error fault => exact (runs_done_iff.mp hrest).2
  | ok bytes =>
      dsimp only at hrest
      split at hrest <;> exact (runs_done_iff.mp hrest).2

/-- The boxes that a detector sees are those of an answer; to ask for it changes nothing. -/
theorem Files.World.Runs.of_detectWithin {libraries : Libraries} {path last : String} {left : Nat}
    {result : Except Failure (List Sketch.DetectedBox)}
    (h : Runs (Sketch.detectWithin libraries (Command.answerIn path) last left) world result after) :
    after = world ∧ ∀ boxes, result = .ok boxes → ∃ text, Sketch.readPayload text = .ok boxes := by
  induction left generalizing last with
  -- No attempts are left, so there are no boxes.
  | zero =>
      obtain ⟨rfl, rfl⟩ := runs_done_iff.mp h
      exact ⟨rfl, fun boxes hboxes => nomatch hboxes⟩
  | succ left ih =>
      obtain ⟨answer, between, hanswer, hrest⟩ := runs_bind_iff.mp h
      obtain rfl := hanswer.of_answerIn
      cases hjudge : Sketch.judge libraries answer with
      | error reason =>
          -- The answer was of no use, and the next one is asked for.
          rw [hjudge] at hrest
          exact ih hrest
      | ok boxes =>
          rw [hjudge] at hrest
          obtain ⟨rfl, rfl⟩ := runs_done_iff.mp hrest
          refine ⟨rfl, fun other hother => ?_⟩
          obtain rfl := Except.ok.inj hother
          -- Boxes are found only in a text that is read.
          unfold Sketch.judge at hjudge
          split at hjudge
          · cases hjudge
          · rename_i text
            split at hjudge
            · cases hjudge
            · rename_i hread
              exact ⟨text, Except.ok.inj hjudge ▸ hread⟩

end Steps

namespace Command

/-- A screen that has been read off a sketch under a name. -/
inductive IsSketched (name : String) : Screen → Prop
  | intro {text : String} {boxes : List Sketch.DetectedBox} {width height : Nat}
      {options : Sketch.Options} {screen : Screen} (hread : Sketch.readPayload text = .ok boxes)
      (h : Sketch.interpretScreen ("screen-" ++ App.routeId name) name width height boxes options =
        .ok screen) : IsSketched name screen

namespace IsSketched

variable {name : String} {screen : Screen}

theorem name_eq (h : IsSketched name screen) : screen.name = name := by
  obtain ⟨-, hscreen⟩ := h
  obtain ⟨-, -, rfl⟩ := Sketch.eq_of_interpretScreen hscreen
  rfl

theorem id_eq (h : IsSketched name screen) : screen.id = "screen-" ++ App.routeId screen.name := by
  obtain ⟨-, hscreen⟩ := h
  obtain ⟨-, -, rfl⟩ := Sketch.eq_of_interpretScreen hscreen
  rfl

theorem isStored (h : IsSketched name screen) : screen.IsStored := by
  obtain ⟨hread, hscreen⟩ := h
  exact Sketch.isStored_of_interpretScreen hread hscreen

/-- Such a screen is added to a design without errors exactly if its name fits. -/
theorem isSound_addScreen_iff (h : IsSketched name screen) {project : Project}
    (hproject : project.screens = [] ∨ Review.IsSound project) :
    Review.IsSound (project.addScreen screen) ↔ Review.Fits project name := by
  obtain ⟨hread, hscreen⟩ := id h
  obtain ⟨hids, hsound⟩ := Sketch.elements_of_interpretScreen hread hscreen
  have hcanvas : ∀ element ∈ screen.elements, Review.StaysOnCanvas element.rect :=
    fun element helement => Review.staysOnCanvas_iff.mpr
      (Review.isOnCanvas_mono (by decide +kernel) (by decide +kernel) (hsound element helement).rect)
  rw [Review.isSound_addScreen_iff hproject h.id_eq hids hcanvas, h.name_eq]

end IsSketched

end Command

section Steps

variable {libraries : Libraries} {world after : World} {interpretation : Command.Interpretation}

/-- A question that is put as a step changes nothing. -/
theorem Files.World.Runs.of_attempt_read {path : String} {failure : String → Failure}
    {result : Except Failure Bytes}
    (h : Runs (attempt (.request (.read path)) failure).run world result after) : after = world := by
  obtain ⟨found, -, hread⟩ | ⟨fault, -, hread⟩ := h.of_attempt <;>
    exact (runs_request_iff.mp hread).eq_of_isQuestion rfl

/-- To read a screen off a sketch changes nothing. -/
theorem Files.World.Runs.of_screenOf {options : Sketch.Options} {result : Except Failure Screen}
    (h : Runs (Command.screenOf libraries interpretation options).run world result after) :
    after = world ∧
      ∀ screen, result = .ok screen → Command.IsSketched interpretation.screenName screen := by
  unfold Command.screenOf at h
  split at h
  -- the size is that of an image
  · obtain ⟨image, first, hread, hrest⟩ | ⟨failure, rfl, hread⟩ := h.of_job_bind
    · obtain rfl := hread.of_attempt_read
      change Runs (Sketch.interpretSketch _ _ _ _ _) _ _ _ at hrest
      unfold Sketch.interpretSketch at hrest
      split at hrest
      · obtain ⟨rfl, rfl⟩ := runs_done_iff.mp hrest
        exact ⟨rfl, fun screen hscreen => nomatch hscreen⟩
      · obtain ⟨detected, second, hdetect, hscreen⟩ := runs_bind_iff.mp hrest
        obtain ⟨rfl, hboxes⟩ := hdetect.of_detectWithin
        cases detected with
        | error failure =>
            obtain ⟨rfl, rfl⟩ := runs_done_iff.mp hscreen
            exact ⟨rfl, fun screen hscreen => nomatch hscreen⟩
        | ok boxes =>
            obtain ⟨rfl, rfl⟩ := runs_done_iff.mp hscreen
            obtain ⟨text, htext⟩ := hboxes boxes rfl
            exact ⟨rfl, fun screen hscreen => .intro htext hscreen⟩
    · exact ⟨hread.of_attempt_read, fun screen hscreen => nomatch hscreen⟩
  -- the size is given
  · obtain ⟨boxes, first, hdetect, hrest⟩ | ⟨failure, rfl, hdetect⟩ := h.of_job_bind
    · obtain ⟨rfl, hboxes⟩ := hdetect.of_detectWithin
      obtain ⟨rfl, rfl⟩ := runs_done_iff.mp hrest
      obtain ⟨text, htext⟩ := hboxes boxes rfl
      exact ⟨rfl, fun screen hscreen => .intro htext hscreen⟩
    · exact ⟨hdetect.of_detectWithin.1, fun screen hscreen => nomatch hscreen⟩
  · obtain ⟨rfl, rfl⟩ := runs_done_iff.mp h
    exact ⟨rfl, fun screen hscreen => nomatch hscreen⟩

end Steps

namespace Command

/-- The design to which the screen is added: that of a document, or a new one. -/
def Interpretation.Begins (interpretation : Interpretation) (world : World) (project : Project) :
    Prop :=
  match interpretation.project with
  | some path => ∃ contents, world.readFile path = .ok contents ∧
      Project.read (.ofBytes contents) = .ok project
  | none => project = { profile := interpretation.profile }

/-- The document of the new design is at the output, or it is shown. -/
def Interpretation.Delivers (interpretation : Interpretation) (world : World) (project : Project)
    (after : World) : Prop :=
  match interpretation.output with
  | some path => after.readFile path = .ok (textBytes project.document)
  | none => after.shown = world.shown ++ (project.document ++ "\n")

/-- A design has no errors, and there is code for it. -/
def Passes (project : Project) : Prop :=
  (Review.check false project).isOk = true ∧ ∃ sources, App.generate project = .ok sources

theorem passes_iff {project : Project} : Passes project ↔ Review.IsSound project := by
  rw [← Review.isOk_check_iff]
  exact ⟨And.left, fun h => ⟨h, _, Review.generate_of_isOk h⟩⟩

theorem Interpretation.Begins.unique {interpretation : Interpretation} {world : World}
    {project other : Project} (h : interpretation.Begins world project)
    (hother : interpretation.Begins world other) : other = project := by
  unfold Interpretation.Begins at h hother
  cases hpath : interpretation.project with
  | some path =>
      rw [hpath] at h hother
      obtain ⟨contents, hread, hproject⟩ := h
      obtain ⟨again, hagain, hother⟩ := hother
      obtain rfl := Except.ok.inj (hread.symm.trans hagain)
      exact Except.ok.inj (hother.symm.trans hproject)
  | none =>
      rw [hpath] at h hother
      exact hother.trans h.symm

theorem Interpretation.Begins.isStored {interpretation : Interpretation} {world : World}
    {project : Project} (h : interpretation.Begins world project) : project.IsStored := by
  unfold Interpretation.Begins at h
  cases hpath : interpretation.project with
  | some path =>
      rw [hpath] at h
      obtain ⟨contents, -, hproject⟩ := h
      exact isStored_of_read hproject
  | none =>
      rw [hpath] at h
      rw [show project = { profile := interpretation.profile } from h]
      exact List.forall_mem_nil _

end Command

section Steps

variable {libraries : Libraries} {world after : World} {interpretation : Command.Interpretation}

/-- To settle on a design changes nothing. -/
theorem Files.World.Runs.of_projectFor {result : Except Failure Project}
    (h : Runs (Command.projectFor libraries interpretation).run world result after) :
    after = world ∧ ∀ project, result = .ok project → interpretation.Begins world project := by
  unfold Command.projectFor at h
  unfold Command.Interpretation.Begins
  cases hpath : interpretation.project with
  | some path =>
      rw [hpath] at h
      exact h.of_readProject
  | none =>
      rw [hpath] at h
      obtain ⟨rfl, rfl⟩ := runs_done_iff.mp h
      exact ⟨rfl, fun project hproject => (Except.ok.inj hproject).symm⟩

/-- A design that has been delivered is where it was to go. -/
theorem Files.World.Runs.of_deliver {project : Project}
    (h : Runs (Command.deliver project interpretation.output).run world (.ok ()) after) :
    interpretation.Delivers world project after := by
  unfold Command.deliver at h
  unfold Command.Interpretation.Delivers
  cases hpath : interpretation.output with
  | some path =>
      rw [hpath] at h
      obtain ⟨_, hresult, hwrite⟩ | ⟨fault, hresult, -⟩ := h.of_attempt
      · exact hwrite.of_writeFile
      · cases hresult
  | none =>
      rw [hpath] at h
      obtain ⟨_, -, hprint⟩ := h.of_obtain
      rw [(runs_request_iff.mp hprint).of_print]

end Steps

namespace Command

/-- What is read from the document of a design passes the review exactly if the design does. -/
theorem exists_read_document {project : Project} (hstored : project.IsStored)
    (hreads : ∀ x ∈ project.floats, x.isFinite = true → (Json.Number.float x).ReadsBack) :
    ∃ again, Project.read (.ofBytes (textBytes project.document)) = .ok again ∧
      (Passes again ↔ Passes project) := by
  refine ⟨project.rescaled, ?_, ?_⟩
  · rw [Json.Source.ofBytes_textBytes]
    exact ofText_document_eq_rescaled hstored hreads
  · rw [passes_iff, passes_iff, Review.isSound_rescaled_iff]

/-- What has been done when the command succeeds: a screen that was read off the sketch is added to a
design in which no screen has its name. -/
theorem Interpretation.of_ok {libraries : Libraries} {interpretation : Interpretation}
    {settings : Settings} {world after : World} (h : Runs (interpretation.perform libraries settings).run world (.ok ()) after) :
    ∃ project screen, interpretation.Begins world project ∧
      IsSketched interpretation.screenName screen ∧
      interpretation.Delivers world (project.addScreen screen) after := by
  obtain ⟨project, first, hproject, hrest⟩ | ⟨failure, hfailure, -⟩ := h.of_job_bind
  · obtain ⟨rfl, hbegins⟩ := hproject.of_projectFor
    split at hrest
    · obtain ⟨hresult, -⟩ := runs_done_iff.mp hrest
      cases hresult
    · obtain ⟨screen, second, hscreen, hfinish⟩ | ⟨failure, hfailure, -⟩ := hrest.of_job_bind
      · obtain ⟨rfl, hsketched⟩ := hscreen.of_screenOf
        obtain ⟨_, third, hreport, hlast⟩ | ⟨failure, hfailure, -⟩ := hfinish.of_job_bind
        · obtain ⟨_, -, hasked⟩ := hreport.of_obtain
          obtain rfl := (runs_request_iff.mp hasked).of_report
          exact ⟨project, screen, hbegins project rfl, hsketched screen rfl, hlast.of_deliver⟩
        · cases hfailure
      · cases hfailure
  · cases hfailure

/-- The command fails and changes nothing if a screen of the design has exactly the given name. -/
theorem Interpretation.of_screenNamed {libraries : Libraries} {interpretation : Interpretation}
    {settings : Settings} {world after : World} {result : Except Failure Unit}
    (h : Runs (interpretation.perform libraries settings).run world result after) {project : Project}
    (hbegins : interpretation.Begins world project)
    (hnamed : ∃ screen ∈ project.screens, screen.name = interpretation.screenName) :
    after = world ∧ ∃ failure, result = .error failure := by
  obtain ⟨other, first, hproject, hrest⟩ | ⟨failure, rfl, hproject⟩ := h.of_job_bind
  · obtain ⟨rfl, hother⟩ := hproject.of_projectFor
    obtain rfl := hbegins.unique (hother other rfl)
    have hfound : (other.screenNamed? interpretation.screenName).isSome = true := by
      rw [Project.screenNamed?, List.find?_isSome]
      simpa using hnamed
    rw [if_pos hfound] at hrest
    obtain ⟨rfl, rfl⟩ := runs_done_iff.mp hrest
    exact ⟨rfl, _, rfl⟩
  · exact ⟨hproject.of_projectFor.1, _, rfl⟩

/-- The command fails, and leaves the world as it was, if there is a screen of exactly the given name.
If it succeeds, the document of the design with one more screen is where it was to go, and if there was
no error before, then there is none afterwards exactly if the name fits.  The same holds for what is
read from that document, if the text of each float in it is read as that float. -/
theorem Interpretation.passes_iff_fits {libraries : Libraries} {interpretation : Interpretation}
    {settings : Settings} {world after : World} {result : Except Failure Unit}
    (h : Runs (interpretation.perform libraries settings).run world result after) :
    (∀ project, interpretation.Begins world project →
      (∃ screen ∈ project.screens, screen.name = interpretation.screenName) →
        after = world ∧ ∃ failure, result = .error failure) ∧
    (result = .ok () → ∃ project screen, interpretation.Begins world project ∧
      screen.name = interpretation.screenName ∧
      interpretation.Delivers world (project.addScreen screen) after ∧
      (project.screens = [] ∨ (Review.check false project).isOk = true →
        let written := project.addScreen screen
        (Passes written ↔ Review.Fits project interpretation.screenName) ∧
        ((∀ x ∈ written.floats, x.isFinite = true → (Json.Number.float x).ReadsBack) →
          ∃ again, Project.read (.ofBytes (textBytes written.document)) = .ok again ∧
            (Passes again ↔ Review.Fits project interpretation.screenName)))) := by
  refine ⟨fun project hbegins hnamed => of_screenNamed h hbegins hnamed, ?_⟩
  rintro rfl
  obtain ⟨project, screen, hbegins, hsketched, hdelivers⟩ := of_ok h
  refine ⟨project, screen, hbegins, hsketched.name_eq, hdelivers, fun hbefore => ?_⟩
  -- Before the screen is added the design has no errors, so the name of the screen is all that
  -- counts.
  have hpasses : Passes (project.addScreen screen) ↔
      Review.Fits project interpretation.screenName := by
    rw [passes_iff]
    exact hsketched.isSound_addScreen_iff (hbefore.imp_right Review.isOk_check_iff.mp)
  refine ⟨hpasses, fun hreads => ?_⟩
  -- A design that was read and a screen that was sketched are both such as reading leaves behind.
  have hstored : (project.addScreen screen).IsStored :=
    List.forall_mem_append.mpr ⟨hbegins.isStored, List.forall_mem_singleton.mpr hsketched.isStored⟩
  obtain ⟨again, hread, hagain⟩ := exists_read_document hstored hreads
  exact ⟨again, hread, hagain.trans hpasses⟩

/-- A design with one screen. -/
def homeDocument : String :=
  "\x7b\"screens\": [\x7b\"id\": \"a\", \"name\": \"Home\"\x7d]\x7d"

/-- The design of that document. -/
def homeProject : Project where
  screens := [{ id := "a", name := "Home" }]

/-- A design with a screen, and what was seen on a sketch. -/
def homeDesk : World where
  tree := .directory [
    ("home.json", .file (textBytes homeDocument) plainMode 0),
    ("seen.json", .file (textBytes ("\x7b\"boxes\": [\x7b\"kind\": \"Label\", " ++
      "\"bb\": \x7b\"x\": 0, \"y\": 0, \"w\": 8, \"h\": 8\x7d\x7d]\x7d")) plainMode 0)] 0

/-- The sketch is added to the design under a name. -/
def sketchNamed (name : String) : Interpretation where
  payload := "seen.json"
  size := .pixels 8 8
  screenName := name
  project := some "home.json"
  output := some "home.json"

theorem Interpretation.passes_iff_fits_help : ∃ result after,
    Runs ((sketchNamed "Help").perform .plain {}).run homeDesk result after ∧ result = .ok () ∧
      (∀ project, (sketchNamed "Help").Begins homeDesk project →
        (∃ screen ∈ project.screens, screen.name = "Help") →
          after = homeDesk ∧ ∃ failure, result = .error failure) ∧
      (result = .ok () → ∃ project screen, (sketchNamed "Help").Begins homeDesk project ∧
        screen.name = "Help" ∧
        (sketchNamed "Help").Delivers homeDesk (project.addScreen screen) after ∧
        (project.screens = [] ∨ (Review.check false project).isOk = true →
          let written := project.addScreen screen
          (Passes written ↔ Review.Fits project "Help") ∧
          ((∀ x ∈ written.floats, x.isFinite = true → (Json.Number.float x).ReadsBack) →
            ∃ again, Project.read (.ofBytes (textBytes written.document)) = .ok again ∧
              (Passes again ↔ Review.Fits project "Help")))) := by
  have hsucceeds : (homeDesk.run ((sketchNamed "Help").perform .plain {}).run).1.toOption = some () := by
    decide +kernel
  have hrun := runs_run ((sketchNamed "Help").perform .plain {}).run homeDesk
  refine ⟨_, _, hrun, ?_, Interpretation.passes_iff_fits hrun⟩
  cases hresult : (homeDesk.run ((sketchNamed "Help").perform .plain {}).run).1 with
  | ok done => rfl
  | error failure =>
      rw [hresult] at hsucceeds
      cases hsucceeds

theorem begins_homeDesk (name : String) : (sketchNamed name).Begins homeDesk homeProject := by
  have hread : homeDesk.readFile "home.json" = .ok (textBytes homeDocument) := by
    rfl
  have hproject : Project.read (.ofBytes (textBytes homeDocument)) = .ok homeProject := by
    rw [Json.Source.ofBytes_textBytes]
    rfl
  exact ⟨_, hread, hproject⟩

/-- A name that gives the class of another screen is not refused, and the design has an error then. -/
theorem Interpretation.spoils_home : ∃ screen,
    (sketchNamed "home").Begins homeDesk homeProject ∧ Passes homeProject ∧
    (homeDesk.run ((sketchNamed "home").perform .plain {}).run).1.toOption = some () ∧
    (sketchNamed "home").Delivers homeDesk (homeProject.addScreen screen)
      (homeDesk.run ((sketchNamed "home").perform .plain {}).run).2 ∧
    (Review.check false (homeProject.addScreen screen)).isOk = false := by
  have hsucceeds : (homeDesk.run ((sketchNamed "home").perform .plain {}).run).1.toOption = some () := by
    decide +kernel
  have hpasses : Passes homeProject :=
    ⟨by decide +kernel, _, Review.generate_of_isOk (by decide +kernel)⟩
  -- The screen is known only by the run that writes it; what is computed is that the run succeeds.
  have hrun := runs_run ((sketchNamed "home").perform .plain {}).run homeDesk
  cases hresult : (homeDesk.run ((sketchNamed "home").perform .plain {}).run).1 with
  | error failure =>
      rw [hresult] at hsucceeds
      cases hsucceeds
  | ok done =>
      rw [hresult] at hrun
      obtain ⟨project, screen, hbegins, hsketched, hdelivers⟩ := Interpretation.of_ok hrun
      obtain rfl := (begins_homeDesk "home").unique hbegins
      refine ⟨screen, hbegins, hpasses, rfl, hdelivers, ?_⟩
      rw [Bool.eq_false_iff, Ne, Review.isOk_check_iff,
        hsketched.isSound_addScreen_iff (.inr (Review.isOk_check_iff.mp hpasses.1))]
      -- The class of the new screen is that of the old one.
      intro hfits
      exact hfits.ownClass _ (List.mem_singleton_self _) (by decide +kernel)

end Command

end Wireframe
