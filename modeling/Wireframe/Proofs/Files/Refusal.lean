/-
Systems that refuse.

A system does what it is asked for or refuses it, for whatever reason, and what it has refused may be
done in part.  It never refuses to take something away that is there.

* `Leaves` — what may be left of a request that was refused;
* `Replies` — what a system may reply, and the world after that;
* `Runs` — how a script may end, and the world after it;
* `runs_run` — a world that refuses nothing else is such a system;
* `Replies.granted` — what is not refused is done;
* `Replies.file_induction`, `Replies.directory_induction`, `Replies.same` — what changes in any case;
* `runs_bind_iff`, `Runs.of_job_bind`, `Runs.of_attempt` — one script after the other;
* `Keeps` — jobs that keep something, whatever is refused.
-/
import Wireframe.Proofs.Files.Effect
import Wireframe.Proofs.Files.Ending

namespace Wireframe.Files

/-- The reply refuses the request. -/
def Request.IsRefusal : (request : Request) → request.Reply → Prop
  | .isDirectory _, reply => reply = false
  | .isExecutable _, reply => reply = false
  | request, reply => (request.fault? reply).isSome

/-- The path at which a request puts a file. -/
def Request.target? : Request → Option String
  | .create path | .append path _ | .copy _ path => some path
  | _ => none

/-- The request changes no files. -/
def Request.looks : Request → Bool
  | .create _ | .append _ _ | .copy _ _ | .makeDirectory _ | .removeFile _ | .removeDirectory _ =>
      false
  | _ => true

/-- The request only asks, and nothing is different afterwards. -/
def Request.isQuestion : Request → Bool
  | .read _ | .isDirectory _ | .isExecutable _ | .entries _ | .survey _ _ | .time => true
  | _ => false

/-- The request takes something away. -/
def Request.isRemoval : Request → Bool
  | .removeFile _ | .removeDirectory _ => true
  | _ => false

namespace World

/-- What may be left of a request that was refused. -/
inductive Leaves (world : World) : Request → World → Prop
  | nothing (request : Request) : Leaves world request world
  | created {path : String} {after : World} (h : world.createFile path = .ok after) :
      Leaves world (.create path) after
  | appended {path : String} {contents part : Bytes} {after : World}
      (h : world.appendFile path part = .ok after) : Leaves world (.append path contents) after
  | copied {source target : String} {after : World} (h : world.createFile target = .ok after) :
      Leaves world (.copy source target) after
  | copiedPart {source target : String} {part : Bytes} {made after : World}
      (hmade : world.createFile target = .ok made) (h : made.appendFile target part = .ok after) :
      Leaves world (.copy source target) after
  | made {path : String} {front : List String} (hpath : lookable path = .ok ())
      (h : front <+: pieces path) :
      Leaves world (.makeDirectory path) (world.makeAlong (world.startOf path) [] front).2
  | sent (bytes part : Bytes) :
      Leaves world (.send bytes) { world with received := world.received ++ part }

/-- What a system may reply to a request in a world, and the world after that. -/
inductive Replies (world : World) : (request : Request) → request.Reply → World → Prop
  | served (request : Request) :
      Replies world request (world.reply request).1 (world.reply request).2
  | refused {request : Request} {reply : request.Reply} {after : World}
      (hremoval : request.isRemoval = false) (hreply : request.IsRefusal reply)
      (hafter : Leaves world request after) : Replies world request reply after

/-- A script may end with a result and leave a world behind. -/
inductive Runs {α : Type} : Script α → World → α → World → Prop
  | done (result : α) (world : World) : Runs (.done result) world result world
  | ask {request : Request} {next : request.Reply → Script α} {world between after : World}
      {reply : request.Reply} {result : α} (hreply : Replies world request reply between)
      (h : Runs (next reply) between result after) : Runs (.ask request next) world result after

/-! ### What is granted -/

section Granted

variable {world after : World} {path : String}

/-- What is not refused is done.  That a reply is no refusal is seen by evaluating it. -/
theorem Replies.granted {request : Request} {reply : request.Reply}
    (h : Replies world request reply after) (hreply : ¬ request.IsRefusal reply) :
    (reply, after) = world.reply request := by
  cases h with
  | served => rfl
  | refused _ hrefusal _ => exact absurd hrefusal hreply

theorem eq_ok_of_settle {result : Except Fault World}
    (h : (.ok (), after) = world.settle result) : result = .ok after := by
  cases result with
  | error fault => cases h
  | ok changed =>
      obtain ⟨-, rfl⟩ := Prod.mk.inj h
      rfl

theorem Replies.of_create (h : Replies world (.create path) (.ok ()) after) :
    world.createFile path = .ok after :=
  eq_ok_of_settle (h.granted Bool.false_ne_true)

theorem Replies.of_append {contents : Bytes}
    (h : Replies world (.append path contents) (.ok ()) after) :
    world.appendFile path contents = .ok after :=
  eq_ok_of_settle (h.granted Bool.false_ne_true)

theorem Replies.of_copy {source target : String}
    (h : Replies world (.copy source target) (.ok ()) after) :
    world.copyFile source target = .ok after :=
  eq_ok_of_settle (h.granted Bool.false_ne_true)

theorem Replies.of_makeDirectory (h : Replies world (.makeDirectory path) (.ok ()) after) :
    world.makeDirectory path = (.ok (), after) :=
  (h.granted Bool.false_ne_true).symm

theorem Replies.of_read {contents : Bytes} (h : Replies world (.read path) (.ok contents) after) :
    world.readFile path = .ok contents := by
  obtain ⟨hread, -⟩ := Prod.mk.inj (h.granted Bool.false_ne_true)
  exact hread.symm

theorem Replies.of_survey {enters : List String → Bool} {shape : Shape}
    (h : Replies world (.survey path enters) (.ok shape) after) :
    world.survey path enters = .ok shape := by
  obtain ⟨hsurvey, -⟩ := Prod.mk.inj (h.granted Bool.false_ne_true)
  exact hsurvey.symm

theorem Replies.of_send {bytes : Bytes} (h : Replies world (.send bytes) (.ok ()) after) :
    world.sendBytes bytes = (.ok (), after) :=
  (h.granted Bool.false_ne_true).symm

theorem Replies.of_entries {found : List DirEntry}
    (h : Replies world (.entries path) (.ok found) after) : world.entries path = .ok found := by
  obtain ⟨hentries, -⟩ := Prod.mk.inj (h.granted Bool.false_ne_true)
  exact hentries.symm

theorem Replies.of_time {now : Int} (h : Replies world .time now after) : now = world.clock :=
  (Prod.mk.inj (h.granted Bool.false_ne_true)).1

theorem Replies.of_freshId {id : String} (h : Replies world .freshId id after) :
    id = idText world.issued ∧ after = { world with issued := world.issued + 1 } :=
  Prod.mk.inj (h.granted Bool.false_ne_true)

end Granted

/-! ### What changes in any case -/

section Changes

variable {world after : World} {path : String} {request : Request} {reply : request.Reply}

/-- What is kept whenever a file is put where a path leads is kept by every request that puts one
there. -/
theorem Replies.file_induction {P : World → Prop} (h : Replies world request reply after)
    (htarget : request.target? = some path)
    (hputs : ∀ before place contents after, allowed path = .ok () → P before →
      before.locate? true path = some place → Puts before place contents after → P after)
    (hworld : P world) : P after := by
  -- Both ways in which a file comes to hold something are ways of putting it at a place.
  have hcreate (before after : World) (hbefore : P before)
      (hcreated : before.createFile path = .ok after) : P after := by
    obtain ⟨hallowed, place, hlocate, hput⟩ := puts_createFile hcreated
    exact hputs _ _ _ _ hallowed hbefore hlocate hput
  have happend (before after : World) (more : Bytes) (hbefore : P before)
      (happended : before.appendFile path more = .ok after) : P after := by
    obtain ⟨hallowed, place, contents, hlocate, -, hput⟩ := puts_appendFile happended
    exact hputs _ _ _ _ hallowed hbefore hlocate hput
  have hsettle (result : Except Fault World) (hresult : ∀ changed, result = .ok changed → P changed) :
      P (world.settle result).2 := by
    cases result with
    | error fault => exact hworld
    | ok changed => exact hresult changed rfl
  -- A request that is served has one effect; one that is refused has none, or a part of its effect.
  cases h with
  | served =>
      cases request with
      | create other =>
          obtain rfl := Option.some.inj htarget
          exact hsettle _ fun changed => hcreate world changed hworld
      | append other contents =>
          obtain rfl := Option.some.inj htarget
          exact hsettle _ fun changed => happend world changed contents hworld
      | copy source other =>
          obtain rfl := Option.some.inj htarget
          refine hsettle _ fun changed hcopied => ?_
          obtain ⟨hallowed, origin, place, contents, -, -, hlocate, hput⟩ := puts_copyFile hcopied
          exact hputs _ _ _ _ hallowed hworld hlocate hput
      | _ => cases htarget
  | refused _ _ hafter =>
      cases hafter with
      | nothing => exact hworld
      | created hcreated =>
          obtain rfl := Option.some.inj htarget
          exact hcreate _ _ hworld hcreated
      | appended happended =>
          obtain rfl := Option.some.inj htarget
          exact happend _ _ _ hworld happended
      | copied hcreated =>
          obtain rfl := Option.some.inj htarget
          exact hcreate _ _ hworld hcreated
      -- A copy that breaks off has made its file and put some of the contents in it.
      | copiedPart hcreated happended =>
          obtain rfl := Option.some.inj htarget
          exact happend _ _ _ (hcreate _ _ hworld hcreated) happended
      | made => cases htarget
      | sent => cases htarget

/-- What is kept by every directory that is made along a path is kept by the request to make them. -/
theorem Replies.directory_induction {P : World → Prop} (h : Replies world request reply after)
    (hrequest : request = .makeDirectory path)
    (hadd : ∀ before after front place, lookable path = .ok () → front ≠ [] →
      front <+: pieces path → (∀ name ∈ front, isShort name) → P before →
      walk before.tree false linkLimit (world.startOf path) front = some place →
      Adds before place after → P after) (hworld : P world) : P after := by
  -- As many directories are made as a front of the path has names.
  have hfront (hpath : lookable path = .ok ()) (front : List String)
      (hbegins : front <+: pieces path) : P (world.makeAlong (world.startOf path) [] front).2 :=
    makeAlong_induction (fun before after part place hne hpart hshort hbefore hwalk hadds =>
      hadd before after part place hpath hne (hpart.trans hbegins) hshort hbefore hwalk hadds) hworld
  cases h with
  | served =>
      subst hrequest
      simp only [World.reply, makeDirectory]
      split
      · exact hworld
      · split
        · rename_i hpath
          exact hfront hpath _ List.prefix_rfl
        · exact hworld
  | refused _ _ hafter =>
      cases hafter with
      | nothing => exact hworld
      | made hpath hbegins =>
          obtain rfl := Request.makeDirectory.inj hrequest
          exact hfront hpath _ hbegins
      | _ => cases hrequest

/-- Requests that only look change no files. -/
theorem Replies.same (h : Replies world request reply after) (hlooks : request.looks = true) :
    after.tree = world.tree ∧ after.here = world.here := by
  cases h with
  | served =>
      cases request with
      | create | append | copy | makeDirectory | removeFile | removeDirectory => cases hlooks
      | send bytes =>
          simp only [World.reply, sendBytes]
          split <;> exact ⟨rfl, rfl⟩
      | _ => exact ⟨rfl, rfl⟩
  | refused _ _ hafter =>
      cases hafter with
      | nothing => exact ⟨rfl, rfl⟩
      | created | appended | copied | copiedPart | made => cases hlooks
      | sent => exact ⟨rfl, rfl⟩

/-- What may be left of a file that was not made. -/
theorem Replies.leaves_of_create (h : Replies world request reply after)
    (hrequest : request = .create path) (hreply : request.IsRefusal reply) :
    Leaves world request after := by
  cases h with
  | served =>
      subst hrequest
      simp only [World.reply] at hreply ⊢
      cases hcreate : world.createFile path with
      | ok changed =>
          rw [hcreate] at hreply
          cases hreply
      | error fault => exact .nothing _
  | refused _ _ hafter => exact hafter

/-- What is there is taken away whenever that is asked for. -/
theorem Replies.of_isRemoval (h : Replies world request reply after)
    (hremoval : request.isRemoval = true) : after = (world.reply request).2 := by
  cases h with
  | served => rfl
  | refused hnot =>
      rw [hnot] at hremoval
      cases hremoval

/-- Nothing is different after a question. -/
theorem Replies.eq_of_isQuestion (h : Replies world request reply after)
    (hquestion : request.isQuestion = true) : after = world := by
  cases h with
  | served => cases request <;> first | rfl | cases hquestion
  | refused _ _ hafter =>
      cases hafter with
      | nothing => rfl
      | _ => cases hquestion

end Changes

/-! ### Scripts -/

section Scripts

variable {α β : Type} {world after : World}

theorem runs_run (script : Script α) (world : World) :
    Runs script world (world.run script).1 (world.run script).2 := by
  induction script generalizing world with
  | done result => exact .done result world
  | ask request next ih => exact .ask (.served request) (ih _ _)

theorem runs_done_iff {a result : α} :
    Runs (.done a) world result after ↔ result = a ∧ after = world := by
  constructor
  · intro h
    cases h
    exact ⟨rfl, rfl⟩
  · rintro ⟨rfl, rfl⟩
    exact .done _ _

theorem runs_request_iff {request : Request} {reply : request.Reply} :
    Runs (Script.request request) world reply after ↔ Replies world request reply after := by
  constructor
  · intro h
    cases h with
    | ask hreply h =>
        obtain ⟨rfl, rfl⟩ := runs_done_iff.mp h
        exact hreply
  · exact fun h => .ask h (.done _ _)

theorem runs_bind_iff {script : Script α} {f : α → Script β} {result : β} :
    Runs (script.bind f) world result after ↔
      ∃ a between, Runs script world a between ∧ Runs (f a) between result after := by
  induction script generalizing world with
  | done a =>
      rw [Script.bind_done]
      constructor
      · exact fun h => ⟨a, world, .done a world, h⟩
      · rintro ⟨b, between, hb, h⟩
        obtain ⟨rfl, rfl⟩ := runs_done_iff.mp hb
        exact h
  | ask request next ih =>
      rw [Script.bind_ask]
      constructor
      · intro h
        cases h with
        | ask hreply h =>
            obtain ⟨a, between, ha, hf⟩ := (ih _).mp h
            exact ⟨a, between, .ask hreply ha, hf⟩
      · rintro ⟨a, between, ha, hf⟩
        cases ha with
        | ask hreply ha => exact .ask hreply ((ih _).mpr ⟨a, between, ha, hf⟩)

end Scripts

/-! ### Jobs -/

section Jobs

variable {α β : Type} {world after : World}

/-- A step that may be refused has a result, or it fails in the words of the system. -/
theorem Runs.of_attempt {script : Script (Except Fault α)} {failure : String → Failure}
    {result : Except Failure α} (h : Runs (attempt script failure).run world result after) :
    (∃ a, result = .ok a ∧ Runs script world (.ok a) after) ∨
      ∃ fault, result = .error (failure fault.reason) ∧ Runs script world (.error fault) after := by
  obtain ⟨reply, between, hreply, hrest⟩ := runs_bind_iff.mp h
  cases reply with
  | ok a =>
      obtain ⟨rfl, rfl⟩ := runs_done_iff.mp hrest
      exact .inl ⟨a, rfl, hreply⟩
  | error fault =>
      obtain ⟨rfl, rfl⟩ := runs_done_iff.mp hrest
      exact .inr ⟨fault, rfl, hreply⟩

/-- A step that cannot fail has a result. -/
theorem Runs.of_obtain {script : Script α} {result : Except Failure α}
    (h : Runs (obtain script).run world result after) :
    ∃ a, result = .ok a ∧ Runs script world a after := by
  obtain ⟨a, between, ha, hrest⟩ := runs_bind_iff.mp h
  obtain ⟨rfl, rfl⟩ := runs_done_iff.mp hrest
  exact ⟨a, rfl, ha⟩

/-- After a step that failed nothing is done. -/
theorem Runs.of_job_bind {job : Job α} {f : α → Job β} {result : Except Failure β}
    (h : Runs (job >>= f).run world result after) :
    (∃ a between, Runs job.run world (.ok a) between ∧ Runs (f a).run between result after) ∨
      ∃ failure, result = .error failure ∧ Runs job.run world (.error failure) after := by
  obtain ⟨reply, between, hjob, hrest⟩ := runs_bind_iff.mp h
  cases reply with
  | ok a => exact .inl ⟨a, between, hjob, hrest⟩
  | error failure =>
      obtain ⟨rfl, rfl⟩ := runs_done_iff.mp hrest
      exact .inr ⟨failure, rfl, hjob⟩

/-- The job keeps something, whatever is refused, and fails only because something cannot be written. -/
def Keeps (P : World → Prop) (job : Job α) : Prop :=
  ∀ world result after, P world → Runs job.run world result after →
    P after ∧ ∀ failure, result = .error failure → failure.category = .packaging

namespace Keeps

variable {P : World → Prop} {job : Job α}

theorem pure (a : α) : Keeps P (pure a : Job α) := by
  intro world result after hworld h
  obtain ⟨rfl, rfl⟩ := runs_done_iff.mp h
  exact ⟨hworld, fun failure hfailure => nomatch hfailure⟩

theorem throw {failure : Failure} (hfailure : failure.category = .packaging) :
    Keeps P (throw failure : Job α) := by
  intro world result after hworld h
  obtain ⟨rfl, rfl⟩ := runs_done_iff.mp h
  exact ⟨hworld, fun other hother => Except.error.inj hother ▸ hfailure⟩

theorem settle {result : Except String α} {failure : String → Failure}
    (hfailure : ∀ reason, (failure reason).category = .packaging) :
    Keeps P (Job.settle (result.mapError failure)) := by
  cases result with
  | ok a => exact pure a
  | error reason => exact throw (hfailure reason)

/-- What comes after a step is done in a world in which the step has had a result. -/
theorem bind {f : α → Job β} (hjob : Keeps P job)
    (hf : ∀ world a after, P world → Runs job.run world (.ok a) after → Keeps P (f a)) :
    Keeps P (job >>= f) := by
  intro world result after hworld h
  rcases h.of_job_bind with ⟨a, between, ha, hrest⟩ | ⟨failure, rfl, hfailed⟩
  · exact hf world a between hworld ha between result after (hjob world _ between hworld ha).1 hrest
  · obtain ⟨hafter, hfailure⟩ := hjob world _ after hworld hfailed
    refine ⟨hafter, fun other hother => ?_⟩
    obtain rfl := Except.error.inj hother
    exact hfailure failure rfl

theorem attempt {script : Script (Except Fault α)} {failure : String → Failure}
    (hfailure : ∀ reason, (failure reason).category = .packaging)
    (hscript : ∀ world reply after, P world → Runs script world reply after → P after) :
    Keeps P (attempt script failure) := by
  intro world result after hworld h
  rcases h.of_attempt with ⟨a, rfl, hrun⟩ | ⟨fault, rfl, hrun⟩
  · exact ⟨hscript world _ after hworld hrun, fun other hother => nomatch hother⟩
  · exact ⟨hscript world _ after hworld hrun,
      fun other hother => Except.error.inj hother ▸ hfailure fault.reason⟩

theorem obtain {script : Script α}
    (hscript : ∀ world reply after, P world → Runs script world reply after → P after) :
    Keeps P (obtain script) := by
  intro world result after hworld h
  obtain ⟨a, rfl, hrun⟩ := h.of_obtain
  exact ⟨hscript world a after hworld hrun, fun failure hfailure => nomatch hfailure⟩

end Keeps

end Jobs

end World

end Wireframe.Files
