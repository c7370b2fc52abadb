/-
Jobs that succeed.

A job has a result only if all of its steps had one, each in the world that the one before it left
behind.  Nothing is handed out on the way but what the job sends.  A path at which a file is made
leads to that file from then on, so what is put there next is put where the path led before.

* `Runs.of_bind_ok`, `Runs.of_attempt_ok` — the steps of a job that has a result;
* `IsStrict` — a job has a result only if everything is granted;
* `received_of_sendBytes` — bytes that are all taken;
* `Replies.received_eq` — what has been handed out changes when something is sent, and then only;
* `Puts.locate?_eq`, `Puts.readFile_eq` — where a path leads when a file has been put there, and what
  is read;
* `Runs.of_writeFile` — how writing a file ends.
-/
import Wireframe.Proofs.Files.Refusal

namespace Wireframe.Files.World

open Files.Tree

/-! ### Steps -/

section Steps

variable {α β : Type} {world after : World}

theorem Runs.of_bind_ok {job : Job α} {f : α → Job β} {b : β}
    (h : Runs (job >>= f).run world (.ok b) after) :
    ∃ a between, Runs job.run world (.ok a) between ∧ Runs (f a).run between (.ok b) after := by
  obtain hdone | ⟨failure, hfailure, -⟩ := h.of_job_bind
  · exact hdone
  · cases hfailure

theorem Runs.of_attempt_ok {script : Script (Except Fault α)} {failure : String → Failure} {a : α}
    (h : Runs (attempt script failure).run world (.ok a) after) : Runs script world (.ok a) after := by
  obtain ⟨b, hb, hrun⟩ | ⟨fault, hfault, -⟩ := h.of_attempt
  · rwa [Except.ok.inj hb]
  · cases hfault

theorem run_bind_of_ok {job : Job α} {f : α → Job β} {between : World} {a : α}
    (h : world.run job.run = (.ok a, between)) :
    world.run (job >>= f).run = between.run (f a).run := by
  have hbind : world.run (job >>= f).run = _ := run_bind job.run (ExceptT.bindCont f) world
  rw [hbind, h]
  rfl

theorem run_attempt_of_ok {script : Script (Except Fault α)} {failure : String → Failure}
    {between : World} {a : α} (h : world.run script = (.ok a, between)) :
    world.run (attempt script failure).run = (.ok a, between) := by
  have hbind : world.run (attempt script failure).run = _ := run_bind script _ world
  rw [hbind, h]
  rfl

theorem runs_pure_iff {a b : α} :
    Runs (pure a : Job α).run world (.ok b) after ↔ b = a ∧ after = world := by
  constructor
  · intro h
    obtain ⟨hb, hafter⟩ := runs_done_iff.mp h
    exact ⟨Except.ok.inj hb, hafter⟩
  · rintro ⟨rfl, rfl⟩
    exact .done _ _

/-- A job that has a result only where the system refuses nothing of its own accord. -/
def IsStrict (job : Job α) : Prop :=
  ∀ ⦃world : World⦄ ⦃a : α⦄ ⦃after : World⦄, Runs job.run world (.ok a) after →
    world.run job.run = (.ok a, after)

theorem isStrict_pure (a : α) : IsStrict (pure a : Job α) := by
  intro world b after h
  obtain ⟨rfl, rfl⟩ := runs_pure_iff.mp h
  rfl

theorem IsStrict.bind {job : Job α} {f : α → Job β} (hjob : IsStrict job)
    (hf : ∀ a, IsStrict (f a)) : IsStrict (job >>= f) := by
  intro world b after h
  obtain ⟨a, between, hfirst, hrest⟩ := h.of_bind_ok
  rw [run_bind_of_ok (hjob hfirst), hf a hrest]

/-- To insist on what is asked for. -/
theorem isStrict_attempt {script : Script (Except Fault α)} (failure : String → Failure)
    (h : ∀ ⦃world : World⦄ ⦃a : α⦄ ⦃after : World⦄, Runs script world (.ok a) after →
      world.run script = (.ok a, after)) : IsStrict (attempt script failure) :=
  fun _ _ _ hrun => run_attempt_of_ok (h hrun.of_attempt_ok)

end Steps

/-! ### What is handed out -/

section Received

variable {world after : World} {place : List String} {contents : Bytes}

theorem received_of_change {put : Option Tree} (h : world.change place put = .ok after) :
    after.received = world.received := by
  rw [(change_eq_ok_iff.mp h).2]

theorem Puts.received_eq (h : Puts world place contents after) : after.received = world.received := by
  obtain ⟨mode, hchange⟩ := h.change
  exact received_of_change hchange

theorem received_of_remove {directory : Bool} {path : String} :
    (world.settle (world.remove directory path)).2.received = world.received := by
  cases hremove : world.remove directory path with
  | error fault => rfl
  | ok changed =>
      obtain ⟨-, place, tree, -, -, -, -, hchange⟩ := remove_eq_ok_iff.mp hremove
      exact received_of_change hchange

/-- To hand out bytes that are all taken is to hand them out after what has been handed out. -/
theorem received_of_sendBytes {bytes : Bytes} (h : world.sendBytes bytes = (.ok (), after)) :
    after.tree = world.tree ∧ after.received = world.received ++ bytes := by
  unfold sendBytes at h
  split at h
  · obtain ⟨-, rfl⟩ := Prod.mk.inj h
    exact ⟨rfl, rfl⟩
  · rename_i left hleft
    obtain ⟨htaken, rfl⟩ := Prod.mk.inj h
    have hlength : bytes.length ≤ left := by
      by_contra hnot
      rw [if_neg hnot] at htaken
      cases htaken
    refine ⟨rfl, ?_⟩
    rw [List.take_of_length_le hlength]

/-- What has been handed out changes when something is sent, and then only. -/
theorem Replies.received_eq {request : Request} {reply : request.Reply}
    (h : Replies world request reply after) (hsend : ∀ bytes, request ≠ .send bytes) :
    after.received = world.received := by
  -- Making files and directories sends nothing on, and neither does any step of it.
  have hput {path : String} (htarget : request.target? = some path) :
      after.received = world.received :=
    h.file_induction (P := fun other => other.received = world.received) htarget
      (fun _ _ _ _ _ hbefore _ hputs => hputs.received_eq.trans hbefore) rfl
  have hmake {path : String} (hrequest : request = .makeDirectory path) :
      after.received = world.received :=
    h.directory_induction (P := fun other => other.received = world.received) hrequest
      (fun _ _ _ _ _ _ _ _ hbefore _ hadds => (received_of_change hadds.change).trans hbefore) rfl
  have hquestion (hquestion : request.isQuestion = true) : after.received = world.received := by
    rw [h.eq_of_isQuestion hquestion]
  -- Every request is of one of these kinds, except for those that are heard outside.
  cases request with
  | create path | append path contents | copy source path => exact hput rfl
  | makeDirectory path => exact hmake rfl
  | removeFile path | removeDirectory path =>
      rw [h.of_isRemoval rfl]
      exact received_of_remove
  | read | isDirectory | isExecutable | entries | survey | time => exact hquestion rfl
  | send bytes => exact absurd rfl (hsend bytes)
  | freshId | print | report =>
      cases h with
      | served => rfl
      | refused _ _ hleaves =>
          cases hleaves
          rfl

end Received

end Wireframe.Files.World

namespace Wireframe

open Files World

namespace Files.World

open Files.Tree

variable {world changed : World} {place : List String} {path : String} {contents : Bytes}

/-- A walk that ends where a file is put ends there again. -/
theorem walk_of_file {tree other : Tree} (hwithin : Within tree other)
    (hfile : other.kindAt place = some .file)
    (hfree : tree.kindAt place = none ∨ tree.kindAt place = some .file) {links : Nat}
    {start names : List String} (h : walk tree true links start names = some place) :
    walk other true links start names = some place := by
  -- a link brings in new names, but fewer links are left then
  induction links using Nat.strong_induction_on generalizing start names with
  | _ links ihlinks =>
    induction names generalizing start with
    | nil => rwa [walk_nil] at h ⊢
    | cons name names ih =>
        obtain ⟨hname, hstart, hwalk⟩ | ⟨rfl, hstart, hwalk⟩ | ⟨hname, hnext⟩ := walk_cons h
        · rw [walk_stay hname, if_pos (hwithin _ _ hstart)]
          exact ih hwalk
        · rw [walk_up, if_pos (hwithin _ _ hstart)]
          exact ih hwalk
        · obtain ⟨hdirectory, hwalk⟩ | ⟨target, fewer, hlink, hrest, rfl, hwalk⟩ | ⟨rfl, rfl, -⟩ :=
            hnext
          · rw [walk_enter hname (hwithin _ _ hdirectory)]
            exact ih hwalk
          · rw [walk_follow hname (hwithin _ _ hlink) hrest]
            exact ihlinks fewer (Nat.lt_succ_self fewer) hwalk
          · exact walk_file hname hfile

namespace Puts

/-- Where a path leads does not change when a file is put there. -/
theorem locate?_eq (h : Puts world place contents changed)
    (hlocate : world.locate? true path = some place) : changed.locate? true path = some place := by
  rw [World.locate?_eq, startOf, h.here_eq]
  exact walk_of_file h.within (kindAt_of_contentsAt? h.contentsAt?_self) h.free hlocate

/-- What is read afterwards is what was put. -/
theorem readFile_eq (h : Puts world place contents changed) (hallowed : allowed path = .ok ())
    (hlocate : world.locate? true path = some place) : changed.readFile path = .ok contents := by
  obtain ⟨mode, modified, hat⟩ := contentsAt?_eq_some_iff.mp h.contentsAt?_self
  refine bind_eq_ok.mpr ⟨(place, some (.file contents mode modified)), ?_, rfl⟩
  exact find_eq_ok_iff.mpr ⟨hallowed, h.locate?_eq hlocate, hat.symm⟩

end Puts

end Files.World

/-- A file that has been written holds what was to be written. -/
theorem Files.World.Runs.of_writeFile {world after : World} {path : String} {contents : Bytes}
    (h : Runs (writeFile path contents) world (.ok ()) after) :
    after.readFile path = .ok contents := by
  obtain ⟨reply, made, hcreate, hrest⟩ := runs_bind_iff.mp h
  cases reply with
  | error fault =>
      obtain ⟨hresult, -⟩ := runs_done_iff.mp hrest
      cases hresult
  | ok created =>
      obtain ⟨hallowed, place, hlocate, hmade⟩ :=
        puts_createFile (runs_request_iff.mp hcreate).of_create
      obtain ⟨-, other, held, hagain, hheld, hput⟩ :=
        puts_appendFile (runs_request_iff.mp hrest).of_append
      have hsame := hmade.locate?_eq hlocate
      obtain rfl : place = other := Option.some.inj (hsame.symm.trans hagain)
      obtain rfl : [] = held := Option.some.inj (hmade.contentsAt?_self.symm.trans hheld)
      exact hput.readFile_eq hallowed hsame

end Wireframe
