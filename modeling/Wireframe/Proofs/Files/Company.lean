/-
Scripts side by side.

Two scripts may be under way at the same time.  They have files and time in common, and everything else
is their own; whose turn it is, is not up to them.  A script does its part if it does so whatever others
do between two of its requests.

* `Party`, `Company` — a script that is under way, and two of them;
* `Turn`, `Company.play` — who may go on, and what comes of many turns;
* `Company.InTime`, `inTime_of_waiting` — nobody takes too long;
* `exists_play_done` — everybody may come to an end;
* `Sound` — what a script does, given what others do.
-/
import Mathlib.Algebra.GroupWithZero.Nat
import Wireframe.Proofs.Files.Making

namespace Wireframe.Files

open World

/-- Files and time as in another world, and everything else as in this one. -/
def World.sees (own other : World) : World := { own with tree := other.tree, clock := other.clock }

/-- Who sees a world sees it after a change of files. -/
theorem World.sees_of_change {own world after : World} (h : world = own.sees world)
    (hafter : after = { world with tree := after.tree }) : after = own.sees after := by
  rw [hafter, h]
  rfl

/-- The world some seconds later. -/
def World.wait (world : World) (seconds : Nat) : World :=
  { world with clock := world.clock + seconds }

/-- A script that is under way. -/
structure Party (α : Type) where
  /-- What there is still to do. -/
  script : Script α
  world : World
  /-- When something was asked for the first time. -/
  began : Option Int := none

/-- Two scripts that are under way. -/
structure Company (α : Type) where
  left : Party α
  right : Party α

/-- Who may go on.  Nobody may for some seconds. -/
inductive Turn
  | left
  | right
  | wait (seconds : Nat)

variable {α β : Type}

namespace Party

/-- There is nothing left to do. -/
def isDone (party : Party α) : Bool :=
  match party.script with
  | .done _ => true
  | .ask _ _ => false

theorem isDone_iff {party : Party α} :
    party.isDone = true ↔ ∃ result, party.script = .done result := by
  rw [isDone]
  cases party.script <;> simp

/-- The next request. -/
def step (party : Party α) : Party α :=
  match party.script with
  | .done _ => party
  | .ask request next =>
      { script := next (party.world.reply request).1
        world := (party.world.reply request).2
        began := some (party.began.getD party.world.clock) }

/-- What others have done to files and time. -/
def sees (party : Party α) (world : World) : Party α :=
  { party with world := party.world.sees world }

def wait (party : Party α) (seconds : Nat) : Party α :=
  { party with world := party.world.wait seconds }

/-- If the script is under way, it has not been for as many seconds. -/
def IsPrompt (party : Party α) (limit : Nat) : Prop :=
  ∀ began, party.began = some began → party.isDone = false → party.world.clock < began + limit

end Party

/-- The other one. -/
def Turn.swap : Turn → Turn
  | .left => .right
  | .right => .left
  | .wait seconds => .wait seconds

/-- How long a turn takes. -/
def Turn.seconds : Turn → Nat
  | .wait seconds => seconds
  | _ => 0

namespace Company

/-- One turn. -/
def turn (company : Company α) : Turn → Company α
  | .left => ⟨company.left.step, company.right.sees company.left.step.world⟩
  | .right => ⟨company.left.sees company.right.step.world, company.right.step⟩
  | .wait seconds => ⟨company.left.wait seconds, company.right.wait seconds⟩

/-- Many turns. -/
def play (company : Company α) (turns : List Turn) : Company α := turns.foldl turn company

/-- Nobody takes as long as the other one allows for. -/
def InTime (company : Company α) (turns : List Turn) (leftLimit rightLimit : Nat) : Prop :=
  ∀ front, front <+: turns → (company.play front).left.IsPrompt leftLimit ∧
    (company.play front).right.IsPrompt rightLimit

/-- The same company from the other side. -/
def swap (company : Company α) : Company α := ⟨company.right, company.left⟩

section Turns

variable {company : Company α} {turns : List Turn} {leftLimit rightLimit : Nat}

theorem play_concat (company : Company α) (turns : List Turn) (turn : Turn) :
    company.play (turns ++ [turn]) = (company.play turns).turn turn := by
  rw [play, List.foldl_append]
  rfl

theorem swap_turn (company : Company α) (turn : Turn) :
    (company.turn turn).swap = company.swap.turn turn.swap := by
  cases turn <;> rfl

theorem play_swap (company : Company α) (turns : List Turn) :
    company.swap.play (turns.map Turn.swap) = (company.play turns).swap := by
  induction turns generalizing company with
  | nil => rfl
  | cons turn turns ih =>
      rw [List.map_cons, play, List.foldl_cons, ← swap_turn]
      exact ih (company.turn turn)

/-- Files and time are the same for both. -/
def IsCommon (company : Company α) : Prop :=
  company.right.world.tree = company.left.world.tree ∧
    company.right.world.clock = company.left.world.clock

end Turns

/-! ### Coming to an end -/

/-- The first one may go on to its end at once. -/
theorem exists_play_left (company : Company α) :
    ∃ turns, (∀ turn ∈ turns, turn.seconds = 0) ∧ (company.play turns).left.isDone = true ∧
      (company.play turns).right.script = company.right.script := by
  obtain ⟨⟨script, world, began⟩, right⟩ := company
  induction script generalizing world began right with
  | done result => exact ⟨[], nofun, rfl, rfl⟩
  | ask request next ih =>
      obtain ⟨turns, htime, hleft, hright⟩ := ih (world.reply request).1
        (right.sees (world.reply request).2) (world.reply request).2 (some (began.getD world.clock))
      exact ⟨.left :: turns, List.forall_mem_cons.mpr ⟨rfl, htime⟩, hleft, hright⟩

/-- Whatever has happened, both may come to an end at once. -/
theorem exists_play_done (company : Company α) :
    ∃ turns, (∀ turn ∈ turns, turn.seconds = 0) ∧ (company.play turns).left.isDone = true ∧
      (company.play turns).right.isDone = true := by
  obtain ⟨first, hfirst, hleft, -⟩ := company.exists_play_left
  obtain ⟨second, hsecond, hright, hscript⟩ := (company.play first).swap.exists_play_left
  have hplay : company.play (first ++ second.map Turn.swap) =
      ((company.play first).swap.play second).swap := by
    rw [play, List.foldl_append]
    exact play_swap (company.play first).swap second
  have hsame : ((company.play first).swap.play second).swap.left.script =
      (company.play first).left.script := hscript
  refine ⟨first ++ second.map Turn.swap, List.forall_mem_append.mpr ⟨hfirst, ?_⟩, ?_⟩
  · intro turn hturn
    obtain ⟨other, hother, rfl⟩ := List.mem_map.mp hturn
    cases other with
    | wait seconds => exact hsecond _ hother
    | _ => rfl
  · rw [hplay, Party.isDone, hsame]
    exact ⟨hleft, hright⟩

end Company

/-! ### Time -/

/-- Time stands still while a request is replied. -/
theorem World.clock_reply (world : World) (request : Request) :
    (world.reply request).2.clock = world.clock := by
  -- Whatever is changed is changed in the tree, and a request that fails changes nothing.
  have hchange {place : List String} {put : Option Tree} {changed : World}
      (h : world.change place put = .ok changed) : changed.clock = world.clock := by
    rw [(change_eq_ok_iff.mp h).2]
  have hputs {place : List String} {contents : Bytes} {changed : World}
      (h : Puts world place contents changed) : changed.clock = world.clock := by
    obtain ⟨mode, hput⟩ := h.change
    exact hchange hput
  have hsettle (result : Except Fault World)
      (h : ∀ changed, result = .ok changed → changed.clock = world.clock) :
      (world.settle result).2.clock = world.clock := by
    cases result with
    | error fault => rfl
    | ok changed => exact h changed rfl
  have hremove (directory : Bool) (path : String) :
      (world.settle (world.remove directory path)).2.clock = world.clock := by
    refine hsettle _ fun changed h => ?_
    obtain ⟨-, place, tree, -, -, -, -, h⟩ := remove_eq_ok_iff.mp h
    exact hchange h
  -- The requests that can change something; the others leave the world as it is.
  cases request with
  | create path =>
      refine hsettle _ fun changed h => ?_
      obtain ⟨-, place, -, hput⟩ := puts_createFile h
      exact hputs hput
  | append path contents =>
      refine hsettle _ fun changed h => ?_
      obtain ⟨-, place, before, -, -, hput⟩ := puts_appendFile h
      exact hputs hput
  | copy source target =>
      refine hsettle _ fun changed h => ?_
      obtain ⟨-, origin, place, contents, -, -, -, hput⟩ := puts_copyFile h
      exact hputs hput
  | makeDirectory path =>
      rw [reply, makeDirectory]
      split
      · rfl
      · split
        · rw [(makeAlong_within _ _ _ _).1]
        · rfl
  | removeFile path => exact hremove false path
  | removeDirectory path => exact hremove true path
  | send bytes =>
      rw [reply, sendBytes]
      split <;> rfl
  | _ => rfl

/-- So many seconds have passed since the start, and nothing was asked for before it. -/
structure Party.HasPassed (start : Int) (seconds : Nat) (party : Party α) : Prop where
  clock : party.world.clock = start + seconds
  began : ∀ began, party.began = some began → start ≤ began

namespace Party.HasPassed

variable {party : Party α} {world : World} {start : Int} {seconds : Nat}

theorem step (h : party.HasPassed start seconds) : party.step.HasPassed start seconds := by
  obtain ⟨script, world, began⟩ := party
  cases script with
  | done result => exact h
  | ask request next =>
      refine ⟨(world.clock_reply request).trans h.clock, ?_⟩
      rintro first ⟨⟩
      cases began with
      | none =>
          have hclock : world.clock = start + seconds := h.clock
          rw [Option.getD_none, hclock]
          exact Int.le_add_of_nonneg_right (Int.natCast_nonneg seconds)
      | some first => exact h.began first rfl

theorem sees (h : party.HasPassed start seconds) (hworld : world.clock = start + seconds) :
    (party.sees world).HasPassed start seconds := ⟨hworld, h.began⟩

theorem wait (h : party.HasPassed start seconds) (more : Nat) :
    (party.wait more).HasPassed start (seconds + more) := by
  refine ⟨?_, h.began⟩
  rw [Int.natCast_add, ← Int.add_assoc, ← h.clock]
  rfl

theorem isPrompt (h : party.HasPassed start seconds) {limit : Nat} (hlimit : seconds < limit) :
    party.IsPrompt limit := by
  intro began hbegan _
  have hstart := h.began began hbegan
  have hclock := h.clock
  omega

end Party.HasPassed

namespace Company

/-- How long nobody goes on, all in all. -/
def waiting (turns : List Turn) : Nat := (turns.map Turn.seconds).sum

theorem waiting_append (turns more : List Turn) :
    waiting (turns ++ more) = waiting turns + waiting more := by
  rw [waiting, List.map_append, List.sum_append]
  rfl

/-- Nothing takes time but waiting. -/
theorem hasPassed_play {company : Company α} {start : Int} {seconds : Nat}
    (hleft : company.left.HasPassed start seconds) (hright : company.right.HasPassed start seconds)
    (turns : List Turn) : (company.play turns).left.HasPassed start (seconds + waiting turns) ∧
      (company.play turns).right.HasPassed start (seconds + waiting turns) := by
  induction turns using List.reverseRecOn with
  | nil => exact ⟨hleft, hright⟩
  | append_singleton turns turn ih =>
      have hwaiting : seconds + waiting (turns ++ [turn]) = seconds + waiting turns + turn.seconds := by
        rw [waiting_append, Nat.add_assoc]
        rfl
      rw [play_concat, hwaiting]
      obtain ⟨hleft, hright⟩ := ih
      cases turn with
      | left => exact ⟨hleft.step, hright.sees hleft.step.clock⟩
      | right => exact ⟨hleft.sees hright.step.clock, hright.step⟩
      | wait more => exact ⟨hleft.wait more, hright.wait more⟩

/-- Nobody takes too long if all waiting together is not too long. -/
theorem inTime_of_waiting {company : Company α} {turns : List Turn} {leftLimit rightLimit : Nat}
    (hcommon : company.IsCommon) (hleft : company.left.began = none)
    (hright : company.right.began = none) (hleftLimit : waiting turns < leftLimit)
    (hrightLimit : waiting turns < rightLimit) : company.InTime turns leftLimit rightLimit := by
  intro front hfront
  obtain ⟨rest, rfl⟩ := hfront
  have hwaiting : waiting front ≤ waiting (front ++ rest) := by
    rw [waiting_append]
    exact Nat.le_add_right _ _
  have hbefore {party : Party α} (hbegan : party.began = none)
      (hclock : party.world.clock = company.left.world.clock) :
      party.HasPassed company.left.world.clock 0 := by
    refine ⟨hclock.trans (Int.add_zero _).symm, fun began h => ?_⟩
    rw [hbegan] at h
    cases h
  obtain ⟨hfirst, hsecond⟩ := hasPassed_play (hbefore hleft rfl) (hbefore hright hcommon.2) front
  rw [Nat.zero_add] at hfirst hsecond
  exact ⟨hfirst.isPrompt (hwaiting.trans_lt hleftLimit),
    hsecond.isPrompt (hwaiting.trans_lt hrightLimit)⟩

end Company

/-! ### Doing one's part -/

section Sound

variable {rely guarantee : World → World → Prop} {post : α → World → Prop} {mid : β → World → Prop}
  {script : Script α} {world later : World}

/-- A script makes changes that are guaranteed and ends as it should, whatever changes others make
between its requests, if they are changes that may be relied on. -/
def Sound (rely guarantee : World → World → Prop) (post : α → World → Prop) :
    Script α → World → Prop
  | .done result, world => ∀ later, rely world later → post result later
  | .ask request next, world => ∀ later, rely world later →
      guarantee later (later.reply request).2 ∧
        Sound rely guarantee post (next (later.reply request).1) (later.reply request).2

/-- Changes that may be relied on come one after the other, and there may be none. -/
structure IsRely (rely : World → World → Prop) : Prop where
  refl : ∀ world later, rely world later → rely later later
  trans : ∀ world later last, rely world later → rely later last → rely world last

namespace Sound

/-- A script that does its part still does so later. -/
theorem delay (h : Sound rely guarantee post script world) (hrely : IsRely rely)
    (hlater : rely world later) : Sound rely guarantee post script later := by
  cases script with
  | done result => exact fun last hlast => h last (hrely.trans _ _ _ hlater hlast)
  | ask request next => exact fun last hlast => h last (hrely.trans _ _ _ hlater hlast)

theorem of_later (hrely : IsRely rely)
    (h : ∀ later, rely world later → Sound rely guarantee post script later) :
    Sound rely guarantee post script world := by
  cases script with
  | done result => exact fun last hlast => h last hlast last (hrely.refl _ _ hlast)
  | ask request next => exact fun last hlast => h last hlast last (hrely.refl _ _ hlast)

theorem mono {post' : α → World → Prop} (h : Sound rely guarantee post script world)
    (hpost : ∀ result later, post result later → post' result later) :
    Sound rely guarantee post' script world := by
  induction script generalizing world with
  | done result => exact fun later hlater => hpost result later (h later hlater)
  | ask request next ih => exact fun later hlater => ⟨(h later hlater).1, ih _ (h later hlater).2⟩

/-- One script after the other. -/
theorem bind {script : Script β} {f : β → Script α} (hrely : IsRely rely)
    (h : Sound rely guarantee mid script world)
    (hf : ∀ b later, mid b later → Sound rely guarantee post (f b) later) :
    Sound rely guarantee post (script.bind f) world := by
  induction script generalizing world with
  | done b => exact .of_later hrely fun later hlater => hf b later (h later hlater)
  | ask request next ih =>
      intro later hlater
      obtain ⟨hguarantee, hnext⟩ := h later hlater
      exact ⟨hguarantee, ih _ hnext⟩

/-- A single request. -/
theorem request {request : Request} {post : request.Reply → World → Prop}
    (h : ∀ later, rely world later → guarantee later (later.reply request).2 ∧
      ∀ last, rely (later.reply request).2 last → post (later.reply request).1 last) :
    Sound rely guarantee post (Script.request request) world := h

/-- A script that does its part does so when there is nobody else. -/
theorem run (h : Sound rely guarantee post script world) (P : World → Prop)
    (hrely : ∀ world, P world → rely world world)
    (hguarantee : ∀ world after, P world → guarantee world after → P after) (hworld : P world) :
    post (world.run script).1 (world.run script).2 := by
  induction script generalizing world with
  | done result => exact h world (hrely world hworld)
  | ask request next ih =>
      obtain ⟨hafter, hnext⟩ := h world (hrely world hworld)
      exact ih _ hnext (hguarantee _ _ hworld hafter)

end Sound

end Sound

end Wireframe.Files
