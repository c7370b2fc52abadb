/-
Two exports, turn by turn.

Each of two exports relies on the other one: a workspace is no older than its export, and no export takes
too long.  Turn by turn both do their part, as long as nobody takes too long or they have nothing to do
with each other.

* `Role` — the part of an export;
* `Marks`, `Marks.young` — what is seen of an export that is under way: its workspace is young;
* `Goes`, `Goes.step`, `Goes.later` — an export does its part, turn by turn;
* `Both`, `Both.play` — both of them do.
-/
import Wireframe.Proofs.Export.SharedSweep

namespace Wireframe.Export

open Files World Tree

/-- The part of an export: the names of its workspace, the name of its project, the age from which on it
sweeps workspaces away, and what is to come of it. -/
structure Role (α : Type) where
  names : List String
  slug : String
  age : Nat
  post : α → World → Prop

/-- There is no workspace with the names. -/
def IsFree (ground : Ground) (names : List String) (world : World) : Prop :=
  ∀ name ∈ names, world.tree.at? (ground.place ++ [name]) = none

/-- If anything has been asked for yet, it was for the first time at this time. -/
def IsSince {α : Type} (party : Party α) (began : Int) : Prop :=
  ∀ first, party.began = some first → first = began

/-- A workspace is no older than its export, and it is there only while the export is under way. -/
structure Marks {α : Type} (ground : Ground) (names : List String) (party : Party α) : Prop where
  idle : party.began = none → IsFree ground names party.world
  dated : ∀ first, party.began = some first → first ≤ party.world.clock ∧
    ∀ name ∈ names, ∀ inner, party.world.tree.at? (ground.place ++ [name]) = some inner →
      first ≤ inner.modified
  done : party.isDone = true → IsFree ground names party.world

/-- Workspaces of the other one are of another project, or the other one does not take too long. -/
def IsSafe {α : Type} (own other : Role α) (party : Party α) : Prop :=
  (∀ name ∈ other.names, ¬ isWorkspaceName name own.slug) ∨ party.IsPrompt own.age

/-- An export does its part beside another one. -/
structure Goes {α : Type} (ground : Ground) (own other : Role α) (party counterpart : Party α) : Prop where
  allows : ground.Allows party.world.tree
  marks : Marks ground own.names party
  sound : ∀ began, IsSince counterpart began →
    Sound (Relies ground own.names other.names (Young ground other.names own.slug own.age began))
      (Guarantees ground own.names other.names) own.post party.script party.world

section Turns

variable {α : Type} {ground : Ground} {names others : List String} {own other : Role α} {began : Int}
  {party counterpart : Party α} {world after : World}

theorem exists_isSince (party : Party α) : ∃ began, IsSince party began := by
  refine ⟨party.began.getD 0, fun first hfirst => ?_⟩
  rw [hfirst]
  rfl

/-- Nothing is done by waiting. -/
theorem Step.wait {own : List String} (hallows : ground.Allows world.tree) (seconds : Nat) :
    Step ground own others world (world.wait seconds) where
  clock := Int.le_add_of_nonneg_right (Int.natCast_nonneg seconds)
  allows := hallows
  varies := id
  spares := fun _ _ => rfl
  dates := fun _ _ inner hinner => .inl ⟨inner, hinner, rfl⟩

/-! ### What is seen of an export -/

namespace Marks

/-- The workspace of an export that does not take too long is too young to be swept away. -/
theorem young (h : Marks ground other.names party) (hsince : IsSince party began)
    (htree : world.tree = party.world.tree) (hclock : world.clock = party.world.clock)
    (hsafe : IsSafe own other party) : Young ground other.names own.slug own.age began world := by
  intro name hname hproject inner hinner
  rw [htree] at hinner
  have hthere : ¬ IsFree ground other.names party.world := by
    intro hfree
    rw [hfree name hname] at hinner
    cases hinner
  have hprompt : party.IsPrompt own.age := hsafe.resolve_left fun hapart => hapart name hname hproject
  obtain ⟨first, hfirst⟩ := Option.ne_none_iff_exists'.mp fun hnone => hthere (h.idle hnone)
  obtain rfl := hsince first hfirst
  rw [hclock]
  exact ⟨(h.dated first hfirst).2 name hname inner hinner,
    hprompt first hfirst (Bool.eq_false_of_not_eq_true fun hdone => hthere (h.done hdone))⟩

/-- Others leave the workspace alone, and it does not become older than it is. -/
theorem later (h : Marks ground names party) (hspares : ∀ name ∈ names,
      after.tree.at? (ground.place ++ [name]) = party.world.tree.at? (ground.place ++ [name]))
    (hclock : party.world.clock ≤ after.clock) : Marks ground names { party with world := after } where
  idle := fun hbegan name hname => (hspares name hname).trans (h.idle hbegan name hname)
  dated := by
    intro first hfirst
    obtain ⟨hbefore, hdated⟩ := h.dated first hfirst
    exact ⟨hbefore.trans hclock, fun name hname inner hinner =>
      hdated name hname inner ((hspares name hname).symm.trans hinner)⟩
  done := fun hdone name hname => (hspares name hname).trans (h.done hdone name hname)

/-- The workspace of an export is made or changed after the export has begun. -/
theorem step (h : Marks ground names party) (hstep : Step ground names others party.world party.step.world)
    (hdone : party.step.isDone = true → IsFree ground names party.step.world) :
    Marks ground names party.step := by
  obtain ⟨script, world, began⟩ := party
  cases script with
  | done result => exact h
  | ask request next =>
      refine ⟨nofun, ?_, hdone⟩
      rintro first ⟨⟩
      cases began with
      | none =>
          refine ⟨hstep.clock, fun name hname inner hinner => ?_⟩
          obtain ⟨old, hold, -⟩ | hlate := hstep.dates name hname inner hinner
          · rw [h.idle rfl name hname] at hold
            cases hold
          · exact hlate
      | some first =>
          obtain ⟨hbefore, hdated⟩ := h.dated first rfl
          refine ⟨hbefore.trans hstep.clock, fun name hname inner hinner => ?_⟩
          obtain ⟨old, hold, hsame⟩ | hlate := hstep.dates name hname inner hinner
          · exact hsame ▸ hdated name hname old hold
          · exact hbefore.trans hlate

end Marks

/-! ### Doing one's part, turn by turn -/

namespace Goes

/-- Whatever others do that may be relied on, an export goes on doing its part. -/
theorem later (h : Goes ground own other party counterpart) {changed : Party α}
    (hsince : ∀ began, IsSince changed began → IsSince counterpart began)
    (hrelies : ∀ began, IsSince changed began → Relies ground own.names other.names
      (Young ground other.names own.slug own.age began) party.world after) :
    Goes ground own other { party with world := after } changed := by
  obtain ⟨began, hbegan⟩ := exists_isSince changed
  have hstep := (hrelies began hbegan).step
  exact ⟨hstep.allows, h.marks.later hstep.spares hstep.clock, fun began hbegan =>
    (h.sound began (hsince began hbegan)).delay (isRely_relies _) (hrelies began hbegan)⟩

/-- Nothing happens where the other one is too young. -/
theorem relies_self (h : Goes ground own other party counterpart)
    (hyoung : Young ground other.names own.slug own.age began party.world) :
    Relies ground own.names other.names (Young ground other.names own.slug own.age began)
      party.world party.world := ⟨rfl, .refl h.allows, hyoung⟩

theorem guarantees (h : Goes ground own other party counterpart) (hsince : IsSince counterpart began)
    (hyoung : Young ground other.names own.slug own.age began party.world) :
    Guarantees ground own.names other.names party.world party.step.world := by
  have hsound := h.sound began hsince
  have hself := h.relies_self hyoung
  have hallows := h.allows
  obtain ⟨script, world, first⟩ := party
  cases script with
  | done result => exact .of_same hallows rfl rfl rfl
  | ask request next => exact (hsound world hself).1

/-- An export goes on with its next request. -/
theorem step (h : Goes ground own other party counterpart)
    (hpost : ∀ result later, own.post result later → IsFree ground own.names later)
    (hbefore : ∀ began, IsSince counterpart began →
      Young ground other.names own.slug own.age began party.world)
    (hafter : ∀ began, IsSince counterpart began →
      Young ground other.names own.slug own.age began party.step.world) :
    Goes ground own other party.step counterpart := by
  obtain ⟨began, hbegan⟩ := exists_isSince counterpart
  have hguarantees := h.guarantees hbegan (hbefore began hbegan)
  have hallows := hguarantees.step.allows
  have hsound : ∀ began, IsSince counterpart began →
      Sound (Relies ground own.names other.names (Young ground other.names own.slug own.age began))
        (Guarantees ground own.names other.names) own.post party.step.script party.step.world := by
    intro began hbegan
    have hsound := h.sound began hbegan
    have hself := h.relies_self (hbefore began hbegan)
    obtain ⟨script, world, first⟩ := party
    cases script with
    | done result => exact hsound
    | ask request next => exact (hsound world hself).2
  refine ⟨hallows, h.marks.step hguarantees.step fun hdone => ?_, hsound⟩
  -- what has come to its end has come to the end that it should
  have hlast := hsound began hbegan
  have hyoung := hafter began hbegan
  generalize party.step = last at hdone hlast hyoung hallows ⊢
  obtain ⟨script, world, first⟩ := last
  cases script with
  | done result => exact hpost result world (hlast world ⟨rfl, .refl hallows, hyoung⟩)
  | ask request next => cases hdone

end Goes

/-! ### Both of them -/

/-- Neither sweeps away the workspace of the other one. -/
def AreSafe (mine yours : Role α) (company : Company α) : Prop :=
  IsSafe yours mine company.left ∧ IsSafe mine yours company.right

/-- Both exports do their parts. -/
structure Both (ground : Ground) (mine yours : Role α) (company : Company α) : Prop where
  common : company.IsCommon
  left : Goes ground mine yours company.left company.right
  right : Goes ground yours mine company.right company.left

namespace Both

variable {mine yours : Role α} {company : Company α} {turns : List Turn}

theorem swap (h : Both ground mine yours company) : Both ground yours mine company.swap :=
  ⟨⟨h.common.1.symm, h.common.2.symm⟩, h.right, h.left⟩

/-- After a turn of the first one. -/
theorem turn_left (h : Both ground mine yours company)
    (hpost : ∀ result later, mine.post result later → IsFree ground mine.names later)
    (hbefore : AreSafe mine yours company) (hafter : AreSafe mine yours (company.turn .left)) :
    Both ground mine yours (company.turn .left) := by
  obtain ⟨left, right⟩ := company
  obtain ⟨⟨htree, hclock⟩, hleft, hright⟩ := h
  -- The right side has marked its names, and they are too young for the left side to sweep.
  have hyoung : ∀ began, IsSince right began →
      Young ground yours.names mine.slug mine.age began left.world := fun began hbegan =>
    hright.marks.young hbegan htree.symm hclock.symm hbefore.2
  obtain ⟨began, hbegan⟩ := exists_isSince right
  have hguarantees := hleft.guarantees hbegan (hyoung began hbegan)
  -- The step is seen by the right side as a step in its own world.
  have hstep : Step ground mine.names yours.names right.world (right.world.sees left.step.world) :=
    hguarantees.step.congr htree hclock rfl rfl
  have hmarks : Marks ground yours.names (right.sees left.step.world) :=
    hright.marks.later hstep.spares hstep.clock
  have hgoes : Goes ground mine yours left.step right := hleft.step hpost hyoung fun began hbegan =>
    hmarks.young hbegan rfl rfl hafter.2
  -- A left side that has begun has begun before the step as well.
  have hsince : ∀ began, IsSince left.step began → IsSince left began := by
    intro began hbegan first hfirst
    refine hbegan first ?_
    obtain ⟨script, world, began⟩ := left
    cases script with
    | done => exact hfirst
    | ask request next => exact congrArg (fun began : Option Int => some (began.getD world.clock)) hfirst
  exact ⟨⟨rfl, rfl⟩, ⟨hgoes.allows, hgoes.marks, hgoes.sound⟩, hright.later hsince fun began hbegan =>
    ⟨rfl, hstep, hgoes.marks.young hbegan rfl rfl hafter.1⟩⟩

/-- After some time. -/
theorem turn_wait (h : Both ground mine yours company) {seconds : Nat}
    (hafter : AreSafe mine yours (company.turn (.wait seconds))) :
    Both ground mine yours (company.turn (.wait seconds)) := by
  obtain ⟨left, right⟩ := company
  obtain ⟨⟨htree, hclock⟩, hleft, hright⟩ := h
  have hsame : (right.wait seconds).world.clock = (left.wait seconds).world.clock :=
    congrArg (· + (seconds : Int)) hclock
  have hmarks : Marks ground mine.names (left.wait seconds) :=
    hleft.marks.later (fun _ _ => rfl) (Int.le_add_of_nonneg_right (Int.natCast_nonneg seconds))
  have hmarks' : Marks ground yours.names (right.wait seconds) :=
    hright.marks.later (fun _ _ => rfl) (Int.le_add_of_nonneg_right (Int.natCast_nonneg seconds))
  refine ⟨⟨htree, hsame⟩, hleft.later (fun _ hbegan => hbegan) fun began hbegan => ⟨rfl, ?_, ?_⟩,
    hright.later (fun _ hbegan => hbegan) fun began hbegan => ⟨rfl, ?_, ?_⟩⟩
  · exact .wait hleft.allows seconds
  · exact hmarks'.young hbegan htree.symm hsame.symm hafter.2
  · exact .wait hright.allows seconds
  · exact hmarks.young hbegan htree hsame hafter.1

/-- After many turns. -/
theorem play (h : Both ground mine yours company)
    (hpost : ∀ result later, mine.post result later → IsFree ground mine.names later)
    (hpost' : ∀ result later, yours.post result later → IsFree ground yours.names later)
    (hsafe : ∀ front, front <+: turns → AreSafe mine yours (company.play front)) :
    Both ground mine yours (company.play turns) := by
  induction turns using List.reverseRecOn with
  | nil => exact h
  | append_singleton turns turn ih =>
      have hbefore := hsafe turns (List.prefix_append _ _)
      have hafter := hsafe (turns ++ [turn]) List.prefix_rfl
      have hboth := ih fun front hfront => hsafe front (hfront.trans (List.prefix_append _ _))
      rw [Company.play_concat] at hafter ⊢
      cases turn with
      | left => exact hboth.turn_left hpost hbefore hafter
      | right => exact (hboth.swap.turn_left hpost' hbefore.symm hafter.symm).swap
      | wait seconds => exact hboth.turn_wait hafter

/-- When an export has come to its end, that is the end that it should come to. -/
theorem post_of_done (h : Both ground mine yours company) (hsafe : AreSafe mine yours company)
    {result : α} (hdone : company.left.script = .done result) :
    mine.post result company.left.world := by
  obtain ⟨began, hbegan⟩ := exists_isSince company.right
  have hsound := h.left.sound began hbegan
  have hyoung := h.right.marks.young hbegan h.common.1.symm h.common.2.symm hsafe.2
  rw [hdone] at hsound
  exact hsound _ (h.left.relies_self hyoung)

end Both

end Turns

end Wireframe.Export
