/-
What a path leads to.

Most of what is replied about a path depends on what the path leads to, and not on when that was
changed.

* `World.found` — what a path leads to, without times;
* `readFile_eq`, `survey_eq`, `isExecutable_eq` — replies that depend on nothing else;
* `World.putFile`, `createFile_eq`, `appendFile_eq`, `copyFile_eq` — what is put where a path leads;
* `isDirectory_iff_reaches` — paths of directories;
* `walk_names` — where names lead if there are no links.
-/
import Wireframe.Proofs.Files.Effect
import Wireframe.Proofs.Files.Timeless

namespace Wireframe.Files.World

open Files.Tree

/-- What a path leads to, without times. -/
def found (world : World) (path : String) : Except Fault (Option Tree) :=
  (world.find true path).map fun found => found.2.map timeless

/-- The world with a file put where a path leads; contents and permissions depend on what is there. -/
def putFile (world : World) (path : String) (put : Option Tree → Option (Bytes × Nat)) :
    Except Fault World := do
  let (place, tree) ← world.find true path
  match put tree with
  | some (contents, mode) => world.change place (some (.file contents mode world.clock))
  | none => throw refused

/-- An empty file, with the permissions of the one that is there. -/
def created : Option Tree → Option (Bytes × Nat)
  | none => some ([], plainMode)
  | some (.file _ mode _) => some ([], mode)
  | _ => none

/-- The file that is there with more in it. -/
def appended (more : Bytes) : Option Tree → Option (Bytes × Nat)
  | some (.file contents mode _) => some (contents ++ more, mode)
  | _ => none

/-- A copy of a file, in the place of another or where there is nothing. -/
def copied : (source target : Option Tree) → Option (Bytes × Nat)
  | some (.file contents mode _), none => some (contents, mode)
  | some (.file contents mode _), some (.file _ _ _) => some (contents, mode)
  | _, _ => none

section Finding

variable {world : World} {path : String} {place names : List String}

/-! ### Replies -/

theorem readFile_eq (world : World) (path : String) :
    world.readFile path = match world.found path with
      | .ok (some (.file contents _ _)) => .ok contents
      | .ok _ => .error refused
      | .error fault => .error fault := by
  unfold readFile found
  cases world.find true path with
  | error fault => rfl
  | ok pair =>
      obtain ⟨place, tree⟩ := pair
      cases tree with
      | none => rfl
      | some tree => cases tree <;> rfl

theorem isExecutable_eq (world : World) (path : String) :
    world.isExecutable path = match world.found path with
      | .ok (some (.file _ mode _)) => mode &&& 0o111 != 0
      | _ => false := by
  unfold isExecutable found
  cases world.find true path with
  | error fault => rfl
  | ok pair =>
      obtain ⟨place, tree⟩ := pair
      cases tree with
      | none => rfl
      | some tree => cases tree <;> rfl

theorem survey_eq (world : World) (path : String) (enters : List String → Bool) :
    world.survey path enters = match world.found path with
      | .ok (some tree) => .ok (tree.shape.seen enters)
      | .ok none => .error refused
      | .error fault => .error fault := by
  unfold survey found
  cases world.find true path with
  | error fault => rfl
  | ok pair =>
      obtain ⟨place, tree⟩ := pair
      cases tree with
      | none => rfl
      | some tree => exact congrArg (Except.ok <| Shape.seen enters ·) (shape_timeless tree).symm

/-! ### Files that are put somewhere -/

theorem createFile_eq (world : World) (path : String) :
    world.createFile path = world.putFile path created := by
  unfold createFile putFile
  cases world.find true path with
  | error fault => rfl
  | ok pair =>
      obtain ⟨place, tree⟩ := pair
      cases tree with
      | none => rfl
      | some tree => cases tree <;> rfl

theorem appendFile_eq (world : World) (path : String) (more : Bytes) :
    world.appendFile path more = world.putFile path (appended more) := by
  unfold appendFile putFile
  cases world.find true path with
  | error fault => rfl
  | ok pair =>
      obtain ⟨place, tree⟩ := pair
      cases tree with
      | none => rfl
      | some tree => cases tree <;> rfl

theorem copyFile_eq (world : World) (source target : String) :
    world.copyFile source target = world.find true source >>= fun found =>
      world.putFile target (copied found.2) := by
  unfold copyFile putFile
  cases world.find true source with
  | error fault => rfl
  | ok pair =>
      obtain ⟨origin, tree⟩ := pair
      cases world.find true target with
      | error fault => rfl
      | ok pair =>
          obtain ⟨place, other⟩ := pair
          cases tree with
          | none => rfl
          | some tree =>
              cases other with
              | none => cases tree <;> rfl
              | some other => cases tree <;> cases other <;> rfl

theorem created_timeless (tree : Option Tree) : created (tree.map timeless) = created tree := by
  cases tree with
  | none => rfl
  | some tree => cases tree <;> rfl

theorem appended_timeless (more : Bytes) (tree : Option Tree) :
    appended more (tree.map timeless) = appended more tree := by
  cases tree with
  | none => rfl
  | some tree => cases tree <;> rfl

theorem copied_timeless (source target : Option Tree) :
    copied (source.map timeless) (target.map timeless) = copied source target := by
  cases source with
  | none => rfl
  | some source =>
      cases target with
      | none => cases source <;> rfl
      | some target => cases source <;> cases target <;> rfl

/-! ### Directories -/

/-- The path of a directory. -/
theorem isDirectory_iff_reaches : world.isDirectory path = true ↔
    allowed path = .ok () ∧ ∃ place, world.Reaches path place := by
  constructor
  · intro h
    unfold isDirectory at h
    split at h
    · rename_i place tree hfind
      obtain ⟨hallowed, hlocate, hat⟩ := find_eq_ok_iff.mp hfind
      refine ⟨hallowed, place, (reaches_iff (ne_empty_of_allowed hallowed)).mpr
        ⟨hlocate, World.isDirectory_iff.mp ?_⟩⟩
      rw [← hat]
      exact h
    · cases h
  · rintro ⟨hallowed, place, hreaches⟩
    obtain ⟨hlocate, hdirectory⟩ := (reaches_iff (ne_empty_of_allowed hallowed)).mp hreaches
    obtain ⟨tree, hat, hkind⟩ := Option.map_eq_some_iff.mp hdirectory
    have hfind : world.find true path = .ok (place, some tree) :=
      find_eq_ok_iff.mpr ⟨hallowed, hlocate, hat.symm⟩
    simp only [isDirectory, hfind]
    cases tree with
    | directory => rfl
    | _ => cases hkind

theorem found_of_locate? (h : world.locate? true path = some place) :
    world.found path = (allowed path).map fun _ => (world.tree.at? place).map timeless := by
  unfold found find
  cases allowed path with
  | error fault => rfl
  | ok =>
      rw [h]
      rfl

/-! ### Names -/

/-- Where names lead if there are no links on the way: they name a place in a directory. -/
theorem walk_names {tree : Tree} {follow : Bool} {links : Nat}
    (hplace : tree.kindAt place = some .directory) (hne : names ≠ [])
    (hnames : ∀ name ∈ names, name ∉ ["", ".", ".."])
    (hlinks : ∀ front, front ≠ [] → front <+: names →
      ∀ path, tree.kindAt (place ++ front) ≠ some (.link path)) :
    walk tree follow links place names =
      if tree.kindAt (place ++ names.dropLast) = some .directory then some (place ++ names)
      else none := by
  induction names generalizing place with
  | nil => exact absurd rfl hne
  | cons name names ih =>
      obtain ⟨hname, hrest⟩ := List.forall_mem_cons.mp hnames
      have hlink := hlinks [name] (List.cons_ne_nil _ _) ⟨names, rfl⟩
      by_cases hlast : names = []
      · subst hlast
        rw [List.dropLast_singleton, List.append_nil, if_pos hplace, walk_name_eq hname]
        cases hat : tree.at? (place ++ [name]) with
        | none => simp [World.isDirectory_iff.mpr hplace]
        | some inner =>
            cases inner with
            | file => rfl
            | directory => rw [walk_nil]
            | link path modified => exact absurd (kindAt_eq_link_iff.mpr ⟨modified, hat⟩) (hlink path)
      · have hdrop : (name :: names).dropLast = name :: names.dropLast :=
          List.dropLast_cons_of_ne_nil hlast
        rw [hdrop]
        by_cases hdirectory : tree.kindAt (place ++ [name]) = some .directory
        · rw [walk_enter hname hdirectory, ih hdirectory hlast hrest fun front hfront hbegins path => ?_,
            List.append_assoc, List.append_assoc]
          · rfl
          · rw [List.append_assoc]
            exact hlinks (name :: front) (List.cons_ne_nil _ _) ((List.prefix_cons_inj name).mpr hbegins)
              path
        · -- what is not a directory holds nothing
          have hnone : tree.kindAt (place ++ name :: names.dropLast) ≠ some .directory := by
            intro hbelow
            by_cases hnil : names.dropLast = []
            · rw [hnil] at hbelow
              exact hdirectory hbelow
            · rw [List.append_cons] at hbelow
              exact hdirectory (kindAt_of_append hbelow hnil)
          rw [if_neg hnone]
          refine Option.eq_none_iff_forall_ne_some.mpr fun result hwalk => ?_
          obtain ⟨hkind, -⟩ | ⟨path, fewer, hkind, -⟩ | ⟨hnil, -⟩ := walk_name_cons hname hwalk
          · exact hdirectory hkind
          · exact hlink path hkind
          · exact hlast hnil

end Finding

end Wireframe.Files.World
