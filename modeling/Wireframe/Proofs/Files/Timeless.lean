/-
Trees without times.

Apart from the sweep of a work root, nothing that is replied depends on when files were changed.  Trees
that are the same but for times are looked at, and changed, in the same way.

* `timeless` — a tree without times;
* `at?_timeless`, `change?_timeless` — what is at a place, and what it is after a change;
* `modified_change` — what is at a place is as old as before, or it has been changed now.
-/
import Wireframe.Proofs.Files.Proper

namespace Wireframe.Files.Tree

mutual

/-- The tree without times. -/
def timeless : Tree → Tree
  | .file contents mode _ => .file contents mode 0
  | .directory entries _ => .directory (timelessOf entries) 0
  | .link target _ => .link target 0

/-- The entries without times. -/
def timelessOf : List (String × Tree) → List (String × Tree)
  | [] => []
  | (name, tree) :: rest => (name, timeless tree) :: timelessOf rest

end

section Timeless

variable {tree changed : Tree} {place names : List String} {time : Int} {put : Option Tree}

@[simp] theorem isDirectory_timeless (tree : Tree) : tree.timeless.isDirectory = tree.isDirectory := by
  cases tree <;> rfl

@[simp] theorem kind_timeless (tree : Tree) : tree.timeless.kind = tree.kind := by
  cases tree <;> rfl

mutual

theorem shape_timeless : (tree : Tree) → tree.timeless.shape = tree.shape
  | .file _ _ _ => rfl
  | .directory entries _ => by
      rw [timeless, shape, shape, shapes_timelessOf entries]
  | .link _ _ => rfl

theorem shapes_timelessOf : (entries : List (String × Tree)) →
    shapes (timelessOf entries) = shapes entries
  | [] => rfl
  | (name, tree) :: rest => by
      rw [timelessOf, shapes, shapes, shape_timeless tree, shapes_timelessOf rest]

end

theorem names_timelessOf (entries : List (String × Tree)) :
    (timelessOf entries).map Prod.fst = entries.map Prod.fst := by
  induction entries with
  | nil => rfl
  | cons entry rest ih => rw [timelessOf, List.map_cons, List.map_cons, ih]

mutual

theorem isProper_timeless : (tree : Tree) → tree.timeless.isProper = tree.isProper
  | .file _ _ _ => rfl
  | .directory entries _ => areProper_timelessOf entries
  | .link _ _ => rfl

theorem areProper_timelessOf : (entries : List (String × Tree)) →
    areProper (timelessOf entries) = areProper entries
  | [] => rfl
  | (name, tree) :: rest => by
      have hall (entries : List (String × Tree)) : entries.all (fun entry => name < entry.1) =
          (entries.map Prod.fst).all fun other => name < other := by
        rw [List.all_map]
        rfl
      rw [timelessOf, areProper, areProper, hall, hall, names_timelessOf, isProper_timeless tree,
        areProper_timelessOf rest]

end

/-! ### What is at a place -/

theorem lookup_timelessOf (name : String) (entries : List (String × Tree)) :
    (timelessOf entries).lookup name = (entries.lookup name).map timeless := by
  induction entries with
  | nil => rfl
  | cons entry rest ih =>
      obtain ⟨first, tree⟩ := entry
      rw [timelessOf, List.lookup_cons, List.lookup_cons]
      cases name == first with
      | true => rfl
      | false => exact ih

theorem at?_timeless (tree : Tree) (place : List String) :
    tree.timeless.at? place = (tree.at? place).map timeless := by
  induction place generalizing tree with
  | nil => simp
  | cons name place ih =>
      cases tree with
      | directory entries modified =>
          rw [timeless, at?_directory_cons, at?_directory_cons, lookup_timelessOf]
          cases entries.lookup name with
          | none => rfl
          | some inner => exact ih inner
      | _ => rfl

theorem kindAt_timeless (tree : Tree) (place : List String) :
    tree.timeless.kindAt place = tree.kindAt place := by
  rw [kindAt, kindAt, at?_timeless]
  cases tree.at? place with
  | none => rfl
  | some inner => exact congrArg some (kind_timeless inner)

/-! ### Changes -/

theorem putEntry_timelessOf (name : String) (tree : Tree) (entries : List (String × Tree)) :
    timelessOf (putEntry name tree entries) = putEntry name tree.timeless (timelessOf entries) := by
  induction entries with
  | nil => rfl
  | cons entry rest ih =>
      obtain ⟨first, inner⟩ := entry
      rw [timelessOf, putEntry, putEntry]
      split
      · rfl
      · split
        · rfl
        · rw [timelessOf, ih]

theorem dropEntry_timelessOf (name : String) (entries : List (String × Tree)) :
    timelessOf (dropEntry name entries) = dropEntry name (timelessOf entries) := by
  induction entries with
  | nil => rfl
  | cons entry rest ih =>
      obtain ⟨first, inner⟩ := entry
      simp only [timelessOf, dropEntry, List.filter_cons] at ih ⊢
      split
      · rw [timelessOf, ih]
      · exact ih

theorem setEntry_timelessOf (name : String) (put : Option Tree) (entries : List (String × Tree)) :
    timelessOf (setEntry name put entries) = setEntry name (put.map timeless) (timelessOf entries) := by
  cases put with
  | none => exact dropEntry_timelessOf name entries
  | some tree => exact putEntry_timelessOf name tree entries

/-- A change of a tree is a change of the tree without times. -/
theorem change?_timeless (time : Int) (put : Option Tree) (place : List String) (tree : Tree) :
    (tree.change? time put place).map timeless = tree.timeless.change? 0 (put.map timeless) place := by
  induction place generalizing tree with
  | nil => cases tree <;> rfl
  | cons name place ih =>
      cases tree with
      | directory entries modified =>
          cases place with
          | nil => simp [timeless, change?, setEntry_timelessOf]
          | cons next rest =>
              rw [timeless, change?, change?, lookup_timelessOf]
              cases entries.lookup name with
              | none => rfl
              | some inner =>
                  have hinner := ih inner
                  simp only [Option.map_some]
                  rw [← hinner]
                  cases inner.change? time put (next :: rest) with
                  | none => rfl
                  | some changed => simp [timeless, putEntry_timelessOf]
      | _ => cases place <;> rfl

/-! ### Times -/

/-- After a change, what is at a place is as old as before or has been changed with it. -/
theorem modified_change (h : tree.change? time put place = some changed)
    (hput : ∀ names inner, put.bind (at? names) = some inner → inner.modified = time)
    {q : List String} {inner : Tree} (hq : changed.at? q = some inner) :
    (∃ before, tree.at? q = some before ∧ before.modified = inner.modified) ∨
      inner.modified = time := by
  by_cases hbelow : place <+: q
  · obtain ⟨names, rfl⟩ := hbelow
    rw [at?_change_append h] at hq
    exact .inr (hput names inner hq)
  · by_cases habove : q <+: place
    · obtain ⟨names, rfl⟩ := habove
      have hnames : names ≠ [] := by
        rintro rfl
        exact hbelow (by rw [List.append_nil])
      rw [at?_change_above h hnames] at hq
      obtain ⟨before, hbefore, hinner⟩ := Option.bind_eq_some_iff.mp hq
      obtain ⟨name, rest, rfl⟩ := List.exists_cons_of_ne_nil hnames
      obtain ⟨entries, modified, rfl, ⟨-, rfl⟩ | ⟨-, first, second, -, -, rfl⟩⟩ := change_cons hinner
      · exact .inr rfl
      · exact .inl ⟨_, hbefore, rfl⟩
    · rw [at?_change_of_apart h hbelow habove] at hq
      exact .inl ⟨inner, hq, rfl⟩

end Timeless

end Wireframe.Files.Tree
