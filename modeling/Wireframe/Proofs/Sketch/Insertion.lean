/-
Boxes that are added to others.

A box that is no bar, and no label in a bar, has nothing to do with the other boxes.  If it is added
to them, it has an element of its own in its place, and all other elements stay as they are, but for
the numbers in the ids of later elements of its kind.

* `Placed.moved`, `Absorption.moved` — boxes, and what bars have taken of them, at other places;
* `step_moved`, `taken_step_insert` — bars take the same boxes wherever these are, and a label in no
  bar is of no matter to them;
* `taken_of_insert` — what bars take after a box has been added;
* `elementsOf_moved`, `renumbered_elementsOf` — elements for boxes that have moved, and elements with
  one more of a kind before them;
* `interpretBoxes_insert` — adding a box adds one element.
-/
import Wireframe.Proofs.Sketch.Reading

namespace Wireframe.Sketch

open Design

/-! ### Boxes at other places -/

/-- A box at another place. -/
def Placed.moved (f : Nat → Nat) (p : Placed) : Placed := { p with index := f p.index }

@[simp]
theorem Placed.moved_box (f : Nat → Nat) (p : Placed) : (p.moved f).box = p.box := rfl

/-- Whether boxes are kept by what they are does not depend on their places. -/
theorem filter_map_moved (f : Nat → Nat) (q : DetectedBox → Bool) (boxes : List Placed) :
    (boxes.map (Placed.moved f)).filter (q ·.box) =
      (boxes.filter (q ·.box)).map (Placed.moved f) := by
  rw [List.filter_map]
  rfl

theorem readingOrder_moved (f : Nat → Nat) (kind : Kind) (labels : List Placed) :
    readingOrder kind (labels.map (Placed.moved f)) =
      (readingOrder kind labels).map (Placed.moved f) := by
  rw [readingOrder, readingOrder]
  exact (List.map_mergeSort (f := Placed.moved f) fun _ _ _ _ => rfl).symm

namespace Absorption

/-- What bars have taken, with all boxes at other places. -/
def moved (f : Nat → Nat) (absorption : Absorption) : Absorption where
  taken := absorption.taken.map fun entry => (f entry.1, entry.2.map (Placed.moved f))
  left := absorption.left.map (Placed.moved f)

/-- Bars take the same labels wherever the boxes are. -/
theorem step_moved (f : Nat → Nat) (bars labels : List Placed) :
    step (bars.map (Placed.moved f)) (labels.map (Placed.moved f)) = (step bars labels).moved f := by
  induction bars generalizing labels with
  | nil => rfl
  | cons bar bars ih =>
    have hin := filter_map_moved f (bar.box.bb.contains ·.bb) labels
    have hout := filter_map_moved f (!bar.box.bb.contains ·.bb) labels
    rw [List.map_cons, step_cons, step_cons]
    simp only [Placed.moved_box, hin, hout, ih, List.isEmpty_map, readingOrder_moved]
    split <;> rfl

variable {f : Nat → Nat} {absorption : Absorption} {i : Nat}

theorem takenBy?_moved (hf : f.Injective) :
    (absorption.moved f).takenBy? (f i) =
      (absorption.takenBy? i).map (List.map (Placed.moved f)) := by
  rw [takenBy?, takenBy?, moved]
  induction absorption.taken with
  | nil => rfl
  | cons entry taken ih =>
    rw [List.map_cons, List.lookup_cons, List.lookup_cons, ih]
    rw [show (f i == f entry.1) = (i == entry.1) by
      rw [Bool.eq_iff_iff, beq_iff_eq, beq_iff_eq, hf.eq_iff]]
    cases i == entry.1 <;> rfl

theorem hasTaken_moved (hf : f.Injective) :
    (absorption.moved f).hasTaken (f i) = absorption.hasTaken i := by
  simp [hasTaken, moved, Placed.moved, List.any_map, Function.comp_def, hf.eq_iff, beq_eq_decide]

/-- Nothing is taken by what is at a place where nothing has moved to, and it is not taken. -/
theorem takenBy?_moved_of_ne (h : ∀ j, f j ≠ i) : (absorption.moved f).takenBy? i = none := by
  rw [takenBy?, List.lookup_eq_none_iff, moved]
  intro entry hentry
  obtain ⟨entry', -, rfl⟩ := List.mem_map.mp hentry
  exact bne_iff_ne.mpr (h entry'.1).symm

theorem hasTaken_moved_of_ne (h : ∀ j, f j ≠ i) : (absorption.moved f).hasTaken i = false := by
  rw [Bool.eq_false_iff]
  intro htaken
  simp only [hasTaken, moved, List.any_map, List.any_eq_true, Function.comp_def, beq_iff_eq] at htaken
  obtain ⟨entry, -, label, -, hlabel⟩ := htaken
  exact h label.index hlabel

/-- A label in no bar is of no matter to the bars. -/
theorem taken_step_insert {bars : List Placed} {label : Placed}
    (h : ∀ bar ∈ bars, bar.box.bb.contains label.box.bb = false) (front back : List Placed) :
    (step bars (front ++ label :: back)).taken = (step bars (front ++ back)).taken := by
  induction bars generalizing front back with
  | nil => rfl
  | cons bar bars ih =>
    obtain ⟨hbar, hbars⟩ := List.forall_mem_cons.mp h
    have hin : (front ++ label :: back).filter (fun l => bar.box.bb.contains l.box.bb) =
        (front ++ back).filter fun l => bar.box.bb.contains l.box.bb := by
      rw [List.filter_append, List.filter_append, List.filter_cons_of_neg (by simp [hbar])]
    have hout : (front ++ label :: back).filter (fun l => !bar.box.bb.contains l.box.bb) =
        front.filter (fun l => !bar.box.bb.contains l.box.bb) ++
          label :: back.filter fun l => !bar.box.bb.contains l.box.bb := by
      rw [List.filter_append, List.filter_cons_of_pos (by simp [hbar])]
    rw [step_cons, step_cons]
    dsimp only
    rw [hin, hout]
    split
    · rw [ih hbars, ← List.filter_append]
    · dsimp only
      rw [ih hbars, ← List.filter_append]

end Absorption

/-! ### Adding a box -/

/-- The place of a box after another one has been added at place `k`. -/
def past (k i : Nat) : Nat := if i < k then i else i + 1

theorem past_injective (k : Nat) : (past k).Injective := by
  intro i j h
  unfold past at h
  split at h <;> split at h <;> omega

theorem past_ne (k i : Nat) : past k i ≠ k := by
  unfold past
  split <;> omega

theorem placedFrom_append (n : Nat) (front back : List DetectedBox) :
    placedFrom n (front ++ back) = placedFrom n front ++ placedFrom (n + front.length) back := by
  induction front generalizing n with
  | nil => rfl
  | cons box front ih =>
    rw [List.cons_append, placedFrom, placedFrom, List.cons_append, ih, List.length_cons,
      Nat.add_right_comm, Nat.add_assoc]

theorem map_box_placedFrom (n : Nat) (boxes : List DetectedBox) :
    (placedFrom n boxes).map (·.box) = boxes := by
  induction boxes generalizing n with
  | nil => rfl
  | cons box boxes ih => rw [placedFrom, List.map_cons, ih]

/-- What is before the added box stays where it is. -/
theorem map_moved_front {n k : Nat} {boxes : List DetectedBox} (h : n + boxes.length ≤ k) :
    (placedFrom n boxes).map (Placed.moved (past k)) = placedFrom n boxes := by
  induction boxes generalizing n with
  | nil => rfl
  | cons box boxes ih =>
    rw [List.length_cons] at h
    have hlt : n < k := by omega
    rw [placedFrom, List.map_cons, ih (by omega), Placed.moved, past, if_pos hlt]

/-- What is behind the added box is one place further on. -/
theorem map_moved_back {n k : Nat} (h : k ≤ n) (boxes : List DetectedBox) :
    (placedFrom n boxes).map (Placed.moved (past k)) = placedFrom (n + 1) boxes := by
  induction boxes generalizing n with
  | nil => rfl
  | cons box boxes ih =>
    have hge : ¬ n < k := by omega
    rw [placedFrom, List.map_cons, ih (by omega), Placed.moved, past, if_neg hge]
    rfl

/-- The box is a label that lies in a bar. -/
def IsAbsorbed (boxes : List DetectedBox) (box : DetectedBox) : Prop :=
  box.kind = .label ∧ ∃ bar ∈ boxes, bar.kind.isOverlay = true ∧ bar.bb.contains box.bb = true

instance (boxes : List DetectedBox) (box : DetectedBox) : Decidable (IsAbsorbed boxes box) :=
  inferInstanceAs (Decidable (_ ∧ _))

theorem exists_holds_iff {boxes : List DetectedBox} {p : Placed}
    (hget : boxes[p.index]? = some p.box) :
    (∃ bar, Holds boxes bar p.index) ↔ IsAbsorbed boxes p.box := by
  constructor
  · rintro ⟨bar, b, l, hb, hl, hoverlay, hkind, hin⟩
    rw [hget, Option.some_inj] at hl
    subst hl
    exact ⟨hkind, b, List.mem_of_getElem? hb, hoverlay, hin⟩
  · rintro ⟨hkind, b, hb, hoverlay, hin⟩
    obtain ⟨bar, hbar⟩ := List.getElem?_of_mem hb
    exact ⟨bar, b, p.box, hbar, hget, hoverlay, hkind, hin⟩

section Insert

variable {front back : List DetectedBox} {box : DetectedBox}

/-- All other boxes have moved past the added one. -/
theorem placedFrom_insert :
    placedFrom 0 (front ++ box :: back) =
      (placedFrom 0 front).map (Placed.moved (past front.length)) ++ ⟨front.length, box⟩ ::
        (placedFrom front.length back).map (Placed.moved (past front.length)) := by
  rw [placedFrom_append, placedFrom, Nat.zero_add, map_moved_front (by omega),
    map_moved_back (Nat.le_refl _)]

/-- What bars take after a box has been added that is no bar, and no label in one. -/
theorem taken_of_insert (hkind : box.kind.isOverlay = false)
    (hfree : ¬ IsAbsorbed (front ++ back) box) :
    (Absorption.of (front ++ box :: back)).taken =
      ((Absorption.of (front ++ back)).moved (past front.length)).taken := by
  -- No bar is added, so the bars are the same ones, those behind the box one place further on.
  have hold : placedFrom 0 (front ++ back) =
      placedFrom 0 front ++ placedFrom front.length back := by
    rw [placedFrom_append, Nat.zero_add]
  have hbars : barsOf (front ++ box :: back) =
      (barsOf (front ++ back)).map (Placed.moved (past front.length)) := by
    rw [barsOf, barsOf, placedFrom_insert, hold, List.filter_append, List.filter_append,
      List.filter_cons_of_neg (by simp [hkind]), List.map_append]
    rw [filter_map_moved _ (·.kind.isOverlay), filter_map_moved _ (·.kind.isOverlay)]
  have hlabels : (labelsOf (front ++ back)).map (Placed.moved (past front.length)) =
      ((placedFrom 0 front).map (Placed.moved (past front.length))).filter (·.box.kind = .label) ++
        ((placedFrom front.length back).map (Placed.moved (past front.length))).filter
          (·.box.kind = .label) := by
    rw [filter_map_moved _ (·.kind = .label), filter_map_moved _ (·.kind = .label),
      ← List.map_append, ← List.filter_append, ← hold]
    rfl
  rw [absorption_of, absorption_of, ← Absorption.step_moved, hbars, hlabels, labelsOf,
    placedFrom_insert, List.filter_append]
  -- A label that no bar contains goes through the step untouched; any other box is not seen by it.
  by_cases hlabel : box.kind = .label
  · rw [List.filter_cons_of_pos (by simp [hlabel])]
    refine Absorption.taken_step_insert ?_ _ _
    intro bar hbar
    obtain ⟨bar', hbar', rfl⟩ := List.mem_map.mp hbar
    obtain ⟨hget, hoverlay⟩ := mem_barsOf.mp hbar'
    rw [Placed.moved_box, Bool.eq_false_iff]
    exact fun hin => hfree ⟨hlabel, bar'.box, List.mem_of_getElem? hget, hoverlay, hin⟩
  · rw [List.filter_cons_of_neg (by simp [hlabel])]

/-- The boxes with an element of their own, before and behind the place of the added one. -/
theorem exists_keptOf_insert (hkind : box.kind.isOverlay = false)
    (hfree : ¬ IsAbsorbed (front ++ back) box) :
    ∃ before behind, keptOf (front ++ back) = before ++ behind ∧
      keptOf (front ++ box :: back) = before.map (Placed.moved (past front.length)) ++
        ⟨front.length, box⟩ :: behind.map (Placed.moved (past front.length)) ∧
      before.length = (front.filter fun b => ¬ IsAbsorbed (front ++ back) b).length := by
  let absorption := Absorption.of (front ++ back)
  have htaken (i : Nat) : (Absorption.of (front ++ box :: back)).hasTaken i =
      (absorption.moved (past front.length)).hasTaken i := by
    rw [Absorption.hasTaken, taken_of_insert hkind hfree]
    rfl
  have hfilter (boxes : List Placed) :
      (boxes.map (Placed.moved (past front.length))).filter
          (!(Absorption.of (front ++ box :: back)).hasTaken ·.index) =
        (boxes.filter (!absorption.hasTaken ·.index)).map
          (Placed.moved (past front.length)) := by
    rw [List.filter_map]
    congr 1
    refine List.filter_congr ?_
    intro p _
    show (!(Absorption.of (front ++ box :: back)).hasTaken (past front.length p.index)) = _
    rw [htaken, Absorption.hasTaken_moved (past_injective _)]
  refine ⟨(placedFrom 0 front).filter (!absorption.hasTaken ·.index),
    (placedFrom front.length back).filter (!absorption.hasTaken ·.index), ?_, ?_, ?_⟩
  · rw [← List.filter_append, ← Nat.zero_add front.length, ← placedFrom_append]
    rfl
  · rw [keptOf, placedFrom_insert, List.filter_append, List.filter_cons_of_pos, hfilter, hfilter]
    -- no other box has moved to the place of the added one
    rw [htaken, Absorption.hasTaken_moved_of_ne (past_ne _)]
    rfl
  · have hcount (q : DetectedBox → Bool) :
        (placedFrom 0 front).countP (q ·.box) = front.countP q := by
      conv_rhs => rw [← map_box_placedFrom 0 front, List.countP_map]
      rfl
    rw [← List.countP_eq_length_filter, ← List.countP_eq_length_filter, ← hcount]
    refine List.countP_congr ?_
    intro p hp
    have hget : (front ++ back)[p.index]? = some p.box := by
      have hfront := mem_placed.mp hp
      rw [List.getElem?_append_left (List.getElem?_eq_some_iff.mp hfront).1, hfront]
    rw [Bool.not_eq_true', decide_eq_true_eq, ← Bool.not_eq_true]
    exact not_congr ((hasTaken_of_iff hget).trans (exists_holds_iff hget))

end Insert

/-! ### Elements -/

section Elements

variable {width height : Float} {options : Options} {absorption other : Absorption}

theorem widgetOf_moved (f : Nat → Nat) (fontSize : Float) (taken : Option (List Placed))
    (box : DetectedBox) :
    widgetOf options fontSize (taken.map (List.map (Placed.moved f))) box =
      widgetOf options fontSize taken box := by
  match taken with
  | none => rfl
  | some [] => rfl
  | some (first :: rest) =>
    unfold widgetOf
    cases box.kind with
    | sidebar =>
      simp only [sidebarTexts, Option.map_some, List.map_cons, Placed.moved_box, List.map_map,
        Function.comp_def]
    | bottomNav =>
      simp only [bottomNavTexts, Option.map_some, List.map_map, Function.comp_def,
        Placed.moved_box]
    | _ => rfl

/-- Boxes have the same elements wherever they are. -/
theorem elementsOf_moved {f : Nat → Nat} (hf : f.Injective)
    (htaken : other.taken = (absorption.moved f).taken) (earlier : List Kind)
    (placed : List Placed) :
    elementsOf width height options other earlier (placed.map (Placed.moved f)) =
      elementsOf width height options absorption earlier placed := by
  induction placed generalizing earlier with
  | nil => rfl
  | cons p rest ih =>
    have hwidget : other.takenBy? (f p.index) =
        (absorption.takenBy? p.index).map (List.map (Placed.moved f)) := by
      rw [← Absorption.takenBy?_moved hf, Absorption.takenBy?, htaken]
      rfl
    rw [List.map_cons, elementsOf, elementsOf, ih, Placed.moved_box]
    congr 1
    show (⟨_, _, _, widgetOf options _ (other.takenBy? (f p.index)) p.box⟩ : Element) = _
    rw [hwidget, widgetOf_moved]
    rfl

theorem elementsOf_append (earlier : List Kind) (front back : List Placed) :
    elementsOf width height options absorption earlier (front ++ back) =
      elementsOf width height options absorption earlier front ++
        elementsOf width height options absorption
          ((front.map (·.box.kind)).reverse ++ earlier) back := by
  induction front generalizing earlier with
  | nil => rfl
  | cons p front ih =>
    rw [List.cons_append, elementsOf, ih, elementsOf, List.map_cons, List.reverse_cons,
      List.append_assoc]
    rfl

theorem countP_elementsOf (kind : Kind) (earlier : List Kind) (placed : List Placed) :
    (elementsOf width height options absorption earlier placed).countP
        (fun e => e.widget.kind? = some kind) =
      (placed.map (·.box.kind)).reverse.count kind := by
  rw [List.count_reverse]
  induction placed generalizing earlier with
  | nil => rfl
  | cons p rest ih =>
    have hkind : (elementOf width height options absorption earlier p).widget.kind? =
        some p.box.kind := kind?_widgetOf _ _ _
    rw [elementsOf, List.map_cons, List.countP_cons, List.count_cons, ih, hkind]
    simp

/-- The element with the id of element number `number` of a kind. -/
def numbered (kind : Kind) (number : Nat) (element : Element) : Element :=
  { element with id := elementId kind number }

/-- The same element, but that the number in its id is one more if it is of the given kind. -/
def Renumbered (kind : Kind) (old new : Element) : Prop :=
  if old.widget.kind? = some kind then
    ∃ n, old.id = elementId kind n ∧ new = numbered kind (n + 1) old
  else new = old

/-- With one more element of a kind before them, elements of this kind have other numbers. -/
theorem renumbered_elementsOf (kind : Kind) {earlier later : List Kind}
    (h : ∀ k, later.count k = earlier.count k + if k = kind then 1 else 0)
    (placed : List Placed) :
    List.Forall₂ (Renumbered kind) (elementsOf width height options absorption earlier placed)
      (elementsOf width height options absorption later placed) := by
  induction placed generalizing earlier later with
  | nil => exact .nil
  | cons p rest ih =>
    refine .cons ?_ (ih fun k => ?_)
    · have hkind : (elementOf width height options absorption earlier p).widget.kind? =
          some p.box.kind := kind?_widgetOf _ _ _
      rw [Renumbered, hkind]
      by_cases hp : p.box.kind = kind
      · refine (if_pos (congrArg some hp)).mpr ⟨earlier.count kind + 1, ?_, ?_⟩
        · rw [← hp]
          rfl
        · rw [numbered, elementOf, elementOf, h, if_pos hp, hp]
      · refine (if_neg fun heq => hp (Option.some.inj heq)).mpr ?_
        rw [elementOf, elementOf, h, if_neg hp, Nat.add_zero]
    · rw [List.count_cons, List.count_cons, h]
      omega

end Elements

/-- A box that is no bar is interpreted alone as an element that has taken nothing. -/
theorem interpretBoxes_singleton {box : DetectedBox} (hkind : box.kind.isOverlay = false)
    {width height : Nat} (hwidth : 0 < width) (hheight : 0 < height) (options : Options) :
    interpretBoxes width height [box] options =
      .ok [⟨elementId box.kind 1, box.bb.toCanvas (Float.ofNat width) (Float.ofNat height),
        depthOf box.kind,
        widgetOf options (textSize options (Float.ofNat height) box) none box⟩] := by
  have hbars : barsOf [box] = [] := List.filter_cons_of_neg (by simp [hkind])
  have hnothing : Absorption.of [box] = ⟨[], labelsOf [box]⟩ := by
    rw [absorption_of, hbars]
    rfl
  rw [interpretBoxes_eq (List.cons_ne_nil box []) hwidth hheight, keptOf, hnothing]
  rfl

/-- Adding a box that is no bar, and no label in one, adds the element that the box has alone, in its
place and with its number; nothing else changes but the numbers of later elements of its kind. -/
theorem interpretBoxes_insert {front back : List DetectedBox} (hboxes : front ++ back ≠ [])
    {box : DetectedBox} (hkind : box.kind.isOverlay = false)
    (hfree : ¬ IsAbsorbed (front ++ back) box) {width height : Nat} (hwidth : 0 < width)
    (hheight : 0 < height) (options : Options) :
    ∃ before behind behind' own,
      interpretBoxes width height (front ++ back) options = .ok (before ++ behind) ∧
      interpretBoxes width height [box] options = .ok [own] ∧
      interpretBoxes width height (front ++ box :: back) options = .ok (before ++
        numbered box.kind (before.countP (fun e => e.widget.kind? = some box.kind) + 1) own ::
          behind') ∧
      before.length = (front.filter fun b => ¬ IsAbsorbed (front ++ back) b).length ∧
      List.Forall₂ (Renumbered box.kind) behind behind' := by
  -- The boxes that are kept are those that were, moved, and the new one between them.
  obtain ⟨before, behind, hold, hnew, hlength⟩ := exists_keptOf_insert hkind hfree
  -- An element depends on its box, on the labels it takes and on the kinds before it, and none of
  -- these changes when boxes are moved.
  have hmoved (earlier : List Kind) (placed : List Placed) :
      elementsOf (Float.ofNat width) (Float.ofNat height) options
        (Absorption.of (front ++ box :: back)) earlier
        (placed.map (Placed.moved (past front.length))) =
        elementsOf (Float.ofNat width) (Float.ofNat height) options
          (Absorption.of (front ++ back)) earlier placed :=
    elementsOf_moved (past_injective front.length) (taken_of_insert hkind hfree) earlier placed
  have hkinds : (before.map (Placed.moved (past front.length))).map (·.box.kind) =
      before.map (·.box.kind) := by
    rw [List.map_map]
    rfl
  -- The new box is no bar, so it takes nothing.
  have hnothing : (Absorption.of (front ++ box :: back)).takenBy? front.length = none := by
    rw [Absorption.takenBy?, taken_of_insert hkind hfree]
    exact Absorption.takenBy?_moved_of_ne (past_ne _)
  -- The kinds before an element are what it is numbered by; behind the new box there is one more.
  let elements := elementsOf (Float.ofNat width) (Float.ofNat height) options
    (Absorption.of (front ++ back))
  let earlier := (before.map (·.box.kind)).reverse
  refine ⟨elements [] before, elements earlier behind, elements (box.kind :: earlier) behind, _, ?_,
    interpretBoxes_singleton hkind hwidth hheight options, ?_, ?_, ?_⟩
  · rw [interpretBoxes_eq hboxes hwidth hheight, hold, elementsOf_append, List.append_nil]
  · rw [interpretBoxes_eq (by simp) hwidth hheight, hnew, elementsOf_append, hmoved, elementsOf,
      hmoved, hkinds, elementOf, hnothing, countP_elementsOf, List.append_nil]
    rfl
  · exact (length_elementsOf _ _).trans hlength
  -- One more box of its kind in front raises the numbers of that kind by one, and no others.
  · refine renumbered_elementsOf box.kind (fun kind => ?_) behind
    rw [List.count_cons]
    congr 1
    refine if_congr ?_ rfl rfl
    rw [beq_iff_eq, eq_comm]

/-- A bar with a label in it, and a label beside it. -/
def labelBesideBar : List DetectedBox × List DetectedBox :=
  ([{ kind := .sidebar, bb := ⟨0.0, 0.0, 40.0, 100.0⟩ }],
    [{ kind := .label, bb := ⟨8.0, 8.0, 16.0, 8.0⟩, text := some "Home" },
      { kind := .label, bb := ⟨50.0, 8.0, 16.0, 8.0⟩, text := some "Hello" }])

/-- A label that reaches out of the bar. -/
def labelAcrossEdge : DetectedBox :=
  { kind := .label, bb := ⟨30.0, 8.0, 16.0, 8.0⟩, text := some "Edge" }

theorem interpretBoxes_insert_labelAcrossEdge :
    labelBesideBar.1 ++ labelBesideBar.2 ≠ [] ∧ labelAcrossEdge.kind.isOverlay = false ∧
      ¬ IsAbsorbed (labelBesideBar.1 ++ labelBesideBar.2) labelAcrossEdge ∧ 0 < 100 ∧ 0 < 100 ∧
      ∃ before behind behind' own,
        interpretBoxes 100 100 (labelBesideBar.1 ++ labelBesideBar.2) {} =
          .ok (before ++ behind) ∧
        interpretBoxes 100 100 [labelAcrossEdge] {} = .ok [own] ∧
        interpretBoxes 100 100 (labelBesideBar.1 ++ labelAcrossEdge :: labelBesideBar.2) {} =
          .ok (before ++ numbered labelAcrossEdge.kind
            (before.countP (fun e => e.widget.kind? = some labelAcrossEdge.kind) + 1) own ::
              behind') ∧
        before.length = (labelBesideBar.1.filter fun b =>
          ¬ IsAbsorbed (labelBesideBar.1 ++ labelBesideBar.2) b).length ∧
        List.Forall₂ (Renumbered labelAcrossEdge.kind) behind behind' := by
  have hfree : ¬ IsAbsorbed (labelBesideBar.1 ++ labelBesideBar.2) labelAcrossEdge := by
    decide +kernel
  exact ⟨by decide, rfl, hfree, by decide, by decide,
    interpretBoxes_insert (by decide) rfl hfree (by decide) (by decide) {}⟩

end Wireframe.Sketch
