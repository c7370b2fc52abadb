/-
What becomes of the boxes on a sketch.

A label that lies in a bar belongs to the first bar that it lies in and has no element of its own;
every other box has one.  A bar shows the labels that belong to it, read along the bar.

* `Holds`, `Takes` — a label lies in a bar, and it belongs to it;
* `Reading` — the labels of a bar, read along the bar;
* `Shows` — what the widget of a bar shows of the labels that it has taken;
* `Interprets` — the elements for the boxes, one by one;
* `interpretBoxes_interprets` — interpreting boxes gives such elements.

Design notes:
* how places along a bar are compared is a parameter, for it matters at the two zeros only:
  `Precedes` puts the negative zero before the positive one, where numbers alone would say that they
  are the same place.
-/
import Wireframe.Proofs.Sketch.Absorption
import Wireframe.Proofs.Sketch.Elements

namespace Wireframe.Sketch

open Design Binary64

/-! ### What is to be shown -/

/-- A label lies in a bar, both named by their places among the boxes. -/
def Holds (boxes : List DetectedBox) (bar label : Nat) : Prop :=
  ∃ b l, boxes[bar]? = some b ∧ boxes[label]? = some l ∧ b.kind.isOverlay = true ∧
    l.kind = .label ∧ b.bb.contains l.bb = true

/-- A label belongs to the first bar that it lies in. -/
def Takes (boxes : List DetectedBox) (bar label : Nat) : Prop :=
  Holds boxes bar label ∧ ∀ earlier < bar, ¬ Holds boxes earlier label

/-- The labels of a bar, read along the bar; of two at one place the earlier box comes first. -/
structure Reading (before : Float → Float → Prop) (boxes : List DetectedBox) (bar : Placed)
    (labels : List Placed) : Prop where
  mem_iff : ∀ label, label ∈ labels ↔
    boxes[label.index]? = some label.box ∧ Takes boxes bar.index label.index
  order : labels.Pairwise fun a b =>
    before (alongBar bar.box.kind a.box) (alongBar bar.box.kind b.box) ∨
      ¬ before (alongBar bar.box.kind b.box) (alongBar bar.box.kind a.box) ∧ a.index < b.index

/-- The names that labels give to entries, a blank one by its number. -/
def namesOf (labels : List DetectedBox) : List String :=
  labels.mapIdx fun i label => (unlessBlank label.text).getD s!"Item {i + 1}"

/-- Entries of given names, each leading to the target at its place or else to the screen of its own
name. -/
def itemsFor (targets names : List String) : List NavItem :=
  names.mapIdx fun i name => { text := name, targetScreen := targets.getD i name }

/-- What a bar shows that has taken the given labels. -/
def Shows (options : Options) (bar : DetectedBox) (labels : List DetectedBox) (widget : Widget) :
    Prop :=
  match bar.kind, labels with
  | .sidebar, [] => ∃ props, widget = .sidebar props ∧
      props.title = (unlessBlank bar.text).getD "Menu" ∧
      props.items = itemsFor options.targets (bar.items.getD [])
  | .sidebar, title :: entries => ∃ props, widget = .sidebar props ∧
      props.title = (unlessBlank title.text).getD "Menu" ∧
      props.items = itemsFor options.targets (namesOf entries)
  | .bottomNav, [] => ∃ props, widget = .bottomNav props ∧
      props.items = itemsFor options.targets (bar.items.getD [])
  | .bottomNav, entries => ∃ props, widget = .bottomNav props ∧
      props.items = itemsFor options.targets (namesOf entries)
  | _, _ => True

/-- The element for a box whose number among the kept boxes of its kind is `number`. -/
structure Represents (before : Float → Float → Prop) (options : Options) (boxes : List DetectedBox)
    (number : Nat) (p : Placed) (element : Element) : Prop where
  kind : element.widget.kind? = some p.box.kind
  id : element.id = s!"{p.box.kind.tag.toLower}-{number}"
  bar : p.box.kind.isOverlay = true → ∃ labels, Reading before boxes p labels ∧
    Shows options p.box (labels.map (·.box)) element.widget

/-- The elements for boxes, of which `kept` are the ones that have an element of their own. -/
structure Interprets (before : Float → Float → Prop) (options : Options) (boxes : List DetectedBox)
    (kept : List Placed) (elements : List Element) : Prop where
  mem_kept : ∀ p, p ∈ kept ↔ boxes[p.index]? = some p.box ∧ ¬ ∃ bar, Holds boxes bar p.index
  order : kept.Pairwise (·.index < ·.index)
  length_eq : elements.length = kept.length
  represents : ∀ n p element, kept[n]? = some p → elements[n]? = some element →
    Represents before options boxes
      ((kept.take (n + 1)).countP fun q => q.box.kind = p.box.kind) p element
  nodup : (elements.map (·.id)).Nodup
  taken : ∀ label, (∃ bar, Holds boxes bar label) → ∃! bar, Takes boxes bar label

/-! ### The first bar -/

/-- What is found first in a list in the order of places. -/
theorem find?_eq_some_iff {xs : List Placed} (hxs : xs.Pairwise (·.index < ·.index))
    {q : Placed → Bool} {p : Placed} :
    xs.find? q = some p ↔ p ∈ xs ∧ q p = true ∧ ∀ a ∈ xs, a.index < p.index → q a = false := by
  induction xs with
  | nil => simp
  | cons x xs ih =>
    obtain ⟨hx, hrest⟩ := List.pairwise_cons.mp hxs
    rw [List.find?_cons]
    cases hq : q x with
    | true =>
      constructor
      · rintro ⟨rfl⟩
        refine ⟨List.mem_cons_self, hq, ?_⟩
        intro a ha hlt
        rcases List.mem_cons.mp ha with rfl | ha
        · exact absurd hlt (Nat.lt_irrefl _)
        · exact absurd hlt (Nat.lt_asymm (hx a ha))
      · rintro ⟨hp, -, hfirst⟩
        rcases List.mem_cons.mp hp with rfl | hp
        · rfl
        -- what is found later is not the first, for this one is found too
        · have := hfirst x List.mem_cons_self (hx p hp)
          rw [hq] at this
          cases this
    | false =>
      dsimp only
      rw [ih hrest]
      constructor
      · rintro ⟨hp, hqp, hfirst⟩
        refine ⟨List.mem_cons_of_mem x hp, hqp, ?_⟩
        intro a ha hlt
        rcases List.mem_cons.mp ha with rfl | ha
        · exact hq
        · exact hfirst a ha hlt
      · rintro ⟨hp, hqp, hfirst⟩
        rcases List.mem_cons.mp hp with rfl | hp
        · rw [hq] at hqp
          cases hqp
        · exact ⟨hp, hqp, fun a ha hlt => hfirst a (List.mem_cons_of_mem x ha) hlt⟩

/-- The bars among boxes, with their places. -/
def barsOf (boxes : List DetectedBox) : List Placed :=
  (placedFrom 0 boxes).filter (·.box.kind.isOverlay)

/-- The labels among boxes, with their places. -/
def labelsOf (boxes : List DetectedBox) : List Placed :=
  (placedFrom 0 boxes).filter (·.box.kind = .label)

theorem absorption_of (boxes : List DetectedBox) :
    Absorption.of boxes = Absorption.step (barsOf boxes) (labelsOf boxes) := rfl

theorem pairwise_barsOf (boxes : List DetectedBox) : (barsOf boxes).Pairwise (·.index < ·.index) :=
  (pairwise_placedFrom 0 boxes).filter _

theorem pairwise_labelsOf (boxes : List DetectedBox) :
    (labelsOf boxes).Pairwise (·.index < ·.index) :=
  (pairwise_placedFrom 0 boxes).filter _

theorem mem_barsOf {boxes : List DetectedBox} {p : Placed} :
    p ∈ barsOf boxes ↔ boxes[p.index]? = some p.box ∧ p.box.kind.isOverlay = true := by
  rw [barsOf, List.mem_filter, mem_placed]

theorem mem_labelsOf {boxes : List DetectedBox} {p : Placed} :
    p ∈ labelsOf boxes ↔ boxes[p.index]? = some p.box ∧ p.box.kind = .label := by
  rw [labelsOf, List.mem_filter, mem_placed, decide_eq_true_eq]

theorem holds_iff {boxes : List DetectedBox} {i : Nat} {label : Placed}
    (hlabel : label ∈ labelsOf boxes) :
    Holds boxes i label.index ↔
      ∃ bar ∈ barsOf boxes, bar.index = i ∧ bar.box.bb.contains label.box.bb = true := by
  obtain ⟨hget, hkind⟩ := mem_labelsOf.mp hlabel
  constructor
  · rintro ⟨b, l, hb, hl, hoverlay, -, hin⟩
    rw [hget, Option.some_inj] at hl
    exact ⟨⟨i, b⟩, mem_barsOf.mpr ⟨hb, hoverlay⟩, rfl, hl ▸ hin⟩
  · rintro ⟨bar, hbar, rfl, hin⟩
    obtain ⟨hb, hoverlay⟩ := mem_barsOf.mp hbar
    exact ⟨bar.box, label.box, hb, hget, hoverlay, hkind, hin⟩

/-- The bar that takes a label is its first bar. -/
theorem takes_iff {boxes : List DetectedBox} {i : Nat} {label : Placed}
    (hlabel : label ∈ labelsOf boxes) :
    Takes boxes i label.index ↔ (firstBar (barsOf boxes) label).map (·.index) = some i := by
  rw [Option.map_eq_some_iff]
  unfold firstBar Takes
  simp only [find?_eq_some_iff (pairwise_barsOf boxes)]
  constructor
  · rintro ⟨hholds, hfirst⟩
    obtain ⟨bar, hbar, rfl, hin⟩ := (holds_iff hlabel).mp hholds
    refine ⟨bar, ⟨hbar, hin, ?_⟩, rfl⟩
    intro a ha hlt
    rw [← Bool.not_eq_true]
    exact fun hina => hfirst a.index hlt ((holds_iff hlabel).mpr ⟨a, ha, rfl, hina⟩)
  · rintro ⟨bar, ⟨hbar, hin, hfirst⟩, rfl⟩
    refine ⟨(holds_iff hlabel).mpr ⟨bar, hbar, rfl, hin⟩, ?_⟩
    intro earlier hlt hholds
    obtain ⟨a, ha, rfl, hina⟩ := (holds_iff hlabel).mp hholds
    rw [hfirst a ha hlt] at hina
    cases hina

theorem mem_labelsOf_of_holds {boxes : List DetectedBox} {bar : Nat} {p : Placed}
    (hget : boxes[p.index]? = some p.box) (h : Holds boxes bar p.index) : p ∈ labelsOf boxes := by
  obtain ⟨b, l, -, hl, -, hkind, -⟩ := h
  rw [hget, Option.some_inj] at hl
  exact mem_labelsOf.mpr ⟨hget, hl ▸ hkind⟩

/-- A box has been taken if some bar holds it. -/
theorem hasTaken_of_iff {boxes : List DetectedBox} {p : Placed}
    (hget : boxes[p.index]? = some p.box) :
    (Absorption.of boxes).hasTaken p.index = true ↔ ∃ bar, Holds boxes bar p.index := by
  rw [absorption_of, hasTaken_step]
  constructor
  · rintro ⟨label, hlabel, hindex, hsome⟩
    obtain ⟨bar, hbar⟩ := Option.isSome_iff_exists.mp hsome
    have hfirst : (firstBar (barsOf boxes) label).map (·.index) = some bar.index :=
      congrArg (Option.map (·.index)) hbar
    have htakes : Takes boxes bar.index label.index := (takes_iff hlabel).mpr hfirst
    rw [hindex] at htakes
    exact ⟨bar.index, htakes.1⟩
  · rintro ⟨bar, hholds⟩
    have hlabel := mem_labelsOf_of_holds hget hholds
    obtain ⟨b, hb, -, hin⟩ := (holds_iff hlabel).mp hholds
    refine ⟨p, hlabel, rfl, ?_⟩
    rw [firstBar, List.find?_isSome]
    exact ⟨b, hb, hin⟩

/-! ### The labels of a bar -/

/-- What lies in a bar has a place along it. -/
theorem isNaN_alongBar {bar label : DetectedBox} (kind : Kind)
    (h : bar.bb.contains label.bb = true) : (alongBar kind label).isNaN = false := by
  simp only [Rect.contains, Bool.and_eq_true, decide_eq_true_eq] at h
  unfold alongBar
  split
  · exact isNaN_right_of_le h.1.1.2
  · exact isNaN_right_of_le h.1.1.1

/-- The labels whose first bar a bar is, in their order along the bar. -/
theorem reading_readingOrder (boxes : List DetectedBox) (bar : Placed) :
    Reading Precedes boxes bar (readingOrder bar.box.kind ((labelsOf boxes).filter fun label =>
      (firstBar (barsOf boxes) label).map (·.index) = some bar.index)) := by
  have hmem (label : Placed) : label ∈ readingOrder bar.box.kind ((labelsOf boxes).filter
      fun label => (firstBar (barsOf boxes) label).map (·.index) = some bar.index) ↔
      boxes[label.index]? = some label.box ∧ Takes boxes bar.index label.index := by
    rw [mem_readingOrder, List.mem_filter, decide_eq_true_eq]
    constructor
    · rintro ⟨hlabel, hfirst⟩
      exact ⟨(mem_labelsOf.mp hlabel).1, (takes_iff hlabel).mpr hfirst⟩
    · rintro ⟨hget, htakes⟩
      have hlabel := mem_labelsOf_of_holds hget htakes.1
      exact ⟨hlabel, (takes_iff hlabel).mp htakes⟩
  have hnumber (label : Placed) (h : boxes[label.index]? = some label.box ∧
      Takes boxes bar.index label.index) : (alongBar bar.box.kind label.box).isNaN = false := by
    obtain ⟨b, l, -, hl, -, -, hin⟩ := h.2.1
    rw [h.1, Option.some_inj] at hl
    exact isNaN_alongBar _ (hl ▸ hin)
  refine ⟨hmem, ?_⟩
  -- keys say what places say, for labels in a bar have places that are numbers
  refine (pairwise_readingOrder bar.box.kind ((pairwise_labelsOf boxes).filter _)).imp_of_mem ?_
  intro a b ha hb hkey
  have hab := orderKey_lt_iff (hnumber a ((hmem a).mp ha)) (hnumber b ((hmem b).mp hb))
  have hba := orderKey_lt_iff (hnumber b ((hmem b).mp hb)) (hnumber a ((hmem a).mp ha))
  rcases hkey with hlt | ⟨heq, hindex⟩
  · exact Or.inl (hab.mp hlt)
  · refine Or.inr ⟨?_, hindex⟩
    rw [← hba]
    omega

/-- What a bar has taken are its labels as they are read, or nothing if it has none. -/
theorem takenBy?_of {boxes : List DetectedBox} {bar : Placed} (hbar : bar ∈ barsOf boxes) :
    ∃ labels, Reading Precedes boxes bar labels ∧
      (Absorption.of boxes).takenBy? bar.index = if labels = [] then none else some labels := by
  refine ⟨_, reading_readingOrder boxes bar, ?_⟩
  rw [absorption_of, takenBy?_step (pairwise_barsOf boxes) _ hbar]
  generalize (labelsOf boxes).filter _ = taken
  cases taken with
  | nil => simp [readingOrder]
  | cons label rest =>
    refine (if_neg ?_).symm
    intro hnil
    have hlength := congrArg List.length hnil
    simp [readingOrder] at hlength

/-! ### Entries -/

theorem entryNames_eq (number : Nat) (texts : List (Option String)) :
    entryNames number texts = texts.mapIdx fun i text => text.getD s!"Item {number + i}" := by
  induction texts generalizing number with
  | nil => rfl
  | cons text rest ih =>
    rw [entryNames, ih, List.mapIdx_cons]
    congr 2
    funext i text
    rw [show number + 1 + i = number + (i + 1) by omega]

theorem entryNames_labels (labels : List Placed) :
    entryNames 1 (labels.map (unlessBlank ·.box.text)) = namesOf (labels.map (·.box)) := by
  rw [entryNames_eq, namesOf]
  refine List.ext_getElem? ?_
  intro i
  simp only [List.getElem?_mapIdx, List.getElem?_map, Option.map_map]
  rw [Nat.add_comm 1 i]
  rfl

theorem entriesOf_eq (names targets : List String) :
    entriesOf names targets = itemsFor targets names := by
  induction names generalizing targets with
  | nil => cases targets <;> rfl
  | cons name names ih =>
    cases targets with
    | nil =>
      rw [entriesOf, ih, itemsFor, itemsFor, List.mapIdx_cons]
      rfl
    | cons target targets =>
      rw [entriesOf, ih, itemsFor, itemsFor, List.mapIdx_cons]
      rfl

/-- A bar shows the labels that it has taken, or else its own text and entries. -/
theorem shows_widgetOf (options : Options) (fontSize : Float) (bar : DetectedBox)
    (labels : List Placed) :
    Shows options bar (labels.map (·.box))
      (widgetOf options fontSize (if labels = [] then none else some labels) bar) := by
  unfold Shows widgetOf
  cases bar.kind with
  | sidebar =>
    cases labels with
    | nil => exact ⟨_, rfl, rfl, entriesOf_eq _ _⟩
    | cons title entries =>
      refine ⟨_, rfl, rfl, ?_⟩
      rw [← entryNames_labels]
      exact entriesOf_eq _ _
  | bottomNav =>
    cases labels with
    | nil => exact ⟨_, rfl, entriesOf_eq _ _⟩
    | cons first rest =>
      refine ⟨_, rfl, ?_⟩
      rw [← entryNames_labels (first :: rest)]
      exact entriesOf_eq _ _
  | _ => trivial

/-! ### All boxes -/

/-- A label in bars belongs to exactly one of them. -/
theorem existsUnique_takes {boxes : List DetectedBox} {label : Nat}
    (h : ∃ bar, Holds boxes bar label) : ∃! bar, Takes boxes bar label := by
  classical
  -- the least place of a bar that holds the label is the place of its first bar
  refine ⟨Nat.find h, ⟨Nat.find_spec h, fun earlier hlt => Nat.find_min h hlt⟩, ?_⟩
  rintro bar ⟨hholds, hfirst⟩
  refine Nat.le_antisymm ?_ (Nat.find_min' h hholds)
  by_contra hlt
  exact hfirst (Nat.find h) (by omega) (Nat.find_spec h)

/-- The boxes that no bar has taken, with their places. -/
def keptOf (boxes : List DetectedBox) : List Placed :=
  (placedFrom 0 boxes).filter (!(Absorption.of boxes).hasTaken ·.index)

theorem mem_keptOf {boxes : List DetectedBox} {p : Placed} :
    p ∈ keptOf boxes ↔ boxes[p.index]? = some p.box ∧ ¬ ∃ bar, Holds boxes bar p.index := by
  rw [keptOf, List.mem_filter, mem_placed]
  refine and_congr_right ?_
  intro hget
  rw [← hasTaken_of_iff hget, Bool.not_eq_true', Bool.not_eq_true]

/-- The number in an id counts the kept boxes of the same kind up to its own. -/
theorem count_take {kept : List Placed} {n : Nat} {p : Placed} (h : kept[n]? = some p) :
    ((kept.take n).map (·.box.kind)).reverse.count p.box.kind + 1 =
      (kept.take (n + 1)).countP fun q => q.box.kind = p.box.kind := by
  rw [List.count_reverse, List.count, List.countP_map, List.take_add_one, h, List.countP_append]
  show _ + 1 = _ + List.countP _ [p]
  rw [List.countP_singleton, if_pos (decide_eq_true rfl)]
  congr 1

theorem interprets_elementsOf (options : Options) (boxes : List DetectedBox)
    (width height : Float) :
    Interprets Precedes options boxes (keptOf boxes)
      (elementsOf width height options (Absorption.of boxes) [] (keptOf boxes)) where
  mem_kept _ := mem_keptOf
  order := (pairwise_placedFrom 0 boxes).filter _
  length_eq := length_elementsOf _ _
  represents n p element hp helement := by
    rw [getElem?_elementsOf, hp, Option.map_some, Option.some_inj, List.append_nil] at helement
    subst helement
    have hmem := (mem_keptOf.mp (List.mem_of_getElem? hp)).1
    refine ⟨kind?_widgetOf _ _ _, ?_, fun hoverlay => ?_⟩
    · rw [← count_take hp]
      rfl
    · obtain ⟨labels, hreading, htaken⟩ := takenBy?_of (mem_barsOf.mpr ⟨hmem, hoverlay⟩)
      refine ⟨labels, hreading, ?_⟩
      -- what the widget is made of is what was recorded for the place of the bar
      show Shows _ _ _ (widgetOf options _ ((Absorption.of boxes).takenBy? p.index) p.box)
      rw [htaken]
      exact shows_widgetOf _ _ _ _
  nodup := nodup_elementsOf _ _
  taken _ h := existsUnique_takes h

theorem interpretBoxes_eq {width height : Nat} {boxes : List DetectedBox} {options : Options}
    (hboxes : boxes ≠ []) (hwidth : 0 < width) (hheight : 0 < height) :
    interpretBoxes width height boxes options = .ok (elementsOf (Float.ofNat width)
      (Float.ofNat height) options (Absorption.of boxes) [] (keptOf boxes)) := by
  unfold interpretBoxes
  rw [if_neg (by omega), if_neg (by simpa using hboxes)]
  rfl

/-- Interpreting boxes gives the elements that the labels of bars leave. -/
theorem interpretBoxes_interprets {width height : Nat} {boxes : List DetectedBox}
    (hboxes : boxes ≠ []) (hwidth : 0 < width) (hheight : 0 < height) (options : Options) :
    ∃ kept elements, interpretBoxes width height boxes options = .ok elements ∧
      Interprets Precedes options boxes kept elements :=
  ⟨_, _, interpretBoxes_eq hboxes hwidth hheight, interprets_elementsOf options boxes _ _⟩

/-- A bar with two labels at its upper edge, one at the positive and one at the negative zero. -/
def labelsAtZeros : List DetectedBox :=
  [{ kind := .sidebar, bb := ⟨0.0, 0.0, 100.0, 100.0⟩ },
    { kind := .label, bb := ⟨8.0, 0.0, 32.0, 8.0⟩, text := some "A" },
    { kind := .label, bb := ⟨8.0, -0.0, 32.0, 8.0⟩, text := some "B" }]

theorem interpretBoxes_interprets_labelsAtZeros :
    labelsAtZeros ≠ [] ∧ 0 < 100 ∧ 0 < 100 ∧
      ∃ kept elements, interpretBoxes 100 100 labelsAtZeros {} = .ok elements ∧
        Interprets Precedes {} labelsAtZeros kept elements :=
  ⟨by decide, by decide, by decide,
    interpretBoxes_interprets (by decide) (by decide) (by decide) {}⟩

/-- The label that is read first is the one that no other comes before. -/
theorem Reading.head {before : Float → Float → Prop} {boxes : List DetectedBox} {bar first : Placed}
    {labels : List Placed} (h : Reading before boxes bar labels) (hfirst : first ∈ labels)
    (hleast : ∀ label ∈ labels,
      before (alongBar bar.box.kind label.box) (alongBar bar.box.kind first.box) ∨
        ¬ before (alongBar bar.box.kind first.box) (alongBar bar.box.kind label.box) ∧
          label.index < first.index → label = first) :
    ∃ rest, labels = first :: rest := by
  cases labels with
  | nil => cases hfirst
  | cons label rest =>
    rcases List.mem_cons.mp hfirst with rfl | hmem
    · exact ⟨rest, rfl⟩
    · have hbefore := (List.pairwise_cons.mp h.order).1 first hmem
      rw [hleast label List.mem_cons_self hbefore]
      exact ⟨rest, rfl⟩

/-- Both labels belong to the bar, and nothing else does. -/
theorem takes_labelsAtZeros {label : Placed} :
    labelsAtZeros[label.index]? = some label.box ∧ Takes labelsAtZeros 0 label.index ↔
      label = ⟨1, labelsAtZeros[1]⟩ ∨ label = ⟨2, labelsAtZeros[2]⟩ := by
  have hholds (i : Nat) (hi : i = 1 ∨ i = 2) : Takes labelsAtZeros 0 i := by
    refine ⟨?_, fun earlier hlt => absurd hlt (Nat.not_lt_zero earlier)⟩
    rcases hi with rfl | rfl
    · exact ⟨_, _, rfl, rfl, rfl, rfl, by decide +kernel⟩
    · exact ⟨_, _, rfl, rfl, rfl, rfl, by decide +kernel⟩
  constructor
  · rintro ⟨hget, ⟨b, l, -, hl, -, hkind, -⟩, -⟩
    obtain ⟨index, box⟩ := label
    match index, hget, hl with
    | 0, _, hl =>
      obtain rfl := Option.some.inj hl
      cases hkind
    | 1, hget, _ => exact Or.inl (congrArg (Placed.mk 1) (Option.some.inj hget).symm)
    | 2, hget, _ => exact Or.inr (congrArg (Placed.mk 2) (Option.some.inj hget).symm)
  · rintro (rfl | rfl)
    · exact ⟨rfl, hholds 1 (Or.inl rfl)⟩
    · exact ⟨rfl, hholds 2 (Or.inr rfl)⟩

/-- The title of the bar is the text of the label that is read first. -/
theorem title_labelsAtZeros {before : Float → Float → Prop} {kept : List Placed}
    {elements : List Element} (h : Interprets before {} labelsAtZeros kept elements)
    {first : Placed} (hfirst : first = ⟨1, labelsAtZeros[1]⟩ ∨ first = ⟨2, labelsAtZeros[2]⟩)
    (hleast : ∀ label, label = ⟨1, labelsAtZeros[1]⟩ ∨ label = ⟨2, labelsAtZeros[2]⟩ →
      before label.box.bb.y first.box.bb.y ∨
        ¬ before first.box.bb.y label.box.bb.y ∧ label.index < first.index → label = first) :
    ∃ element props, elements[0]? = some element ∧ element.widget = .sidebar props ∧
      props.title = (unlessBlank first.box.text).getD "Menu" := by
  let bar : Placed := ⟨0, labelsAtZeros[0]⟩
  -- Both labels are within the bar, so that it is the only box that is kept.
  have hone {p : Placed} (hp : p ∈ kept) : p = bar := by
    obtain ⟨hget, hfree⟩ := (h.mem_kept p).mp hp
    obtain ⟨index, box⟩ := p
    match index, hget, hfree with
    | 0, hget, _ => exact congrArg (Placed.mk 0) (Option.some.inj hget).symm
    | 1, _, hfree =>
      exact absurd ⟨0, (takes_labelsAtZeros.mpr (Or.inl rfl)).2.1⟩ hfree
    | 2, _, hfree =>
      exact absurd ⟨0, (takes_labelsAtZeros.mpr (Or.inr rfl)).2.1⟩ hfree
  have hbar : bar ∈ kept := by
    refine (h.mem_kept bar).mpr ⟨rfl, ?_⟩
    rintro ⟨i, b, l, -, hl, -, hkind, -⟩
    obtain rfl := Option.some.inj hl
    cases hkind
  obtain ⟨p, rest, rfl⟩ := List.exists_cons_of_ne_nil (List.ne_nil_of_mem hbar)
  obtain rfl := hone List.mem_cons_self
  -- The element of the bar has the labels in reading order, and its title is the first of them.
  obtain ⟨element, rest', rfl⟩ := List.exists_cons_of_length_eq_add_one h.length_eq
  obtain ⟨labels, hreading, hshows⟩ := (h.represents 0 bar element rfl rfl).bar rfl
  have hmem (label : Placed) : label ∈ labels ↔
      label = ⟨1, labelsAtZeros[1]⟩ ∨ label = ⟨2, labelsAtZeros[2]⟩ :=
    (hreading.mem_iff label).trans takes_labelsAtZeros
  obtain ⟨rest, rfl⟩ := hreading.head ((hmem first).mpr hfirst)
    fun label hlabel => hleast label ((hmem label).mp hlabel)
  obtain ⟨props, hprops, htitle, -⟩ := hshows
  exact ⟨element, props, rfl, hprops, htitle⟩

/-- By their numbers alone the two zeros are one place, and the label that was seen first would be
read first; it is not. -/
theorem not_interprets_of_numbers :
    ¬ ∀ (width height : Nat) (boxes : List DetectedBox) (options : Options),
      boxes ≠ [] → 0 < width → 0 < height →
        ∃ kept elements, interpretBoxes width height boxes options = .ok elements ∧
          Interprets (· < ·) options boxes kept elements := by
  intro hall
  obtain ⟨kept, elements, hok, hnumbers⟩ :=
    hall 100 100 labelsAtZeros {} (by decide) (by decide) (by decide)
  rw [interpretBoxes_eq (by decide) (by decide) (by decide)] at hok
  obtain rfl := Except.ok.inj hok
  -- by the numbers alone the first label is "A", in the order of floats it is "B"
  obtain ⟨element, props, helement, hprops, htitle⟩ := title_labelsAtZeros hnumbers (Or.inl rfl) (by
    rintro label (rfl | rfl) hbefore
    · rfl
    · exact absurd hbefore (by decide +kernel))
  obtain ⟨element', props', helement', hprops', htitle'⟩ := title_labelsAtZeros
    (interprets_elementsOf {} labelsAtZeros _ _) (Or.inr rfl) (by
      rintro label (rfl | rfl) hbefore
      · exact absurd hbefore (by decide +kernel)
      · rfl)
  obtain rfl := Option.some.inj (helement.symm.trans helement')
  obtain rfl := Widget.sidebar.inj (hprops.symm.trans hprops')
  have hsame := htitle.symm.trans htitle'
  revert hsame
  decide +kernel

end Wireframe.Sketch
