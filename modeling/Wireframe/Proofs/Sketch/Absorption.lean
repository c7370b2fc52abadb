/-
Which bar takes which labels.

The bars take their labels one after the other, each from what the bars before it have left.  So a
label goes to the first bar that it lies in, and the bar reads its labels in the order of their
places.

* `Precedes` — the order of floats in which the negative zero lies below the positive one;
* `orderKey_lt_iff` — keys are compared as the floats are that they are the keys of;
* `mem_placedFrom`, `pairwise_placedFrom` — the boxes of a list and their places;
* `firstBar` — the first bar that a label lies in;
* `takenBy?_step` — the labels that a bar takes are those whose first bar it is;
* `hasTaken_step` — a label is taken if it lies in a bar at all;
* `pairwise_readingOrder` — the order of reading, labels with one key in the order of the boxes.
-/
import Wireframe.Proofs.Binary64.Arithmetic
import Wireframe.Sketch.Absorption

namespace Wireframe.Sketch

open Binary64

/-- `a` is less than `b`, or they are the negative and the positive zero. -/
def Precedes (a b : Float) : Prop := a < b ∨ a = -0.0 ∧ b = 0.0

instance (a b : Float) : Decidable (Precedes a b) :=
  inferInstanceAs (Decidable (_ ∨ _))

/-- The key of a float is its weight, one less if its sign is negative. -/
theorem orderKey_eq (x : Float) :
    orderKey x = if x.toBits.toNat < 2 ^ 63 then weight x else weight x - 1 := by
  unfold orderKey weight wordWeight
  by_cases h : x.toBits.toNat < 2 ^ 63
  · rw [if_pos h, if_pos h]
    exact if_pos h
  · rw [if_neg h, if_neg h]
    refine (if_neg h).trans ?_
    omega

theorem eq_zero_of_weight {x : Float} (h : weight x = 0) :
    x.toBits.toNat < 2 ^ 63 ∧ x = 0.0 ∨ ¬ x.toBits.toNat < 2 ^ 63 ∧ x = -0.0 := by
  unfold weight wordWeight at h
  by_cases hpos : x.toBits.toNat < 2 ^ 63
  · rw [if_pos hpos] at h
    refine Or.inl ⟨hpos, Float.toBits_inj.mp (UInt64.toNat.inj ?_)⟩
    show x.toBits.toNat = 0
    omega
  · rw [if_neg hpos] at h
    refine Or.inr ⟨hpos, Float.toBits_inj.mp (UInt64.toNat.inj ?_)⟩
    show x.toBits.toNat = 2 ^ 63
    omega

/-- Keys are compared as the floats are that they are the keys of. -/
theorem orderKey_lt_iff {a b : Float} (ha : a.isNaN = false) (hb : b.isNaN = false) :
    orderKey a < orderKey b ↔ Precedes a b := by
  have hlt := lt_iff_weight ha hb
  have hwa : a.toBits.toNat < 2 ^ 63 ∧ 0 ≤ weight a ∨ ¬ a.toBits.toNat < 2 ^ 63 ∧ weight a ≤ 0 := by
    unfold weight wordWeight
    split <;> omega
  have hwb : b.toBits.toNat < 2 ^ 63 ∧ 0 ≤ weight b ∨ ¬ b.toBits.toNat < 2 ^ 63 ∧ weight b ≤ 0 := by
    unfold weight wordWeight
    split <;> omega
  rw [orderKey_eq, orderKey_eq]
  constructor
  · intro h
    by_cases hweight : weight a < weight b
    · exact Or.inl (hlt.mpr hweight)
    -- keys that differ where weights do not are those of the two zeros
    · right
      have hzero : weight a = 0 ∧ weight b = 0 := by split_ifs at h <;> omega
      rcases eq_zero_of_weight hzero.1 with ⟨hsa, rfl⟩ | ⟨hsa, rfl⟩
      · rw [if_pos hsa] at h
        split_ifs at h <;> omega
      · rcases eq_zero_of_weight hzero.2 with ⟨hsb, rfl⟩ | ⟨hsb, rfl⟩
        · exact ⟨rfl, rfl⟩
        · rw [if_neg hsa] at h
          omega
  · rintro (h | ⟨rfl, rfl⟩)
    · have hweight := hlt.mp h
      split_ifs <;> omega
    · decide

end Wireframe.Sketch

namespace Wireframe.Sketch

open Design

/-! ### Places -/

theorem mem_placedFrom {boxes : List DetectedBox} {n : Nat} {p : Placed} :
    p ∈ placedFrom n boxes ↔ n ≤ p.index ∧ boxes[p.index - n]? = some p.box := by
  induction boxes generalizing n with
  | nil => simp [placedFrom]
  | cons box rest ih =>
    rw [placedFrom, List.mem_cons, ih]
    constructor
    · rintro (rfl | ⟨hle, hget⟩)
      · exact ⟨Nat.le_refl n, by simp⟩
      · refine ⟨by omega, ?_⟩
        -- counted from the box before, every place is one further on
        rw [show p.index - n = (p.index - (n + 1)) + 1 by omega, List.getElem?_cons_succ]
        exact hget
    · rintro ⟨hle, hget⟩
      rcases Nat.eq_or_lt_of_le hle with heq | hlt
      · left
        rw [heq, Nat.sub_self, List.getElem?_cons_zero, Option.some_inj] at hget
        rw [heq, hget]
      · right
        rw [show p.index - n = (p.index - (n + 1)) + 1 by omega, List.getElem?_cons_succ] at hget
        exact ⟨hlt, hget⟩

theorem mem_placed {boxes : List DetectedBox} {p : Placed} :
    p ∈ placedFrom 0 boxes ↔ boxes[p.index]? = some p.box := by
  rw [mem_placedFrom]
  exact and_iff_right (Nat.zero_le _)

theorem pairwise_placedFrom (n : Nat) (boxes : List DetectedBox) :
    (placedFrom n boxes).Pairwise (·.index < ·.index) := by
  induction boxes generalizing n with
  | nil => exact List.Pairwise.nil
  | cons box rest ih =>
    refine List.Pairwise.cons ?_ (ih (n + 1))
    intro p hp
    exact (mem_placedFrom.mp hp).1

/-! ### Bars -/

/-- The first of some bars that a label lies in. -/
def firstBar (bars : List Placed) (label : Placed) : Option Placed :=
  bars.find? fun bar => bar.box.bb.contains label.box.bb

/-- A label that a bar does not take has the first bar that it has among the later ones. -/
theorem filter_firstBar_of_ne {bar : Placed} {bars labels : List Placed} {i : Nat}
    (hi : bar.index ≠ i) :
    (labels.filter fun label => !bar.box.bb.contains label.box.bb).filter
        (fun label => (firstBar bars label).map (·.index) = some i) =
      labels.filter fun label => (firstBar (bar :: bars) label).map (·.index) = some i := by
  rw [List.filter_filter]
  refine List.filter_congr ?_
  intro label _
  unfold firstBar
  rw [List.find?_cons]
  -- a label inside the bar has this bar as its first one and is on neither side
  cases hin : bar.box.bb.contains label.box.bb <;> simp [hi]

/-- The labels that a bar takes before all others are those inside it. -/
theorem filter_firstBar_self {bar : Placed} {bars : List Placed} (labels : List Placed)
    (hne : ∀ later ∈ bars, bar.index ≠ later.index) :
    (labels.filter fun label => (firstBar (bar :: bars) label).map (·.index) = some bar.index) =
      labels.filter fun label => bar.box.bb.contains label.box.bb := by
  refine List.filter_congr ?_
  intro label _
  unfold firstBar
  rw [List.find?_cons]
  cases hin : bar.box.bb.contains label.box.bb
  · rw [decide_eq_false_iff_not]
    intro hfirst
    obtain ⟨later, hfind, hindex⟩ := Option.map_eq_some_iff.mp hfirst
    exact hne later (List.mem_of_find?_eq_some hfind) hindex.symm
  · exact decide_eq_true rfl

theorem step_cons (bar : Placed) (bars labels : List Placed) :
    Absorption.step (bar :: bars) labels =
      let inside := labels.filter fun label => bar.box.bb.contains label.box.bb
      let rest := Absorption.step bars
        (labels.filter fun label => !bar.box.bb.contains label.box.bb)
      if inside.isEmpty then rest
      else { rest with taken := (bar.index, readingOrder bar.box.kind inside) :: rest.taken } := by
  rw [Absorption.step, List.partition_eq_filter_filter]
  rfl

/-- What is at no bar takes nothing. -/
theorem takenBy?_step_of_ne {bars : List Placed} (labels : List Placed) {i : Nat}
    (hi : ∀ bar ∈ bars, bar.index ≠ i) : (Absorption.step bars labels).takenBy? i = none := by
  induction bars generalizing labels with
  | nil => rfl
  | cons bar bars ih =>
    have hrest := ih (labels.filter fun label => !bar.box.bb.contains label.box.bb)
      fun later hlater => hi later (List.mem_cons_of_mem bar hlater)
    have hbar : (i == bar.index) = false := beq_false_of_ne (hi bar List.mem_cons_self).symm
    rw [step_cons]
    dsimp only
    split
    · exact hrest
    · rw [Absorption.takenBy?, List.lookup_cons, hbar]
      exact hrest

/-- A bar takes the labels whose first bar it is. -/
theorem takenBy?_step {bars : List Placed} (hbars : bars.Pairwise (·.index < ·.index))
    (labels : List Placed) {bar : Placed} (hbar : bar ∈ bars) :
    (Absorption.step bars labels).takenBy? bar.index =
      match labels.filter fun label => (firstBar bars label).map (·.index) = some bar.index with
      | [] => none
      | taken => some (readingOrder bar.box.kind taken) := by
  induction bars generalizing labels with
  | nil => cases hbar
  | cons first bars ih =>
    obtain ⟨hfirst, hrest⟩ := List.pairwise_cons.mp hbars
    rw [step_cons]
    dsimp only
    rcases List.mem_cons.mp hbar with rfl | hmem
    -- the first bar takes what lies in it, and its place is that of no later bar
    · have hnone := takenBy?_step_of_ne
        (labels.filter fun label => !bar.box.bb.contains label.box.bb)
        fun later hlater => Nat.ne_of_gt (hfirst later hlater)
      rw [filter_firstBar_self labels fun later hlater => Nat.ne_of_lt (hfirst later hlater)]
      cases hin : labels.filter fun label => bar.box.bb.contains label.box.bb with
      | nil => exact hnone
      | cons label inside =>
        rw [if_neg (by simp), Absorption.takenBy?, List.lookup_cons_self]
    -- a later bar takes of what the first one has left
    · have hne : first.index ≠ bar.index := Nat.ne_of_lt (hfirst bar hmem)
      have hbeq : (bar.index == first.index) = false := beq_false_of_ne hne.symm
      rw [← filter_firstBar_of_ne hne, ← ih hrest _ hmem]
      split
      · rfl
      · rw [Absorption.takenBy?, List.lookup_cons, hbeq]
        rfl

theorem mem_readingOrder {kind : Kind} {labels : List Placed} {label : Placed} :
    label ∈ readingOrder kind labels ↔ label ∈ labels :=
  List.mem_mergeSort

/-- A label is taken if it lies in a bar at all. -/
theorem hasTaken_step (bars labels : List Placed) (i : Nat) :
    (Absorption.step bars labels).hasTaken i = true ↔
      ∃ label ∈ labels, label.index = i ∧ (firstBar bars label).isSome := by
  induction bars generalizing labels with
  | nil => simp [Absorption.step, Absorption.hasTaken, firstBar]
  | cons bar bars ih =>
    -- This bar takes the labels within it, and the bars after it see only the labels that are left.
    have hstep : (Absorption.step (bar :: bars) labels).hasTaken i = true ↔
        (∃ label ∈ labels, bar.box.bb.contains label.box.bb = true ∧ label.index = i) ∨
          (Absorption.step bars
            (labels.filter fun label => !bar.box.bb.contains label.box.bb)).hasTaken i = true := by
      rw [step_cons]
      dsimp only
      split
      -- A bar without labels leaves no entry, which loses nothing as no label could be found in it.
      · rename_i hempty
        rw [List.isEmpty_iff, List.filter_eq_nil_iff] at hempty
        refine (or_iff_right ?_).symm
        rintro ⟨label, hlabel, hin, -⟩
        exact hempty label hlabel hin
      · simp only [Absorption.hasTaken, List.any_cons, Bool.or_eq_true, List.any_eq_true,
          mem_readingOrder, List.mem_filter, beq_iff_eq, and_assoc]
    rw [hstep, ih]
    constructor
    · rintro (⟨label, hlabel, hin, hindex⟩ | ⟨label, hlabel, hindex, hsome⟩)
      · refine ⟨label, hlabel, hindex, ?_⟩
        rw [firstBar, List.find?_cons, hin]
        rfl
      · obtain ⟨hmem, hout⟩ := List.mem_filter.mp hlabel
        refine ⟨label, hmem, hindex, ?_⟩
        rw [Bool.not_eq_true'] at hout
        rw [firstBar, List.find?_cons, hout]
        exact hsome
    · rintro ⟨label, hlabel, hindex, hsome⟩
      -- A label is taken by the first bar that contains it: this one, or the first of the rest.
      cases hin : bar.box.bb.contains label.box.bb
      · right
        have hleft : (!bar.box.bb.contains label.box.bb) = true := by
          rw [hin]
          rfl
        refine ⟨label, List.mem_filter.mpr ⟨hlabel, hleft⟩, hindex, ?_⟩
        rw [firstBar, List.find?_cons, hin] at hsome
        exact hsome
      · exact Or.inl ⟨label, hlabel, hin, hindex⟩

/-! ### The order of reading -/

/-- Where a label is looked for along a bar. -/
def alongBar (kind : Kind) (label : DetectedBox) : Float :=
  if kind = .sidebar then label.bb.y else label.bb.x

/-- Labels are read by their places along the bar, those with one key in the order of the boxes. -/
theorem pairwise_readingOrder (kind : Kind) {labels : List Placed}
    (hlabels : labels.Pairwise (·.index < ·.index)) :
    (readingOrder kind labels).Pairwise fun a b =>
      orderKey (alongBar kind a.box) < orderKey (alongBar kind b.box) ∨
        orderKey (alongBar kind a.box) = orderKey (alongBar kind b.box) ∧ a.index < b.index := by
  let le (a b : Placed) : Bool := orderKey (alongBar kind a.box) ≤ orderKey (alongBar kind b.box)
  have htrans (a b c : Placed) (hab : le a b = true) (hbc : le b c = true) : le a c = true := by
    simp only [le, decide_eq_true_eq] at *
    omega
  have htotal (a b : Placed) : (le a b || le b a) = true := by
    simp only [le, Bool.or_eq_true, decide_eq_true_eq]
    omega
  show (labels.mergeSort le).Pairwise _
  induction labels with
  | nil => simp
  | cons first labels ih =>
    obtain ⟨hfirst, hrest⟩ := List.pairwise_cons.mp hlabels
    obtain ⟨before, after, hsorted, hsorted', hbefore⟩ :=
      List.mergeSort_cons htrans htotal first labels
    have hpair := ih hrest
    -- the first label goes in behind those strictly before it, so equal ones stay in order
    have hle := List.pairwise_mergeSort htrans htotal (first :: labels)
    rw [hsorted'] at hpair
    rw [hsorted] at hle ⊢
    obtain ⟨hpre, hsuf, hcross⟩ := List.pairwise_append.mp hpair
    obtain ⟨-, hle', -⟩ := List.pairwise_append.mp hle
    have hmem (b : Placed) (hb : b ∈ after) : b ∈ labels := by
      refine List.mem_mergeSort.mp (?_ : b ∈ labels.mergeSort le)
      rw [hsorted']
      exact List.mem_append_right before hb
    refine List.pairwise_append.mpr ⟨hpre, List.pairwise_cons.mpr ⟨?_, hsuf⟩, ?_⟩
    · intro b hb
      have h := (List.pairwise_cons.mp hle').1 b hb
      have hlt := hfirst b (hmem b hb)
      simp only [le, decide_eq_true_eq] at h
      omega
    · intro a ha b hb
      rcases List.mem_cons.mp hb with rfl | hb
      · left
        have h := hbefore a ha
        simp only [le, Bool.not_eq_true', decide_eq_false_iff_not] at h
        omega
      · exact hcross a ha b hb

end Wireframe.Sketch
