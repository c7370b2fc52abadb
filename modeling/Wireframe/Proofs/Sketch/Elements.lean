/-
The elements for boxes, one by one.

* `getElem?_elementsOf` — each box that is left has one element, in order;
* `elementId_injective` — an id tells kind and number;
* `nodup_elementsOf` — no two elements have the same id.
-/
import Wireframe.Sketch.Interpretation

namespace Wireframe.Sketch

open Design

variable {width height : Float} {options : Options} {absorption : Absorption}

theorem length_elementsOf (earlier : List Kind) (placed : List Placed) :
    (elementsOf width height options absorption earlier placed).length = placed.length := by
  induction placed generalizing earlier with
  | nil => rfl
  | cons p rest ih => rw [elementsOf, List.length_cons, ih, List.length_cons]

theorem getElem?_elementsOf (earlier : List Kind) (placed : List Placed) (n : Nat) :
    (elementsOf width height options absorption earlier placed)[n]? =
      placed[n]?.map fun p => elementOf width height options absorption
        (((placed.take n).map (·.box.kind)).reverse ++ earlier) p := by
  induction placed generalizing earlier n with
  | nil => rfl
  | cons p rest ih =>
    rw [elementsOf]
    cases n with
    | zero => rfl
    | succ n =>
      -- the kind of the first box is the last of the kinds that were met before
      rw [List.getElem?_cons_succ, List.getElem?_cons_succ, ih, List.take_succ_cons, List.map_cons,
        List.reverse_cons, List.append_assoc]
      rfl

/-! ### Ids -/

theorem hyphen_notMem_tag (kind : Kind) : '-' ∉ kind.tag.toLower.toList := by
  have h : ∀ k ∈ Kind.all, '-' ∉ k.tag.toLower.toList := by decide +kernel
  exact h kind (Kind.mem_all kind)

theorem toLower_tag_injective {a b : Kind} (h : a.tag.toLower = b.tag.toLower) : a = b := by
  have hall : ∀ a ∈ Kind.all, ∀ b ∈ Kind.all, a.tag.toLower = b.tag.toLower → a = b := by
    decide +kernel
  exact hall a (Kind.mem_all a) b (Kind.mem_all b) h

/-- What stands before the first hyphen and what stands after it. -/
theorem eq_of_append_hyphen {a b m n : List Char} (ha : '-' ∉ a) (hb : '-' ∉ b)
    (h : a ++ '-' :: m = b ++ '-' :: n) : a = b ∧ m = n := by
  induction a generalizing b with
  | nil =>
    cases b with
    | nil => exact ⟨rfl, List.tail_eq_of_cons_eq h⟩
    | cons c b => exact absurd (List.head_eq_of_cons_eq h ▸ List.mem_cons_self) hb
  | cons c a ih =>
    cases b with
    | nil => exact absurd (List.head_eq_of_cons_eq h ▸ List.mem_cons_self) ha
    | cons d b =>
      rw [List.mem_cons, not_or] at ha hb
      obtain ⟨rfl, rfl⟩ := ih ha.2 hb.2 (List.tail_eq_of_cons_eq h)
      exact ⟨congrArg (· :: a) (List.head_eq_of_cons_eq h), rfl⟩

/-- An id tells kind and number. -/
theorem elementId_injective {a b : Kind} {m n : Nat} (h : elementId a m = elementId b n) :
    a = b ∧ m = n := by
  have hlist : a.tag.toLower.toList ++ '-' :: m.repr.toList =
      b.tag.toLower.toList ++ '-' :: n.repr.toList := by
    have := congrArg String.toList h
    simpa [elementId, toString] using this
  obtain ⟨htag, hnumber⟩ := eq_of_append_hyphen (hyphen_notMem_tag a) (hyphen_notMem_tag b) hlist
  rw [Nat.toList_repr, Nat.toList_repr] at hnumber
  -- the digits of a number are read as the number
  have hvalue := congrArg (Nat.ofDigitChars 10 · 0) hnumber
  simp only [Nat.ofDigitChars_toDigits (b := 10) (by decide) (by decide)] at hvalue
  exact ⟨toLower_tag_injective (String.toList_inj.mp htag), hvalue⟩

/-- The number in the id of an element is above the number of earlier elements of its kind. -/
theorem id_of_mem_elementsOf {earlier : List Kind} {placed : List Placed} {element : Element}
    (h : element ∈ elementsOf width height options absorption earlier placed) :
    ∃ kind n, element.id = elementId kind n ∧ earlier.count kind < n := by
  induction placed generalizing earlier with
  | nil => cases h
  | cons p rest ih =>
    rcases List.mem_cons.mp h with rfl | hmem
    · exact ⟨p.box.kind, earlier.count p.box.kind + 1, rfl, Nat.lt_succ_self _⟩
    · obtain ⟨kind, n, hid, hn⟩ := ih hmem
      exact ⟨kind, n, hid, Nat.lt_of_le_of_lt (List.count_le_count_cons) hn⟩

/-- No two elements have the same id. -/
theorem nodup_elementsOf (earlier : List Kind) (placed : List Placed) :
    ((elementsOf width height options absorption earlier placed).map (·.id)).Nodup := by
  induction placed generalizing earlier with
  | nil => exact List.Pairwise.nil
  | cons p rest ih =>
    rw [elementsOf, List.map_cons, List.nodup_cons]
    refine ⟨?_, ih _⟩
    -- an element further on with this id would have this number, but numbers only grow
    intro hmem
    obtain ⟨element, helement, hid⟩ := List.mem_map.mp hmem
    obtain ⟨kind, n, hid', hn⟩ := id_of_mem_elementsOf helement
    obtain ⟨rfl, rfl⟩ := elementId_injective (hid'.symm.trans hid)
    rw [List.count_cons_self] at hn
    exact Nat.lt_irrefl _ hn

/-- The kind of the widget of a box is that of the box. -/
theorem kind?_widgetOf (fontSize : Float) (taken : Option (List Placed)) (box : DetectedBox) :
    (widgetOf options fontSize taken box).kind? = some box.kind := by
  unfold widgetOf
  cases box.kind <;> rfl

end Wireframe.Sketch
