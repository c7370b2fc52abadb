/-
The code of elements on its way into a screen.

Everything that is written for an element, from the whole of it down to each call and each list that
stands in it, is code that keeps its lines when it is moved.  So what stands in the file of a screen
is the code of its elements with blanks in front of the lines.

* `areClosedCalls_elementCode` — the code of an element is made of calls;
* `IsLayered`, `isLayered` — everything that is written for an element is tidy and moved to its place;
* `indentation_is_lossless` — that, and that tidy code loses nothing when it is moved.
-/
import Wireframe.Proofs.App.RawCode
import Wireframe.Proofs.Dart.Layers

namespace Wireframe.App

open Dart Design Text

variable (around : Surroundings) (element : Element)

theorem elementCode_ne_nil : elementCode around element ≠ [] := by
  unfold elementCode
  cases element.widget <;> exact List.cons_ne_nil _ _

theorem exists_call_of_mem_elementCode {e : Expr} (h : e ∈ elementCode around element) :
    ∃ head args, e = .call head args := by
  unfold elementCode at h
  cases hwidget : element.widget with
  | sidebar p =>
    rw [hwidget] at h
    simp only [sidebarCode, List.mem_cons, List.not_mem_nil, or_false] at h
    rcases h with rfl | rfl
    · exact ⟨_, _, rfl⟩
    · exact ⟨_, _, rfl⟩
  | _ =>
    rw [hwidget] at h
    obtain rfl := List.mem_singleton.mp h
    exact ⟨_, _, rfl⟩

/-- The code of an element is made of calls. -/
theorem areClosedCalls_elementCode : AreClosedCalls (elementCode around element) := fun e he =>
  ⟨Expr.areClosed_iff.mp (areClosed_elementCode around element) e he,
    exists_call_of_mem_elementCode around element he⟩

theorem toList_text_fragmentOf :
    (fragmentOf around element).text.toList = rows (elementCode around element) := by
  rw [Fragment.text, String.toList_intercalate, List.map_map, rows, fragmentOf]
  congr 1
  refine List.map_congr_left ?_
  intro e _
  exact String.toList_ofList

/-- Everything that is written for an element is tidy, and is moved to where it stands. -/
structure IsLayered : Prop where
  tidy : ∀ e ∈ elementCode around element, ∀ part ∈ e.parts, IsTidy (part.write 0)
  layers : ∀ e ∈ elementCode around element, ∀ part ∈ e.parts, ∀ n,
    part.write n = nest n (part.write 0)
  tidyText : IsTidy (fragmentOf around element).text.toList
  /-- What stands in the file of the screen, where the elements are items of a list. -/
  inFile : ∀ n, Outline.writeAll n ((elementCode around element).map .item) =
    indent n (fragmentOf around element).text.toList ++ [',', '\n']

theorem isLayered : IsLayered around element := by
  have hclosed : ∀ e ∈ elementCode around element, ∀ part ∈ e.parts, part.isClosed := fun e he =>
    e.isClosed_of_mem_parts (areClosedCalls_elementCode around element e he).1
  have hcalls := areClosedCalls_elementCode around element
  have hne := elementCode_ne_nil around element
  have htext := toList_text_fragmentOf around element
  refine ⟨fun e he part hpart => ?_, fun e he part hpart n => ?_, ?_, fun n => ?_⟩
  · exact Expr.isTidy_write (hclosed e he part hpart) 0
  · exact Expr.write_eq_nest (hclosed e he part hpart) n
  · rw [htext]
    exact isTidy_rows hcalls hne
  · rw [htext]
    exact Outline.writeAll_items hcalls hne n

/-- Tidy code loses nothing when it is moved, however often, and everything that is written for an
element is tidy. -/
theorem indentation_is_lossless :
    (∀ code, IsTidy code → IsMovable code) ∧ ∀ around element, IsLayered around element :=
  ⟨fun _ => IsTidy.isMovable, isLayered⟩

/-- The code of a label, and the same code four blanks and then two blanks further to the right. -/
theorem indentation_is_lossless_call :
    IsTidy "Text(\n  'Hi',\n)".toList ∧
      nest 2 (nest 4 "Text(\n  'Hi',\n)".toList) = "Text(\n        'Hi',\n      )".toList ∧
      unnest 6 "Text(\n        'Hi',\n      )".toList = "Text(\n  'Hi',\n)".toList := by
  have htidy : IsTidy "Text(\n  'Hi',\n)".toList := ⟨by decide, by decide⟩
  have hmovable := indentation_is_lossless.1 _ htidy
  have hnest : nest 6 "Text(\n  'Hi',\n)".toList = "Text(\n        'Hi',\n      )".toList := by
    decide
  exact ⟨htidy, (hmovable.twice 4 2).trans hnest, hnest ▸ hmovable.back 6⟩

end Wireframe.App
