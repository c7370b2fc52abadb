/-
Characters that the code of widgets lacks.

Numbers, colours and most names in generated code are written without some characters that other
names have: a name with such a character does not occur there, however the widget is made.

* `rare` — those characters;
* `isFree_width` to `isFree_constColor` — measures and colours;
* `avoids_cellCode` — the cells of tables.
-/
import Wireframe.Proofs.App.RawCode
import Wireframe.Proofs.Dart.Words

namespace Wireframe.App

open Dart Design

/-- Characters that do not occur in measures, colours and looks. -/
def rare : List Char := ['_', '\'', ',', 'R', 'k', 'u']

section

variable {c : Char}

theorem isFree_of_rare (hc : c ∈ rare) {code : String} (h : IsNumeral code.toList) :
    isFree c code := by
  have hnumerals : ∀ d ∈ rare, (!isNumeral d) = true := List.all_eq_true.mp rfl
  exact isFree_of_isNumeral (by simpa using hnumerals c hc) h

/-- Raw code is checked for several characters at once. -/
theorem isFree_ofList_of_mem {several : List Char} (hc : c ∈ several) {cs : List Char}
    (h : (several.all fun d => !cs.contains d) = true) : isFree c (String.ofList cs) :=
  isFree_ofList (List.all_eq_true.mp h c hc)

theorem isFree_width (hc : c ∈ rare) (v : Float) : isFree c (width v) := by
  have hfraction := isFree_of_rare hc (isNumeral_fraction v)
  simp (disch := exact isFree_ofList_of_mem hc rfl) [isFree_given, width, constraintsName, hfraction]

theorem isFree_height (hc : c ∈ rare) (v : Float) : isFree c (height v) := by
  have hfraction := isFree_of_rare hc (isNumeral_fraction v)
  simp (disch := exact isFree_ofList_of_mem hc rfl) [isFree_given, height, constraintsName, hfraction]

theorem isFree_colorCode (hc : c ∈ rare) (color : Color) : isFree c (colorCode color) := by
  have hcolor := isFree_of_rare hc (isNumeral_hexColor color)
  simp (disch := exact isFree_ofList_of_mem hc rfl) [isFree_given, colorCode, hcolor]

theorem isFree_constColor (hc : c ∈ rare) (color : Color) : isFree c (constColor color) := by
  have hcolor := isFree_colorCode hc color
  simp (disch := exact isFree_ofList_of_mem hc rfl) [isFree_given, constColor, hcolor]

theorem avoids_fontSizeArg (hc : c ∈ rare) (size : Float) : (fontSizeArg size).avoids c := by
  have hsize := isFree_height hc size
  simp (disch := exact isFree_ofList_of_mem hc rfl) [isFree_given, fontSizeArg, hsize]

theorem avoids_cellCode (hc : c ∈ rare) (fontSize : Float) (bold : Bool) (text : String) :
    (cellCode fontSize bold text).avoids c := by
  have hsize := avoids_fontSizeArg hc fontSize
  cases bold <;>
    simp (disch := exact isFree_ofList_of_mem hc rfl) [isFree_given, cellCode, textWidget,
      ellipsisArg, boldArg, hsize]

end

end Wireframe.App
