/-
Code without underscores.

Names with an underscore are few in generated code: those of icons, of helpers and of the fields of a
state.  Most widgets are written without one, whatever their texts are.

* `avoids_labelCode` to `avoids_tableCode` — one lemma for each such kind of widget.
-/
import Wireframe.Proofs.App.TableShape

namespace Wireframe.App

open Dart Design

/-! ### Places and looks -/

section

variable (c : Color) (v : Float)

@[simp] theorem isFree_underscore_width : isFree '_' (width v) := isFree_width (by decide) v

@[simp] theorem isFree_underscore_height : isFree '_' (height v) := isFree_height (by decide) v

@[simp] theorem isFree_underscore_colorCode : isFree '_' (colorCode c) :=
  isFree_colorCode (by decide) c

@[simp] theorem isFree_underscore_constColor : isFree '_' (constColor c) :=
  isFree_constColor (by decide) c

@[simp] theorem isFree_underscore_double : isFree '_' (double v) :=
  isFree_of_isNumeral rfl (isNumeral_double v)

@[simp] theorem avoids_underscore_fontSizeArg : (fontSizeArg v).avoids '_' :=
  avoids_fontSizeArg (by decide) v

end

theorem avoids_textStyle (size : Float) (c : Color) (more : List Expr) :
    (textStyle size c more).avoids '_' = Expr.allAvoid '_' more := by
  simp (disch := exact isFree_ofList rfl) [isFree_given, textStyle, colorArg]

theorem avoids_textWidget (text : String) (args : List Expr) :
    (textWidget text args).avoids '_' = Expr.allAvoid '_' args := by
  simp (disch := exact isFree_ofList rfl) [isFree_given, textWidget]

theorem avoids_leftAligned (child : Expr) :
    (leftAligned child).avoids '_' = child.avoids '_' := by
  simp (disch := exact isFree_ofList rfl) [isFree_given, leftAligned]

theorem avoids_launchCode (url : String) : (launchCode url).avoids '_' := by
  unfold launchCode
  split <;> simp (disch := exact isFree_ofList rfl) [isFree_given]

/-! ### Widgets -/

theorem avoids_labelCode (p : LabelProps) : (labelCode p).avoids '_' := by
  cases hb : p.bold <;>
    simp (disch := exact isFree_ofList rfl) [isFree_given, labelCode, avoids_leftAligned,
      avoids_textWidget, avoids_textStyle, ellipsisArg, boldArg, hb]

theorem avoids_paragraphCode (p : ParagraphProps) : (paragraphCode p).avoids '_' := by
  have halign : isFree '_' (alignCode p.align) := by cases p.align <;> exact isFree_ofList rfl
  simp (disch := exact isFree_ofList rfl) [isFree_given, paragraphCode, avoids_textWidget,
    avoids_textStyle, halign]

theorem avoids_linkCode (p : LinkProps) : (linkCode p).avoids '_' := by
  simp (disch := exact isFree_ofList rfl) [isFree_given, linkCode, avoids_leftAligned,
    avoids_textWidget, avoids_textStyle, avoids_launchCode, ellipsisArg]

theorem avoids_roundedCorners (radius : Float) : (roundedCorners radius).avoids '_' := by
  simp (disch := exact isFree_ofList rfl) [isFree_given, roundedCorners]

theorem avoids_buttonCode (p : ButtonProps) : (buttonCode p).avoids '_' := by
  simp (disch := exact isFree_ofList rfl) [isFree_given, buttonCode, avoids_textWidget,
    avoids_roundedCorners]

theorem avoids_rectangleCode (p : ShapeProps) : (rectangleCode p).avoids '_' := by
  have hborder : Expr.allAvoid '_' (borderArgs p) := by
    unfold borderArgs
    split <;> simp (disch := exact isFree_ofList rfl) [isFree_given]
  unfold rectangleCode
  split <;>
    simp (disch := exact isFree_ofList rfl) [isFree_given, colorArg, hborder, avoids_roundedCorners]

theorem avoids_placeholderCode (tag : String) : (placeholderCode tag).avoids '_' := by
  simp (disch := exact isFree_ofList rfl) [isFree_given, placeholderCode, avoids_textWidget,
    ellipsisArg, outlineColor]

theorem avoids_tableCode (p : TableProps) : (tableCode p).avoids '_' := by
  have hgrid : isFree '_' ("TableBorder.all(color: " ++ constColor gridColor ++ ")") := by
    simp (disch := exact isFree_ofList rfl) [isFree_given]
  have hentries := isFree_widthEntries p (columnCount p) (c := '_') (by decide)
  have hwidths : isFree '_' (widthsCode p (columnCount p)) := by
    simp (disch := exact isFree_ofList rfl) [isFree_given, widthsCode_eq, hentries]
  have hrows := allAvoid_rowsCode (c := '_') (by decide) (isFree_ofList rfl) p (columnCount p)
  unfold tableCode
  extract_lets columns
  by_cases hcolumns : columns = 0
  · rw [if_pos hcolumns, Expr.avoids_code]
    exact isFree_ofList rfl
  · rw [if_neg hcolumns]
    simp (disch := exact isFree_ofList rfl) [isFree_given, hgrid, hwidths, hrows,
      columns]

theorem avoids_literalPieces (texts : List String) :
    (literalPieces texts).all (Piece.avoids '_') := by
  induction texts with
  | nil => rfl
  | cons text rest ih =>
      cases rest with
      | nil => rfl
      | cons next others => exact ih

end Wireframe.App
