/-
Tables.

All rows of a table have the same number of cells: one for each header, or as many as the longest row
has if there are no headers.  Short rows are filled up with empty cells and long ones cut.

* `columnCount` — the number of columns;
* `tableCode` — the code of a table.
-/
import Wireframe.App.Place
import Wireframe.Design.Properties

namespace Wireframe.App

open Dart Design

/-- The number of columns of a table. -/
def columnCount (p : TableProps) : Nat :=
  if p.headers.isEmpty then (p.rows.map List.length).foldl max 0 else p.headers.length

/-- The code of a cell. -/
def cellCode (fontSize : Float) (bold : Bool) (text : String) : Expr :=
  .call "Padding"
    [.named "padding" "const EdgeInsets.all(4)",
      .named "child" (textWidget text
        [ellipsisArg,
          .named "style"
            (.call "TextStyle" (fontSizeArg fontSize :: if bold then [boldArg] else []))])]

/-- Exactly `columns` texts: the given ones cut or filled up. -/
def regular (columns : Nat) (texts : List String) : List String :=
  (List.range columns).map fun i => texts.getD i ""

/-- The code of a row; that of the headers has a colour. -/
def rowCode (columns : Nat) (fontSize : Float) (header : Option Color) (texts : List String) :
    Expr :=
  let decoration : List Expr := match header with
    | some c => [.named "decoration" ("const BoxDecoration(color: " ++ colorCode c ++ ")")]
    | none => []
  let cells := (regular columns texts).map (cellCode fontSize header.isSome)
  .call "TableRow" (decoration ++ [.named "children" (.list cells)])

/-- The width of a column. -/
def columnWidth (p : TableProps) (columns i : Nat) : Float :=
  let even := 1.0 / Float.ofNat columns
  if p.colWidths.length = columns then p.colWidths.getD i even else even

/-- The widths of all columns. -/
def widthsCode (p : TableProps) (columns : Nat) : String :=
  let entry (i : Nat) : String :=
    toString i ++ ": FractionColumnWidth(" ++ fraction (columnWidth p columns i) ++ ")"
  "const <int, TableColumnWidth>\x7b" ++
    String.intercalate ", " ((List.range columns).map entry) ++ "\x7d"

/-- The colour of the lines of a table. -/
def gridColor : Color := .ofRgb 0xd1d5db

/-- The rows of a table, the headers first if there are any. -/
def rowsCode (p : TableProps) (columns : Nat) : List Expr :=
  (if p.headers.isEmpty then []
    else [rowCode columns p.fontSize (some p.headerColor) p.headers]) ++
    p.rows.map (rowCode columns p.fontSize none)

/-- The code of a table. -/
def tableCode (p : TableProps) : Expr :=
  let columns := columnCount p
  if columns = 0 then "const SizedBox.shrink()"
  else
    .call "SingleChildScrollView"
      [.named "child" (.call "Table"
        [.named "border" ("TableBorder.all(color: " ++ constColor gridColor ++ ")"),
          .named "columnWidths" (widthsCode p columns),
          .named "children" (.list (rowsCode p columns))])]

end Wireframe.App
