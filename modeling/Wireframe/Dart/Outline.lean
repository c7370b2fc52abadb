/-
Classes and files.

Code outside of expressions is an outline: lines, and groups of lines between brackets.  Brackets are
opened and closed by the group alone, and what stands between them is two blanks further to the
right.

* `Bracket`, `Outline` — outlines;
* `Outline.write` — an outline whose lines start at a given level;
* `ClassDecl` — a class with its body.
-/
import Wireframe.Dart.Expr

namespace Wireframe.Dart

/-- A pair of brackets. -/
inductive Bracket
  | round
  | square
  | curly
deriving Repr, DecidableEq, Inhabited

namespace Bracket

/-- The opening bracket. -/
def opening : Bracket → Char
  | round => '('
  | square => '['
  | curly => '\x7b'

/-- The closing bracket. -/
def closing : Bracket → Char
  | round => ')'
  | square => ']'
  | curly => '\x7d'

end Bracket

/-- Lines of code. -/
inductive Outline
  /-- An empty line. -/
  | blank
  /-- A line. -/
  | line (pieces : List Piece)
  /-- An expression with a comma behind it. -/
  | item (value : Expr)
  /-- Lines between brackets, which are all opened on one line, each with some code in front of it,
  and all closed on another, with some code behind them. -/
  | group (heads : List (String × Bracket)) (body : List Outline) (tail : String)
deriving Repr, Inhabited

namespace Outline

/-- A line without texts. -/
def code (text : String) : Outline := .line [.raw text]

instance : Coe String Outline := ⟨code⟩

/-- The opened brackets of a group. -/
def writeHeads (heads : List (String × Bracket)) : List Char :=
  heads.flatMap fun (head, bracket) => head.toList ++ [bracket.opening]

/-- The closed brackets of a group, the last one opened first. -/
def writeClosing (heads : List (String × Bracket)) : List Char :=
  heads.reverse.map (·.2.closing)

/-- The blanks in front of a line. -/
def margin (indentation : Nat) : List Char := List.replicate indentation ' '

mutual

/-- An outline whose lines start after the given number of blanks, line breaks included. -/
def write (indentation : Nat) : Outline → List Char
  | .blank => ['\n']
  | .line pieces => margin indentation ++ writePieces pieces ++ ['\n']
  | .item value => margin indentation ++ value.write indentation ++ [',', '\n']
  | .group heads body tail =>
      margin indentation ++ writeHeads heads ++ '\n' :: writeAll (indentation + 2) body ++
        margin indentation ++ writeClosing heads ++ tail.toList ++ ['\n']

/-- Outlines one below the other. -/
def writeAll (indentation : Nat) : List Outline → List Char
  | [] => []
  | outline :: rest => write indentation outline ++ writeAll indentation rest

end

end Outline

/-- Lines between curly braces. -/
def braces (head : String) (body : List Outline) (tail : String := "") : Outline :=
  .group [(head, .curly)] body tail

/-- Lines between parentheses. -/
def parens (head : String) (body : List Outline) (tail : String := ",") : Outline :=
  .group [(head, .round)] body tail

/-- Lines between square brackets. -/
def brackets (head : String) (body : List Outline) (tail : String := ",") : Outline :=
  .group [(head, .square)] body tail

/-- The line that lets a method take the place of an inherited one. -/
def override : Outline := "@override"

/-- A method that takes the place of an inherited one. -/
def overriding (head : String) (body : List Outline) : List Outline :=
  [override, braces head body]

/-- The head of the method that builds a widget. -/
def buildHead : String := "Widget build(BuildContext context) "

/-- A class. -/
structure ClassDecl where
  name : String
  parent : String
  body : List Outline
deriving Repr, Inhabited

/-- A class as an outline. -/
def ClassDecl.outline (c : ClassDecl) : Outline :=
  braces ("class " ++ c.name ++ " extends " ++ c.parent ++ " ") c.body

end Wireframe.Dart
