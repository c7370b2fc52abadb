/-
Expressions.

Generated expressions are trees of calls and lists.  A call or a list that is not empty has one
argument or item a line, two spaces further to the right, each with a comma behind it.  Texts enter
an expression as pieces that are quoted when it is written, and in no other way.

* `Piece` — code as it is, or a text to be quoted;
* `Expr` — expressions;
* `Expr.write` — an expression in which new lines start at a given level;
* `Expr.text` — an expression that starts at the left margin.
-/
import Wireframe.Dart.Literal

namespace Wireframe.Dart

/-- A part of a line. -/
inductive Piece
  /-- Code as it is. -/
  | raw (code : String)
  /-- A text as a literal. -/
  | quoted (text : String)
deriving Repr, Inhabited, DecidableEq

/-- A part of a line as it is written. -/
def Piece.write : Piece → List Char
  | raw code => code.toList
  | quoted text => quote text

/-- Parts of a line as they are written. -/
def writePieces (pieces : List Piece) : List Char := pieces.flatMap Piece.write

/-- A line break and the blanks in front of the next line. -/
def newLine (indentation : Nat) : List Char := '\n' :: List.replicate indentation ' '

/-- An expression, or an argument with its label. -/
inductive Expr
  /-- Code on one line. -/
  | inline (pieces : List Piece)
  /-- A function without parameters that runs some statements. -/
  | closure (statements : List (List Piece))
  /-- An argument with its label. -/
  | named (label : String) (value : Expr)
  /-- A call. -/
  | call (head : String) (args : List Expr)
  /-- A list. -/
  | list (items : List Expr)
deriving Repr, Inhabited

namespace Expr

/-- Code on one line that holds no text. -/
def code (text : String) : Expr := .inline [.raw text]

/-- A text as a literal. -/
def literal (text : String) : Expr := .inline [.quoted text]

instance : Coe String Expr := ⟨code⟩

mutual

/-- An expression; its lines after the first are indented to the given number of blanks. -/
def write (indentation : Nat) : Expr → List Char
  | .inline pieces => writePieces pieces
  | .closure statements =>
      '(' :: ')' :: ' ' :: '\x7b' ::
        statements.flatMap (fun s => newLine (indentation + 2) ++ writePieces s ++ [';']) ++
        newLine indentation ++ ['\x7d']
  | .named label value => label.toList ++ ':' :: ' ' :: write indentation value
  | .call head [] => head.toList ++ ['(', ')']
  | .call head (arg :: args) =>
      head.toList ++ '(' :: writeLines (indentation + 2) (arg :: args) ++ newLine indentation ++
        [')']
  | .list [] => ['[', ']']
  | .list (item :: items) =>
      '[' :: writeLines (indentation + 2) (item :: items) ++ newLine indentation ++ [']']

/-- Expressions on lines of their own, each with a comma behind it. -/
def writeLines (indentation : Nat) : List Expr → List Char
  | [] => []
  | e :: rest => newLine indentation ++ write indentation e ++ ',' :: writeLines indentation rest

end

/-- An expression that starts at the left margin. -/
def text (e : Expr) : String := String.ofList (e.write 0)

end Expr

end Wireframe.Dart
