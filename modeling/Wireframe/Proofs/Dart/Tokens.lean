/-
Code as tokens.

Code is made of words, literals and symbols.  A word goes on as long as there are letters, digits
and signs that may stand in a name, a literal goes on up to the quote that closes it, and any other
character stands for itself unless it is a blank.  What is said of the words of some code is said of
the code without its texts.

* `Token`, `tokens` — the tokens of some code;
* `tokens_append_cons`, `tokens_quote_append` — the tokens of code that is set one after the other;
* `Expr.tokens`, `Expr.tokens_write` — the tokens of what is written from an expression;
* `Token.text?`, `texts` — what the literals say.
-/
import Wireframe.Proofs.Dart.Reading

namespace Wireframe.Dart

/-! ### Tokens -/

/-- The smallest parts of code that mean something. -/
inductive Token
  /-- A name, a keyword or the digits of a number. -/
  | word (name : String)
  /-- A literal, with what stands between its quotes. -/
  | literal (body : String)
  /-- A character of its own. -/
  | symbol (c : Char)
deriving DecidableEq, Repr

namespace Token

/-- The word that some characters make up, if there are any. -/
def ofWord (letters : List Char) : List Token :=
  if letters = [] then [] else [.word (String.ofList letters)]

/-- A text as a literal. -/
def quoted (text : String) : Token := .literal (String.ofList (text.toList.flatMap escape))

/-- What a literal says. -/
def text? : Token → Option String
  | .literal body => (readLiteral? ('\'' :: body.toList ++ ['\''])).map (·.1)
  | _ => none

@[simp] theorem text?_quoted (text : String) : (quoted text).text? = some text := by
  have hread := readLiteral?_quote_append text []
  rw [List.append_nil, quote] at hread
  rw [quoted, text?, String.toList_ofList, hread, Option.map_some]

@[simp] theorem text?_word (name : String) : (word name).text? = none := rfl

@[simp] theorem text?_symbol (c : Char) : (symbol c).text? = none := rfl

end Token

/-- What the literals among some tokens say. -/
def texts (ts : List Token) : List String := ts.filterMap Token.text?

/-- The character may stand in a word. -/
def isWordChar (c : Char) : Bool := c.isAlphanum || c == '_' || c == '$'

namespace Mode

/-- The tokens that are complete with a character, if some characters of a token stand before it. -/
def complete : Mode → (read : List Char) → Char → List Token
  | code, read, c =>
      if isWordChar c then []
      else Token.ofWord read ++ if c = '\'' ∨ c.isWhitespace then [] else [.symbol c]
  | literal, read, c => if c = '\'' then [.literal (String.ofList read)] else []
  | escape, _, _ => []

/-- The characters of a token that is not complete with a character. -/
def keep : Mode → List Char → Char → List Char
  | code, read, c => if isWordChar c then read ++ [c] else []
  | literal, read, c => if c = '\'' then [] else read ++ [c]
  | escape, read, c => read ++ [c]

/-- The tokens that are complete where code ends. -/
def finish : Mode → List Char → List Token
  | code, read => Token.ofWord read
  | _, _ => []

end Mode

/-- The tokens of code behind the given characters of a token. -/
def tokensFrom : Mode → List Char → List Char → List Token
  | mode, read, [] => mode.finish read
  | mode, read, c :: cs =>
      mode.complete read c ++ tokensFrom (mode.next c) (mode.keep read c) cs

/-- The tokens of code. -/
def tokens (cs : List Char) : List Token := tokensFrom .code [] cs

@[simp] theorem tokens_nil : tokens [] = [] := rfl

example : tokens "f_1('it\\'s', [2])".toList =
    [.word "f_1", .symbol '(', .literal "it\\'s", .symbol ',', .symbol '[', .word "2", .symbol ']',
      .symbol ')'] := by decide +kernel

/-! ### Code set one after the other -/

section

variable {a b : List Char} {c : Char}

/-- Code in front of a character that stands in no word. -/
theorem tokensFrom_append_cons {mode : Mode} (read : List Char) (ha : mode.after a = .code)
    (hc : isWordChar c = false) :
    tokensFrom mode read (a ++ c :: b) = tokensFrom mode read a ++ tokens (c :: b) := by
  induction a generalizing mode read with
  | nil =>
      obtain rfl : mode = .code := ha
      simp [tokens, tokensFrom, Mode.complete, Mode.keep, Mode.finish, Token.ofWord, hc]
  | cons d a ih =>
      rw [List.cons_append, tokensFrom, tokensFrom, ih _ ha, List.append_assoc]

theorem tokens_append_cons (ha : Mode.code.after a = .code) (hc : isWordChar c = false) :
    tokens (a ++ c :: b) = tokens a ++ tokens (c :: b) := tokensFrom_append_cons [] ha hc

/-- A character that stands for itself. -/
theorem tokens_cons (hc : isWordChar c = false) (hquote : c ≠ '\'')
    (hblank : c.isWhitespace = false) (cs : List Char) : tokens (c :: cs) = .symbol c :: tokens cs := by
  simp [tokens, tokensFrom, Mode.complete, Mode.keep, Mode.next, Token.ofWord, hc, hquote, hblank]

/-- Code on both sides of a character that stands for itself. -/
theorem tokens_around (ha : Mode.code.after a = .code) (hc : isWordChar c = false)
    (hquote : c ≠ '\'') (hblank : c.isWhitespace = false) :
    tokens (a ++ c :: b) = tokens a ++ .symbol c :: tokens b := by
  rw [tokens_append_cons ha hc, tokens_cons hc hquote hblank]

/-- Blanks are no tokens. -/
theorem tokens_blanks (n : Nat) (cs : List Char) :
    tokens (List.replicate n ' ' ++ cs) = tokens cs := by
  induction n with
  | zero => rfl
  | succ n ih => exact ih

theorem tokens_newLine (n : Nat) (cs : List Char) : tokens (newLine n ++ cs) = tokens cs :=
  tokens_blanks n cs

/-- What leaves nothing behind when it is masked is kept until the literal ends. -/
theorem tokensFrom_append_of_masked {mode : Mode} {body : List Char} (read cs : List Char)
    (hmode : mode ≠ .code) (h : maskFrom mode body = []) :
    tokensFrom mode read (body ++ cs) = tokensFrom (mode.after body) (read ++ body) cs := by
  induction body generalizing mode read with
  | nil => rw [List.append_nil]; rfl
  | cons d body ih =>
      have hkept : mode.keeps d = false := by
        by_contra hkeeps
        rw [maskFrom, if_pos (by simpa using hkeeps)] at h
        cases h
      have hnext : mode.next d ≠ .code ∧ mode.complete read d = [] ∧
          mode.keep read d = read ++ [d] := by
        cases mode with
        | code => exact absurd rfl hmode
        | literal =>
            have hquote : d ≠ '\'' := by simpa [Mode.keeps] using hkept
            refine ⟨?_, if_neg hquote, if_neg hquote⟩
            by_cases hslash : d = '\\' <;> simp [Mode.next, hslash, hquote]
        | escape => exact ⟨by simp [Mode.next], rfl, rfl⟩
      rw [maskFrom, hkept] at h
      rw [List.cons_append, tokensFrom, hnext.2.1, hnext.2.2, List.nil_append, ih _ hnext.1 h,
        List.append_assoc]
      rfl

/-- A quoted text is a token of its own. -/
theorem tokens_quote_append (s : String) (cs : List Char) :
    tokens (quote s ++ cs) = .quoted s :: tokens cs := by
  have hbody := Inside.flatMap inside_escape s.toList
  have hmode : Mode.literal ≠ .code := by decide
  have hread := tokensFrom_append_of_masked [] ('\'' :: cs) hmode hbody.masked
  rw [hbody.after, List.nil_append] at hread
  have hquote : quote s ++ cs = '\'' :: (s.toList.flatMap escape ++ '\'' :: cs) := by simp [quote]
  rw [hquote, tokens, tokensFrom]
  change tokensFrom .literal [] _ = _
  rw [hread]
  rfl

end

/-! ### Expressions -/

section

variable {c : Char}

theorem tokens_append_of_isWhole {code : String} (h : isWhole code) (hc : isWordChar c = false)
    (cs : List Char) : tokens (code.toList ++ c :: cs) = tokens code.toList ++ tokens (c :: cs) :=
  tokens_append_cons (isWhole_iff.mp h).1 hc

theorem tokens_writePieces_append {pieces : List Piece} (h : pieces.all Piece.isWhole)
    (hc : isWordChar c = false) (cs : List Char) :
    tokens (writePieces pieces ++ c :: cs) = tokens (writePieces pieces) ++ tokens (c :: cs) :=
  tokens_append_cons (alike_writePieces h).left hc

end

namespace Expr

mutual

/-- The tokens of an expression. -/
def tokens : Expr → List Token
  | .inline pieces => Dart.tokens (writePieces pieces)
  | .closure statements =>
      .symbol '(' :: .symbol ')' :: .symbol '\x7b' ::
        statements.flatMap (fun s => Dart.tokens (writePieces s) ++ [.symbol ';']) ++
        [.symbol '\x7d']
  | .named label value => Dart.tokens label.toList ++ .symbol ':' :: tokens value
  | .call head args => Dart.tokens head.toList ++ .symbol '(' :: lineTokens args ++ [.symbol ')']
  | .list items => .symbol '[' :: lineTokens items ++ [.symbol ']']

/-- The tokens of expressions with a comma behind each. -/
def lineTokens : List Expr → List Token
  | [] => []
  | e :: rest => tokens e ++ .symbol ',' :: lineTokens rest

end

@[simp] theorem tokens_code (text : String) : (code text).tokens = Dart.tokens text.toList := by
  simp [code, tokens, writePieces, Piece.write]

theorem lineTokens_eq_flatMap (es : List Expr) :
    lineTokens es = es.flatMap fun e => e.tokens ++ [.symbol ','] := by
  induction es with
  | nil => rfl
  | cons e es ih => rw [lineTokens, ih, List.flatMap_cons, List.append_assoc, List.singleton_append]

theorem lineTokens_append (a b : List Expr) :
    lineTokens (a ++ b) = lineTokens a ++ lineTokens b := by
  simp only [lineTokens_eq_flatMap, List.flatMap_append]

theorem tokens_statements {statements : List (List Piece)}
    (h : statements.all (·.all Piece.isWhole)) (n : Nat) (cs : List Char) :
    Dart.tokens (statements.flatMap (fun s => newLine n ++ writePieces s ++ [';']) ++ cs) =
      statements.flatMap (fun s => Dart.tokens (writePieces s) ++ [.symbol ';']) ++
        Dart.tokens cs := by
  induction statements with
  | nil => rfl
  | cons s rest ih =>
      rw [List.all_cons, Bool.and_eq_true] at h
      have hrest := ih h.2
      simp only [List.flatMap_cons, List.append_assoc, tokens_newLine, List.cons_append] at hrest ⊢
      rw [tokens_writePieces_append h.1 (by decide), ← hrest]
      rfl

mutual

/-- The tokens of what is written from an expression, wherever its lines start. -/
theorem tokens_write : (e : Expr) → e.isWhole → (n : Nat) → Dart.tokens (e.write n) = e.tokens
  | .inline _, _, _ => rfl
  | .closure statements, h, n => by
      rw [isWhole] at h
      -- The lines of a closure are words in turn; breaks and margins are between words.
      have hlines := tokens_statements h (n + 2) (newLine n ++ ['\x7d'])
      rw [tokens_newLine, tokens_cons (by decide) (by decide) (by decide)] at hlines
      have hbody (cs : List Char) : Dart.tokens ('(' :: ')' :: ' ' :: '\x7b' :: cs) =
          .symbol '(' :: .symbol ')' :: .symbol '\x7b' :: Dart.tokens cs := rfl
      simp only [List.append_assoc] at hlines
      simp only [write, tokens, List.cons_append, List.append_assoc, hbody, hlines]
      rfl
  | .named label value, h, n => by
      rw [isWhole, Bool.and_eq_true] at h
      rw [write, tokens, tokens_append_of_isWhole h.1 (by decide), ← tokens_write value h.2 n]
      rfl
  | .call head [], h, n => by
      rw [isWhole, Bool.and_eq_true] at h
      rw [write, tokens, tokens_append_of_isWhole h.1 (by decide), List.append_assoc]
      rfl
  -- The head is known to end before the parenthesis, so the words before and after it are read
  -- apart.
  | .call head (arg :: args), h, n => by
      rw [isWhole, Bool.and_eq_true] at h
      have hlines := tokens_writeLines (arg :: args) h.2 (n + 2) (newLine n ++ [')'])
      rw [tokens_newLine] at hlines
      simp only [write, tokens, List.cons_append, List.append_assoc]
      rw [tokens_append_of_isWhole h.1 (by decide), tokens_cons (by decide) (by decide) (by decide),
        hlines]
      rfl
  | .list [], _, _ => rfl
  | .list (item :: items), h, n => by
      rw [isWhole] at h
      have hlines := tokens_writeLines (item :: items) h (n + 2) (newLine n ++ [']'])
      rw [tokens_newLine] at hlines
      simp only [write, tokens, List.cons_append, List.append_assoc]
      rw [tokens_cons (by decide) (by decide) (by decide), hlines]
      rfl

/-- The tokens of what is written from expressions below each other. -/
theorem tokens_writeLines : (es : List Expr) → areWhole es → (n : Nat) → (cs : List Char) →
    Dart.tokens (writeLines n es ++ cs) = lineTokens es ++ Dart.tokens cs
  | [], _, _, _ => rfl
  | e :: rest, h, n, cs => by
      rw [areWhole, Bool.and_eq_true] at h
      have hrest := tokens_writeLines rest h.2 n cs
      rw [writeLines, lineTokens, List.append_assoc, List.append_assoc, tokens_newLine,
        List.cons_append, tokens_append_cons (alike_write e h.1 n).left (by decide),
        tokens_write e h.1 n, List.append_assoc, List.cons_append, ← hrest]
      rfl

end

theorem tokens_text {e : Expr} (h : e.isWhole) : Dart.tokens e.text.toList = e.tokens := by
  rw [text, String.toList_ofList, tokens_write e h]

end Expr

end Wireframe.Dart
