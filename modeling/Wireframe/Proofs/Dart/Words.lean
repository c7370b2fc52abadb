/-
What occurs in code.

Words and symbols occur in the raw code of an expression and literals in its texts.  So a word does
not occur in an expression whose raw code lacks one of its characters, whatever the texts are, and
where raw code has no quotes the literals are those of the texts alone.

* `mem_of_word_mem_tokens`, `mem_of_symbol_mem_tokens` — what stands outside of literals;
* `isFree`, `Expr.avoids` — raw code that lacks a character;
* `Expr.word_not_mem_tokens` — words that do not occur;
* `Expr.texts`, `Expr.texts_tokens` — the texts of an expression are what its literals say.
-/
import Wireframe.Proofs.Dart.RawCode
import Wireframe.Proofs.Dart.Tokens

namespace Wireframe.Dart

/-! ### Words -/

theorem toList_of_mem_ofWord {letters : List Char} {name : String}
    (h : Token.word name ∈ Token.ofWord letters) : name.toList = letters := by
  unfold Token.ofWord at h
  split_ifs at h
  · cases h
  · rw [Token.word.inj (List.mem_singleton.mp h), String.toList_ofList]

theorem toList_of_mem_complete {mode : Mode} {read : List Char} {c : Char} {name : String}
    (h : Token.word name ∈ mode.complete read c) : mode = .code ∧ name.toList = read := by
  cases mode with
  | code =>
      dsimp only [Mode.complete] at h
      split_ifs at h
      · cases h
      · rw [List.append_nil] at h
        exact ⟨rfl, toList_of_mem_ofWord h⟩
      · rcases List.mem_append.mp h with h | h
        · exact ⟨rfl, toList_of_mem_ofWord h⟩
        · cases List.mem_singleton.mp h
  | literal =>
      dsimp only [Mode.complete] at h
      split_ifs at h
      · cases List.mem_singleton.mp h
      · cases h
  | escape => cases h

/-- Letters and digits go on as one word. -/
theorem tokensFrom_code_of_isWordChar {cs : List Char} (h : ∀ c ∈ cs, isWordChar c)
    (read : List Char) : tokensFrom .code read cs = Token.ofWord (read ++ cs) := by
  induction cs generalizing read with
  | nil => rw [List.append_nil]; rfl
  | cons c cs ih =>
      obtain ⟨hc, hcs⟩ := List.forall_mem_cons.mp h
      have hnext : Mode.code.next c = .code := by
        refine if_neg ?_
        rintro rfl
        revert hc
        decide
      have hkeep : Mode.code.keep read c = read ++ [c] := if_pos hc
      have hcomplete : Mode.code.complete read c = [] := if_pos hc
      rw [tokensFrom, hnext, hkeep, hcomplete, List.nil_append, ih hcs, List.append_assoc]
      rfl

/-- A number without sign and point is a word. -/
theorem tokens_toString (n : Nat) : tokens (toString n).toList = [.word (toString n)] := by
  have hdigits : (toString n).toList = Nat.toDigits 10 n := Nat.toList_repr
  have hword : ∀ c ∈ (toString n).toList, isWordChar c := by
    intro c hc
    rw [hdigits] at hc
    have hdigit := Nat.isDigit_of_mem_toDigits (by decide) (by decide) hc
    simp [isWordChar, Char.isAlphanum, hdigit]
  have hne : (toString n).toList ≠ [] := hdigits ▸ Nat.toDigits_ne_nil
  rw [tokens, tokensFrom_code_of_isWordChar hword, List.nil_append, Token.ofWord, if_neg hne,
    String.ofList_toList]

/-- A word goes on in code alone. -/
theorem mem_of_mem_keep {mode : Mode} {read : List Char} {c d : Char} (hnext : mode.next d = .code)
    (h : c ∈ mode.keep read d) : mode = .code ∧ (c ∈ read ∨ c = d) := by
  cases mode with
  | code =>
      dsimp only [Mode.keep] at h
      split_ifs at h
      · exact ⟨rfl, (List.mem_append.mp h).imp_right List.mem_singleton.mp⟩
      · cases h
  | literal =>
      dsimp only [Mode.next] at hnext
      dsimp only [Mode.keep] at h
      split_ifs at hnext h
      cases h
  | escape => cases hnext

theorem mem_of_word_mem_tokensFrom {cs : List Char} {name : String} {c : Char}
    (hc : c ∈ name.toList) {mode : Mode} {read : List Char}
    (h : Token.word name ∈ tokensFrom mode read cs) :
    c ∈ maskFrom mode cs ∨ mode = .code ∧ c ∈ read := by
  induction cs generalizing mode read with
  | nil =>
      cases mode with
      | code => exact .inr ⟨rfl, toList_of_mem_ofWord h ▸ hc⟩
      | literal => cases h
      | escape => cases h
  | cons d cs ih =>
      rw [maskFrom]
      rcases List.mem_append.mp h with h | h
      · obtain ⟨rfl, rfl⟩ := toList_of_mem_complete h
        exact .inr ⟨rfl, hc⟩
      rcases ih h with hmask | ⟨hcode, hkept⟩
      · left
        split_ifs
        · exact List.mem_cons_of_mem d hmask
        · exact hmask
      · obtain ⟨rfl, hread | rfl⟩ := mem_of_mem_keep hcode hkept
        · exact .inr ⟨rfl, hread⟩
        · exact .inl List.mem_cons_self

/-- The characters of a word stand outside of literals. -/
theorem mem_of_word_mem_tokens {cs : List Char} {name : String} (h : Token.word name ∈ tokens cs)
    {c : Char} (hc : c ∈ name.toList) : c ∈ maskFrom .code cs :=
  (mem_of_word_mem_tokensFrom hc h).resolve_right fun hread => List.not_mem_nil hread.2

/-- A symbol stands outside of literals. -/
theorem mem_of_symbol_mem_tokensFrom {cs : List Char} {c : Char} {mode : Mode} {read : List Char}
    (h : Token.symbol c ∈ tokensFrom mode read cs) : c ∈ maskFrom mode cs := by
  -- A word that is finished is no symbol.
  have hword (letters : List Char) : Token.symbol c ∉ Token.ofWord letters := by
    unfold Token.ofWord
    split_ifs <;> simp
  induction cs generalizing mode read with
  | nil =>
      cases mode with
      | code => exact absurd h (hword read)
      | literal => cases h
      | escape => cases h
  -- A symbol comes from the first letter, which is code, or from the letters after it.
  | cons d cs ih =>
      rw [maskFrom]
      rcases List.mem_append.mp h with h | h
      · cases mode with
        | code =>
            dsimp only [Mode.complete] at h
            split_ifs at h
            · cases h
            · rw [List.append_nil] at h
              exact absurd h (hword read)
            · rcases List.mem_append.mp h with h | h
              · exact absurd h (hword read)
              · rw [Token.symbol.inj (List.mem_singleton.mp h)]
                exact List.mem_cons_self
        | literal =>
            dsimp only [Mode.complete] at h
            split_ifs at h
            · cases List.mem_singleton.mp h
            · cases h
        | escape => cases h
      · split_ifs
        · exact List.mem_cons_of_mem d (ih h)
        · exact ih h

theorem mem_of_symbol_mem_tokens {cs : List Char} {c : Char} (h : Token.symbol c ∈ tokens cs) :
    c ∈ maskFrom .code cs := mem_of_symbol_mem_tokensFrom h

/-! ### Words that do not occur -/

/-- The character does not occur in raw code. -/
def isFree (c : Char) (code : String) : Bool := !code.toList.contains c

section

variable {c : Char}

theorem isFree_iff {code : String} : isFree c code ↔ c ∉ code.toList := by simp [isFree]

/-- Raw code is checked character by character. -/
theorem isFree_ofList {cs : List Char} (h : (!cs.contains c) = true) :
    isFree c (String.ofList cs) := by
  rwa [isFree, String.toList_ofList]

/-- For a simplifier that checks what is given. -/
theorem isFree_given {code : String} (h : isFree c code) : isFree c code := h

@[simp] theorem isFree_append (a b : String) :
    isFree c (a ++ b) = (isFree c a && isFree c b) := by
  simp [isFree, String.toList_append]

theorem isFree_intercalate {separator : String} {parts : List String} (hs : isFree c separator)
    (h : ∀ part ∈ parts, isFree c part) : isFree c (String.intercalate separator parts) := by
  refine intercalate_of_append (P := fun code => isFree c code) rfl (fun ha hb => ?_) hs h
  rw [isFree_append, ha, hb]
  rfl

theorem isFree_of_isNumeral {code : String} (hc : isNumeral c = false)
    (h : IsNumeral code.toList) : isFree c code :=
  isFree_iff.mpr fun hmem => absurd (isNumeral_iff.mp h c hmem) (by simp [hc])

end

/-- The character does not occur in the raw code of the piece. -/
@[simp] def Piece.avoids (c : Char) : Piece → Bool
  | raw code => isFree c code
  | quoted _ => true

namespace Expr

mutual

/-- The character does not occur in the raw code of the expression. -/
@[simp] def avoids (c : Char) : Expr → Bool
  | .inline pieces => pieces.all (Piece.avoids c)
  | .closure statements => statements.all (·.all (Piece.avoids c))
  | .named label value => isFree c label && avoids c value
  | .call head args => isFree c head && allAvoid c args
  | .list items => allAvoid c items

/-- The character does not occur in the raw code of the expressions. -/
@[simp] def allAvoid (c : Char) : List Expr → Bool
  | [] => true
  | e :: rest => avoids c e && allAvoid c rest

end

@[simp] theorem allAvoid_append (c : Char) (a b : List Expr) :
    allAvoid c (a ++ b) = (allAvoid c a && allAvoid c b) := by
  induction a with
  | nil => rfl
  | cons e a ih => rw [List.cons_append, allAvoid, allAvoid, ih, Bool.and_assoc]

theorem allAvoid_iff {c : Char} {es : List Expr} : allAvoid c es ↔ ∀ e ∈ es, e.avoids c := by
  induction es with
  | nil => simp [allAvoid]
  | cons e es ih => simp [allAvoid, ih]

@[simp] theorem avoids_code (c : Char) (text : String) : (code text).avoids c = isFree c text := by
  simp [code]

@[simp] theorem avoids_literal (c : Char) (text : String) : (literal text).avoids c := by
  simp [literal]

end Expr

/-- Masking takes characters away. -/
theorem maskFrom_sublist (mode : Mode) (cs : List Char) : (maskFrom mode cs).Sublist cs := by
  induction cs generalizing mode with
  | nil => exact .slnil
  | cons c cs ih =>
      rw [maskFrom]
      split
      · exact (ih _).cons_cons c
      · exact (ih _).cons c

section

variable {c : Char} {name : String}

theorem word_not_mem_of_isFree {code : String} (hc : c ∈ name.toList) (h : isFree c code) :
    .word name ∉ tokens code.toList := fun hmem =>
  isFree_iff.mp h ((maskFrom_sublist _ _).subset (mem_of_word_mem_tokens hmem hc))

theorem symbol_not_mem_of_isFree {code : String} (h : isFree c code) :
    .symbol c ∉ tokens code.toList := fun hmem =>
  isFree_iff.mp h ((maskFrom_sublist _ _).subset (mem_of_symbol_mem_tokens hmem))

theorem not_mem_maskFrom_writePieces (hquote : c ≠ '\'') {pieces : List Piece}
    (hwhole : pieces.all Piece.isWhole) (h : pieces.all (Piece.avoids c)) :
    c ∉ maskFrom .code (writePieces pieces) := by
  induction pieces with
  | nil => exact List.not_mem_nil
  | cons piece rest ih =>
      rw [List.all_cons, Bool.and_eq_true] at hwhole h
      have hpiece := Piece.alike_write hwhole.1
      rw [writePieces, List.flatMap_cons, maskFrom_append, hpiece.left, List.mem_append, not_or]
      refine ⟨?_, ih hwhole.2 h.2⟩
      cases piece with
      | raw code => exact fun hmem => isFree_iff.mp h.1 ((maskFrom_sublist _ _).subset hmem)
      | quoted text =>
          rw [Piece.write, maskFrom_quote]
          simpa using hquote

theorem word_not_mem_tokens_writePieces (hquote : c ≠ '\'') (hc : c ∈ name.toList)
    {pieces : List Piece} (hwhole : pieces.all Piece.isWhole) (h : pieces.all (Piece.avoids c)) :
    .word name ∉ tokens (writePieces pieces) := fun hmem =>
  not_mem_maskFrom_writePieces hquote hwhole h (mem_of_word_mem_tokens hmem hc)

namespace Expr

mutual

/-- A word does not occur in an expression whose raw code lacks a character of it. -/
theorem word_not_mem_tokens (hquote : c ≠ '\'') (hc : c ∈ name.toList) :
    (e : Expr) → e.isWhole → e.avoids c → .word name ∉ e.tokens
  | .inline _, hwhole, h => by
      rw [isWhole] at hwhole
      rw [avoids] at h
      exact word_not_mem_tokens_writePieces hquote hc hwhole h
  | .closure statements, hwhole, h => by
      rw [isWhole, List.all_eq_true] at hwhole
      rw [avoids, List.all_eq_true] at h
      have hlines : .word name ∉
          statements.flatMap fun s => Dart.tokens (writePieces s) ++ [.symbol ';'] := by
        -- Words do not reach across lines, as each line ends with a semicolon.
        intro hmem
        obtain ⟨s, hs, hmem⟩ := List.mem_flatMap.mp hmem
        rcases List.mem_append.mp hmem with hmem | hmem
        · exact word_not_mem_tokens_writePieces hquote hc (hwhole s hs) (h s hs) hmem
        · cases List.mem_singleton.mp hmem
      simpa [tokens] using hlines
  -- A call, a label or a list adds words of its own, none of which has the letter.
  | .named _ value, hwhole, h => by
      rw [isWhole, Bool.and_eq_true] at hwhole
      rw [avoids, Bool.and_eq_true] at h
      have hlabel := word_not_mem_of_isFree hc h.1
      have hvalue := word_not_mem_tokens hquote hc value hwhole.2 h.2
      simpa [tokens] using ⟨hlabel, hvalue⟩
  | .call _ args, hwhole, h => by
      rw [isWhole, Bool.and_eq_true] at hwhole
      rw [avoids, Bool.and_eq_true] at h
      have hhead := word_not_mem_of_isFree hc h.1
      have hargs := word_not_mem_lineTokens hquote hc args hwhole.2 h.2
      simpa [tokens] using ⟨hhead, hargs⟩
  | .list items, hwhole, h => by
      rw [isWhole] at hwhole
      rw [avoids] at h
      have hitems := word_not_mem_lineTokens hquote hc items hwhole h
      simpa [tokens] using hitems

theorem word_not_mem_lineTokens (hquote : c ≠ '\'') (hc : c ∈ name.toList) :
    (es : List Expr) → areWhole es → allAvoid c es → .word name ∉ lineTokens es
  | [], _, _ => List.not_mem_nil
  | e :: rest, hwhole, h => by
      rw [areWhole, Bool.and_eq_true] at hwhole
      rw [allAvoid, Bool.and_eq_true] at h
      have he := word_not_mem_tokens hquote hc e hwhole.1 h.1
      have hrest := word_not_mem_lineTokens hquote hc rest hwhole.2 h.2
      simpa [lineTokens] using ⟨he, hrest⟩

end

end Expr

end

/-! ### Texts -/

@[simp] theorem texts_append (ts us : List Token) : texts (ts ++ us) = texts ts ++ texts us :=
  List.filterMap_append

@[simp] theorem texts_symbol (c : Char) (ts : List Token) :
    texts (.symbol c :: ts) = texts ts := rfl

@[simp] theorem texts_nil : texts [] = [] := rfl

theorem texts_quoted (s : String) (ts : List Token) :
    texts (.quoted s :: ts) = s :: texts ts :=
  List.filterMap_cons_some (Token.text?_quoted s)

theorem texts_ofWord (letters : List Char) : texts (Token.ofWord letters) = [] := by
  unfold Token.ofWord
  split_ifs <;> rfl

theorem texts_complete (read : List Char) (c : Char) : texts (Mode.code.complete read c) = [] := by
  dsimp only [Mode.complete]
  split_ifs <;> simp [texts_ofWord]

/-- The characters of a word that has been begun say nothing. -/
theorem texts_tokensFrom_code (read cs : List Char) :
    texts (tokensFrom .code read cs) = texts (tokens cs) := by
  induction cs generalizing read with
  | nil => exact texts_ofWord read
  | cons c cs ih =>
      rw [tokens, tokensFrom, tokensFrom, texts_append, texts_append, texts_complete,
        texts_complete]
      by_cases hc : isWordChar c
      · have hnext : Mode.code.next c = .code := by
          refine if_neg ?_
          rintro rfl
          revert hc
          decide
        rw [hnext, ih, ih]
      · have hkeep (read : List Char) : Mode.code.keep read c = [] := if_neg hc
        rw [hkeep, hkeep]

/-- Code without a quote says nothing. -/
theorem texts_tokens_append {a : List Char} (h : '\'' ∉ a) (b : List Char) :
    texts (tokens (a ++ b)) = texts (tokens b) := by
  induction a with
  | nil => rfl
  | cons c a ih =>
      obtain ⟨hc, ha⟩ := not_or.mp (List.mem_cons.not.mp h)
      have hnext : Mode.code.next c = .code := if_neg fun e => hc e.symm
      rw [List.cons_append, tokens, tokensFrom, texts_append, texts_complete, hnext,
        texts_tokensFrom_code, ih ha, List.nil_append]

/-- What the piece says. -/
@[simp] def Piece.texts : Piece → List String
  | raw _ => []
  | quoted text => [text]

theorem texts_tokens_writePieces {pieces : List Piece} (h : pieces.all (Piece.avoids '\'')) :
    texts (tokens (writePieces pieces)) = pieces.flatMap Piece.texts := by
  induction pieces with
  | nil => rfl
  | cons piece rest ih =>
      rw [List.all_cons, Bool.and_eq_true] at h
      have hrest := ih h.2
      rw [writePieces] at hrest
      rw [writePieces, List.flatMap_cons, List.flatMap_cons, ← hrest]
      cases piece with
      | raw code => exact texts_tokens_append (isFree_iff.mp h.1) _
      | quoted text => rw [Piece.write, tokens_quote_append, texts_quoted]; rfl

theorem texts_tokens_of_isFree {code : String} (h : isFree '\'' code) :
    texts (tokens code.toList) = [] := by
  have hcode := texts_tokens_append (isFree_iff.mp h) []
  rwa [List.append_nil] at hcode

namespace Expr

mutual

/-- What the texts of the expression are. -/
@[simp] def texts : Expr → List String
  | .inline pieces => pieces.flatMap Piece.texts
  | .closure statements => statements.flatMap (·.flatMap Piece.texts)
  | .named _ value => texts value
  | .call _ args => textsAll args
  | .list items => textsAll items

/-- What the texts of the expressions are. -/
@[simp] def textsAll : List Expr → List String
  | [] => []
  | e :: rest => texts e ++ textsAll rest

end

mutual

/-- The literals of an expression say what its texts are. -/
theorem texts_tokens : (e : Expr) → e.avoids '\'' → Dart.texts e.tokens = e.texts
  | .inline _, h => texts_tokens_writePieces h
  | .closure statements, h => by
      rw [avoids, List.all_eq_true] at h
      -- The texts of a closure are those of its lines, in order.
      have hlines : Dart.texts
          (statements.flatMap fun s => Dart.tokens (writePieces s) ++ [.symbol ';']) =
            statements.flatMap (·.flatMap Piece.texts) := by
        induction statements with
        | nil => rfl
        | cons s rest ih =>
            rw [List.flatMap_cons, texts_append, texts_append,
              texts_tokens_writePieces (h s List.mem_cons_self),
              ih fun s' hs' => h s' (List.mem_cons_of_mem s hs')]
            simp
      simpa [tokens] using hlines
  | .named _ value, h => by
      rw [avoids, Bool.and_eq_true] at h
      simp [tokens, texts_tokens_of_isFree h.1, texts_tokens value h.2]
  | .call _ args, h => by
      rw [avoids, Bool.and_eq_true] at h
      simp [tokens, texts_tokens_of_isFree h.1, texts_lineTokens args h.2]
  | .list items, h => by
      rw [avoids] at h
      simp [tokens, texts_lineTokens items h]

theorem texts_lineTokens : (es : List Expr) → allAvoid '\'' es →
    Dart.texts (lineTokens es) = textsAll es
  | [], _ => rfl
  | e :: rest, h => by
      rw [allAvoid, Bool.and_eq_true] at h
      simp [lineTokens, texts_tokens e h.1, texts_lineTokens rest h.2]

end

end Expr

end Wireframe.Dart
