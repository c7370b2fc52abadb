/-
Code that closes what it opens.

Calls, lists and groups write their brackets in pairs.  So what is written from a tree is balanced if
every line of raw code in it closes the literals and the brackets that it opens itself, whatever
texts stand between its pieces.

* `isClosed` — raw code that closes what it opens, and trees of nothing else;
* `isClosed_append`, `isClosed_insert` — raw code beside and inside of other raw code;
* `Expr.isWhole_of_isClosed`, `Outline.isWhole_of_isClosed` — such trees leave no literal open;
* `Closed`, `Expr.closed_write`, `Outline.closed_write` — what is written from them.
-/
import Wireframe.Proofs.Dart.Nesting

namespace Wireframe.Dart

/-! ### Raw code -/

/-- Raw code on one line that closes the literals and the brackets that it opens. -/
def isClosed (code : String) : Bool :=
  isWhole code && decide (Nested (maskFrom .code code.toList))

theorem isClosed_iff {code : String} :
    isClosed code ↔ isWhole code ∧ Nested (maskFrom .code code.toList) := by
  simp [isClosed]

theorem isWhole_of_isClosed {code : String} (h : isClosed code) : isWhole code :=
  (isClosed_iff.mp h).1

/-- Raw code is checked character by character. -/
theorem isClosed_ofList {cs : List Char}
    (h : (Mode.code.after cs == .code && cs.all (!Text.isControl ·) &&
      decide (Nested (maskFrom .code cs))) = true) : isClosed (String.ofList cs) := by
  rwa [isClosed, isWhole, String.toList_ofList]

/-- For a simplifier that checks what is given. -/
theorem isClosed_given {code : String} (h : isClosed code) : isClosed code := h

theorem maskFrom_append_of_isWhole {a : String} (h : isWhole a) (cs : List Char) :
    maskFrom .code (a.toList ++ cs) = maskFrom .code a.toList ++ maskFrom .code cs := by
  rw [maskFrom_append, (isWhole_iff.mp h).1]

@[simp] theorem isClosed_append {a b : String} (ha : isClosed a) (hb : isClosed b) :
    isClosed (a ++ b) := by
  rw [isClosed_iff] at *
  refine ⟨isWhole_append ha.1 hb.1, ?_⟩
  rw [String.toList_append, maskFrom_append_of_isWhole ha.1]
  exact ha.2.append hb.2

/-- Two pieces of raw code that close together what they open, with no literal open between them. -/
def closeTogether (a c : List Char) : Bool :=
  Mode.code.after a == .code && Mode.code.after c == .code && a.all (!Text.isControl ·) &&
    c.all (!Text.isControl ·) && decide (Nested (maskFrom .code a ++ maskFrom .code c))

theorem closeTogether_iff {a c : List Char} : closeTogether a c ↔
    isWhole (String.ofList a) ∧ isWhole (String.ofList c) ∧
      Nested (maskFrom .code a ++ maskFrom .code c) := by
  simp only [closeTogether, isWhole, String.toList_ofList, Bool.and_eq_true, decide_eq_true_eq]
  tauto

/-- Raw code that closes what it opens between two pieces that do so together. -/
theorem isClosed_around {a c : List Char} {b : String} (h : closeTogether a c = true)
    (hb : isClosed b) : isClosed (String.ofList a ++ b ++ String.ofList c) := by
  obtain ⟨ha, hc, hnested⟩ := closeTogether_iff.mp h
  rw [isClosed_iff] at hb ⊢
  have hab := isWhole_append ha hb.1
  refine ⟨isWhole_append hab hc, ?_⟩
  rw [String.toList_append, maskFrom_append_of_isWhole hab, String.toList_append,
    maskFrom_append_of_isWhole ha, String.toList_ofList, String.toList_ofList]
  exact hnested.insert hb.2

/-- A character that opens and closes nothing and is no control character. -/
def isInert (c : Char) : Bool := isPlain c && !Bracket.isBracket c

theorem maskFrom_code {cs : List Char} (h : '\'' ∉ cs) : maskFrom .code cs = cs := by
  induction cs with
  | nil => rfl
  | cons c cs ih =>
      obtain ⟨hc, hcs⟩ := not_or.mp (List.mem_cons.not.mp h)
      have hnext : Mode.code.next c = .code := if_neg fun e => hc e.symm
      rw [maskFrom, hnext, ih hcs]
      rfl

theorem isClosed_of_isInert {code : String} (h : ∀ c ∈ code.toList, isInert c) :
    isClosed code := by
  have hinert : ∀ c ∈ code.toList, isPlain c ∧ Bracket.isBracket c = false := by
    intro c hc
    simpa [isInert] using h c hc
  have hquote : '\'' ∉ code.toList := by
    intro hmem
    exact absurd (hinert _ hmem).1 (by decide)
  refine isClosed_iff.mpr ⟨isWhole_of_isPlain fun c hc => (hinert c hc).1, ?_⟩
  rw [maskFrom_code hquote]
  exact .of_other fun c hc => (hinert c hc).2

/-! ### Pieces -/

/-- Pieces of a line that close together what they open. -/
def closes (pieces : List Piece) : Bool :=
  pieces.all Piece.isWhole &&
    decide (Nested (maskFrom .code (writePieces (pieces.map Piece.skeleton))))

theorem all_isWhole_of_closes {pieces : List Piece} (h : closes pieces) :
    pieces.all Piece.isWhole := by
  rw [closes, Bool.and_eq_true] at h
  exact h.1

theorem nested_of_closes {pieces : List Piece} (h : closes pieces) :
    Nested (maskFrom .code (writePieces pieces)) := by
  rw [(alike_writePieces (all_isWhole_of_closes h)).masked]
  rw [closes, Bool.and_eq_true, decide_eq_true_eq] at h
  exact h.2

theorem writePieces_append (a b : List Piece) :
    writePieces (a ++ b) = writePieces a ++ writePieces b := List.flatMap_append

theorem closes_append {a b : List Piece} (ha : closes a) (hb : closes b) : closes (a ++ b) := by
  have halike := alike_writePieces (all_isWhole_of_closes ha)
  simp only [closes, Bool.and_eq_true, decide_eq_true_eq, List.all_append, List.map_append,
    writePieces_append, maskFrom_append, halike.right] at ha hb ⊢
  exact ⟨⟨ha.1, hb.1⟩, ha.2.append hb.2⟩

@[simp] theorem closes_raw (code : String) : closes [.raw code] = isClosed code := by
  simp [closes, isClosed, writePieces, Piece.write]

@[simp] theorem closes_quoted (text : String) : closes [.quoted text] := by
  have h : closes [.quoted ""] := by decide
  exact h

/-- Pieces that close what they open between two pieces of raw code that do so together. -/
theorem closes_around {a c : List Char} {pieces : List Piece} (h : closeTogether a c = true)
    (hp : closes pieces) :
    closes (.raw (String.ofList a) :: pieces ++ [.raw (String.ofList c)]) := by
  obtain ⟨ha, hc, hnested⟩ := closeTogether_iff.mp h
  have hafter := (isWhole_iff.mp ha).1
  have hmiddle := (alike_writePieces (all_isWhole_of_closes hp)).right
  rw [String.toList_ofList] at hafter
  simp only [closes, Bool.and_eq_true, decide_eq_true_eq] at hp ⊢
  refine ⟨by simp [ha, hc, hp.1], ?_⟩
  have hinsert := hnested.insert hp.2
  rw [writePieces] at hinsert hmiddle
  simpa [writePieces, Piece.write, maskFrom_append, hafter, Mode.after_append, hmiddle]
    using hinsert

/-- A text between two pieces of raw code that close together what they open. -/
theorem closes_between {a c : List Char} (h : closeTogether a c = true) (text : String) :
    closes [.raw (String.ofList a), .quoted text, .raw (String.ofList c)] :=
  closes_around h (closes_quoted text)

/-! ### Trees -/

namespace Expr

mutual

/-- All lines of raw code of the expression close what they open. -/
@[simp] def isClosed : Expr → Bool
  | .inline pieces => closes pieces
  | .closure statements => statements.all closes
  | .named label value => Dart.isClosed label && isClosed value
  | .call head args => Dart.isClosed head && areClosed args
  | .list items => areClosed items

/-- All lines of raw code of the expressions close what they open. -/
@[simp] def areClosed : List Expr → Bool
  | [] => true
  | e :: rest => isClosed e && areClosed rest

end

@[simp] theorem isClosed_code (text : String) : (code text).isClosed = Dart.isClosed text := by
  simp [code]

theorem isClosed_code_ofList {cs : List Char}
    (h : (Mode.code.after cs == .code && cs.all (!Text.isControl ·) &&
      decide (Nested (maskFrom .code cs))) = true) : (code (String.ofList cs)).isClosed :=
  (isClosed_code _).trans (isClosed_ofList h)

@[simp] theorem isClosed_literal (text : String) : (literal text).isClosed := by
  simp [literal]

@[simp] theorem areClosed_append (a b : List Expr) :
    areClosed (a ++ b) = (areClosed a && areClosed b) := by
  induction a with
  | nil => rfl
  | cons e a ih => rw [List.cons_append, areClosed, areClosed, ih, Bool.and_assoc]

theorem areClosed_iff {es : List Expr} : areClosed es ↔ ∀ e ∈ es, e.isClosed := by
  induction es with
  | nil => simp [areClosed]
  | cons e es ih => simp [areClosed, ih]

mutual

/-- An expression that closes what it opens leaves no literal open. -/
theorem isWhole_of_isClosed : (e : Expr) → e.isClosed → e.isWhole
  | .inline _, h => by
      rw [isClosed] at h
      exact all_isWhole_of_closes h
  | .closure _, h => by
      rw [isClosed, List.all_eq_true] at h
      rw [isWhole, List.all_eq_true]
      exact fun s hs => all_isWhole_of_closes (h s hs)
  | .named label value, h => by
      rw [isClosed, Bool.and_eq_true] at h
      rw [isWhole, Bool.and_eq_true]
      exact ⟨Dart.isWhole_of_isClosed h.1, isWhole_of_isClosed value h.2⟩
  | .call head args, h => by
      rw [isClosed, Bool.and_eq_true] at h
      rw [isWhole, Bool.and_eq_true]
      exact ⟨Dart.isWhole_of_isClosed h.1, areWhole_of_areClosed args h.2⟩
  | .list items, h => by
      rw [isClosed] at h
      rw [isWhole]
      exact areWhole_of_areClosed items h

/-- Expressions that close what they open leave no literal open. -/
theorem areWhole_of_areClosed : (es : List Expr) → areClosed es → areWhole es
  | [], _ => rfl
  | e :: rest, h => by
      rw [areClosed, Bool.and_eq_true] at h
      rw [areWhole, Bool.and_eq_true]
      exact ⟨isWhole_of_isClosed e h.1, areWhole_of_areClosed rest h.2⟩

end

end Expr

namespace Outline

mutual

/-- All lines of raw code of the outline close what they open. -/
@[simp] def isClosed : Outline → Bool
  | .blank => true
  | .line pieces => closes pieces
  | .item value => value.isClosed
  | .group heads body tail => heads.all (Dart.isClosed ·.1) && areClosed body && Dart.isClosed tail

/-- All lines of raw code of the outlines close what they open. -/
@[simp] def areClosed : List Outline → Bool
  | [] => true
  | outline :: rest => isClosed outline && areClosed rest

end

theorem areClosed_iff {outlines : List Outline} :
    areClosed outlines ↔ ∀ o ∈ outlines, o.isClosed := by
  induction outlines with
  | nil => simp [areClosed]
  | cons o rest ih => simp [areClosed, ih]

@[simp] theorem areClosed_append (a b : List Outline) :
    areClosed (a ++ b) = (areClosed a && areClosed b) := by
  induction a with
  | nil => rfl
  | cons o rest ih => rw [List.cons_append, areClosed, areClosed, ih, Bool.and_assoc]

mutual

/-- An outline that closes what it opens leaves no literal open. -/
theorem isWhole_of_isClosed : (o : Outline) → o.isClosed → o.isWhole
  | .blank, _ => rfl
  | .line _, h => by
      rw [isClosed] at h
      exact all_isWhole_of_closes h
  | .item value, h => by
      rw [isClosed] at h
      exact value.isWhole_of_isClosed h
  | .group heads body tail, h => by
      rw [isClosed, Bool.and_eq_true, Bool.and_eq_true, List.all_eq_true] at h
      obtain ⟨⟨hheads, hbody⟩, htail⟩ := h
      rw [isWhole, Bool.and_eq_true, Bool.and_eq_true, List.all_eq_true]
      exact ⟨⟨fun head hm => Dart.isWhole_of_isClosed (hheads head hm),
        areWhole_of_areClosed body hbody⟩, Dart.isWhole_of_isClosed htail⟩

/-- Outlines that close what they open leave no literal open. -/
theorem areWhole_of_areClosed : (os : List Outline) → areClosed os → areWhole os
  | [], _ => rfl
  | o :: rest, h => by
      rw [areClosed, Bool.and_eq_true] at h
      rw [areWhole, Bool.and_eq_true]
      exact ⟨isWhole_of_isClosed o h.1, areWhole_of_areClosed rest h.2⟩

end

end Outline

/-! ### What is written -/

/-- Characters that leave no literal open, whose brackets match outside of literals, and that hold no
control characters but line feeds. -/
structure Closed (cs : List Char) : Prop where
  after : Mode.code.after cs = .code
  nested : Nested (maskFrom .code cs)
  control : ∀ c ∈ cs, Text.isControl c = true → c = '\n'

namespace Closed

variable {cs es : List Char}

theorem nil : Closed [] := ⟨rfl, .nil, List.forall_mem_nil _⟩

theorem append (hc : Closed cs) (he : Closed es) : Closed (cs ++ es) where
  after := by rw [Mode.after_append, hc.after, he.after]
  nested := by
    rw [maskFrom_append, hc.after]
    exact hc.nested.append he.nested
  control := List.forall_mem_append.mpr ⟨hc.control, he.control⟩

/-- A character that is no quote and no bracket. -/
theorem single {c : Char} (hquote : c ≠ '\'') (hbracket : Bracket.isBracket c = false)
    (hcontrol : Text.isControl c = true → c = '\n') : Closed [c] where
  after := Mode.after_code (by simpa using hquote.symm)
  nested := by
    rw [maskFrom_code (by simpa using hquote.symm)]
    exact .other hbracket .nil
  control := List.forall_mem_singleton.mpr hcontrol

theorem cons {c : Char} (hc : Closed [c]) (h : Closed cs) : Closed (c :: cs) := hc.append h

theorem blank : Closed [' '] := .single (by decide) (by decide) (by decide)

theorem comma : Closed [','] := .single (by decide) (by decide) (by decide)

theorem lineFeed : Closed ['\n'] := .single (by decide) (by decide) (by decide)

/-- Characters between brackets of one pair. -/
theorem wrap (b : Bracket) (h : Closed cs) : Closed (b.opening :: cs ++ [b.closing]) := by
  have hopening : '\'' ∉ [b.opening] := by cases b <;> decide
  have hclosing : '\'' ∉ [b.closing] := by cases b <;> decide
  have hbefore := Mode.after_code hopening
  have hbehind : Mode.code.after (b.opening :: cs) = .code := by
    have hsplit := Mode.after_append .code [b.opening] cs
    rw [hbefore, h.after] at hsplit
    exact hsplit
  refine ⟨?_, ?_, ?_⟩
  · rw [Mode.after_append, hbehind]
    exact Mode.after_code hclosing
  · have hmask := maskFrom_append .code [b.opening] cs
    rw [hbefore, maskFrom_code hopening] at hmask
    rw [maskFrom_append, hbehind, maskFrom_code hclosing]
    rw [List.singleton_append] at hmask
    rw [hmask]
    exact .pair b h.nested .nil
  · rw [List.forall_mem_append, List.forall_mem_cons, List.forall_mem_singleton]
    exact ⟨⟨by cases b <;> decide, h.control⟩, by cases b <;> decide⟩

theorem flatMap {α : Type} {f : α → List Char} {l : List α} (h : ∀ a ∈ l, Closed (f a)) :
    Closed (l.flatMap f) :=
  flatMap_of_append .nil .append h

theorem of_isClosed {code : String} (h : isClosed code) : Closed code.toList := by
  obtain ⟨hwhole, hnested⟩ := isClosed_iff.mp h
  obtain ⟨hafter, hcontrol⟩ := isWhole_iff.mp hwhole
  refine ⟨hafter, hnested, fun c hc hc' => ?_⟩
  rw [hcontrol c hc] at hc'
  cases hc'

theorem writePieces {pieces : List Piece} (h : closes pieces) :
    Closed (Dart.writePieces pieces) := by
  have hwhole := all_isWhole_of_closes h
  refine ⟨(alike_writePieces hwhole).left, nested_of_closes h, fun c hc hc' => ?_⟩
  rw [isControl_of_mem_writePieces hwhole hc] at hc'
  cases hc'

theorem blanks (n : Nat) : Closed (List.replicate n ' ') := by
  induction n with
  | zero => exact .nil
  | succ n ih => exact .cons .blank ih

theorem newLine (n : Nat) : Closed (Dart.newLine n) := .cons .lineFeed (.blanks n)

end Closed

theorem Expr.closed_closure {statements : List (List Piece)} (h : statements.all closes) (n : Nat) :
    Closed ((Expr.closure statements).write n) := by
  have hlines := Closed.flatMap (l := statements)
    (f := fun s => newLine (n + 2) ++ writePieces s ++ [';'])
    fun s hs => ((Closed.newLine (n + 2)).append (.writePieces (List.all_eq_true.mp h s hs))).append
      (.single (by decide) (by decide) (by decide))
  have hbody := (hlines.append (.newLine n)).wrap .curly
  have hhead : Closed ['(', ')', ' '] := (Closed.nil.wrap .round).append .blank
  simp only [Expr.write]
  simpa [Bracket.opening, Bracket.closing] using hhead.append hbody

namespace Expr

mutual

/-- What is written from an expression. -/
theorem closed_write : (e : Expr) → e.isClosed → (n : Nat) → Closed (e.write n)
  | .inline _, h, _ => by
      rw [isClosed] at h
      exact .writePieces h
  | .closure _, h, n => by
      rw [isClosed] at h
      exact closed_closure h n
  | .named label value, h, n => by
      rw [isClosed, Bool.and_eq_true] at h
      -- Between the label and its value stand a colon and a blank, which open nothing.
      have hcolon : Closed [':', ' '] := .cons (.single (by decide) (by decide) (by decide)) .blank
      exact (Closed.of_isClosed h.1).append (hcolon.append (closed_write value h.2 n))
  | .call head [], h, n => by
      rw [isClosed, Bool.and_eq_true] at h
      exact (Closed.of_isClosed h.1).append (Closed.nil.wrap .round)
  -- Arguments stand on lines of their own, and the parenthesis closes on a line after them.
  | .call head (arg :: args), h, n => by
      rw [isClosed, Bool.and_eq_true] at h
      have hlines := closed_writeLines (arg :: args) h.2 (n + 2)
      have hargs := (hlines.append (.newLine n)).wrap .round
      have hcall := (Closed.of_isClosed h.1).append hargs
      simp only [write]
      simpa [Bracket.opening, Bracket.closing] using hcall
  | .list [], _, n => Closed.nil.wrap .square
  | .list (item :: items), h, n => by
      rw [isClosed] at h
      have hlines := closed_writeLines (item :: items) h (n + 2)
      have hitems := (hlines.append (.newLine n)).wrap .square
      simp only [write]
      simpa [Bracket.opening, Bracket.closing] using hitems

/-- What is written from expressions below each other. -/
theorem closed_writeLines : (es : List Expr) → areClosed es → (n : Nat) → Closed (writeLines n es)
  | [], _, _ => .nil
  | e :: rest, h, n => by
      rw [areClosed, Bool.and_eq_true] at h
      simp only [writeLines]
      exact ((Closed.newLine n).append (closed_write e h.1 n)).append
        (.cons .comma (closed_writeLines rest h.2 n))

end

end Expr

namespace Outline

/-- A group closes its brackets in the order in which it does not open them. -/
theorem closed_group {heads : List (String × Bracket)} (h : heads.all (Dart.isClosed ·.1))
    {cs : List Char} (hcs : Closed cs) : Closed (writeHeads heads ++ cs ++ writeClosing heads) := by
  induction heads with
  | nil => simpa [writeHeads, writeClosing] using hcs
  | cons head heads ih =>
      rw [List.all_cons, Bool.and_eq_true] at h
      have hinner := (ih h.2).wrap head.2
      have hgroup := (Closed.of_isClosed h.1).append hinner
      simpa [writeHeads, writeClosing] using hgroup

mutual

/-- What is written from an outline. -/
theorem closed_write : (o : Outline) → o.isClosed → (n : Nat) → Closed (o.write n)
  | .blank, _, _ => .lineFeed
  | .line _, h, n => by
      rw [isClosed] at h
      exact ((Closed.blanks n).append (.writePieces h)).append .lineFeed
  | .item value, h, n => by
      rw [isClosed] at h
      have hend : Closed [',', '\n'] := .cons .comma .lineFeed
      exact ((Closed.blanks n).append (value.closed_write h n)).append hend
  | .group heads body tail, h, n => by
      rw [isClosed, Bool.and_eq_true, Bool.and_eq_true] at h
      obtain ⟨⟨hheads, hbody⟩, htail⟩ := h
      have hlines : Closed ('\n' :: writeAll (n + 2) body ++ margin n) :=
        (Closed.cons .lineFeed (closed_writeAll body hbody (n + 2))).append (.blanks n)
      have hgroup := closed_group hheads hlines
      have hall := (((Closed.blanks n).append hgroup).append (.of_isClosed htail)).append .lineFeed
      simp only [write]
      simpa [margin] using hall

/-- What is written from outlines below each other. -/
theorem closed_writeAll : (os : List Outline) → areClosed os → (n : Nat) → Closed (writeAll n os)
  | [], _, _ => .nil
  | o :: rest, h, n => by
      rw [areClosed, Bool.and_eq_true] at h
      exact (closed_write o h.1 n).append (closed_writeAll rest h.2 n)

end

end Outline

end Wireframe.Dart
