/-
What stands between brackets.

A bracket that is opened encloses the tokens up to the one that closes it, and commas outside of
further brackets separate the entries of what it encloses.  So calls and lists that occur in some
code can be read back from its tokens, and what is read back from a written expression is what the
expression is made of.

* `depth` — how many brackets are open behind some tokens;
* `Level`, `level_tokens` — tokens that leave open what was open, as those of closed code do;
* `Expr.Surrounds` — expressions that hold a list;
* `groups` — what is enclosed by each bracket that is opened behind given tokens;
* `entries` — the entries of what a bracket encloses.
-/
import Wireframe.Proofs.Dart.Closed
import Wireframe.Proofs.Dart.Words

namespace Wireframe.Dart

/-! ### Depth -/

/-- How many brackets are open behind a token, if some were open before it; nothing if it closes one
that is not open. -/
def Token.depth? (n : Nat) : Token → Option Nat
  | .symbol c =>
      if (Bracket.ofOpening? c).isSome then some (n + 1)
      else if (Bracket.ofClosing? c).isSome then
        match n with
        | 0 => none
        | n + 1 => some n
      else some n
  | _ => some n

/-- How many brackets are open behind some tokens. -/
def depth? (n : Nat) (ts : List Token) : Option Nat := ts.foldlM Token.depth? n

/-- Tokens that leave open what was open before them. -/
def Level (ts : List Token) : Prop := ∀ n, depth? n ts = some n

theorem depth?_cons (n : Nat) (t : Token) (ts : List Token) :
    depth? n (t :: ts) = (t.depth? n).bind (depth? · ts) := List.foldlM_cons

theorem depth?_append (n : Nat) (ts us : List Token) :
    depth? n (ts ++ us) = (depth? n ts).bind (depth? · us) := List.foldlM_append

namespace Token

theorem depth?_eq (c : Char) (n : Nat) :
    (symbol c).depth? n =
      if (Bracket.ofOpening? c).isSome then some (n + 1)
      else if (Bracket.ofClosing? c).isSome then
        match n with
        | 0 => none
        | n + 1 => some n
      else some n := rfl

@[simp] theorem depth?_opening (b : Bracket) (n : Nat) :
    (symbol b.opening).depth? n = some (n + 1) := by
  rw [depth?_eq, Bracket.ofOpening?_opening]
  rfl

@[simp] theorem depth?_closing (b : Bracket) (n : Nat) :
    (symbol b.closing).depth? (n + 1) = some n := by
  rw [depth?_eq, Bracket.ofOpening?_closing, Bracket.ofClosing?_closing]
  rfl

theorem depth?_closing_zero (b : Bracket) : (symbol b.closing).depth? 0 = none := by
  rw [depth?_eq, Bracket.ofOpening?_closing, Bracket.ofClosing?_closing]
  rfl

theorem depth?_symbol {c : Char} (h : Bracket.isBracket c = false) (n : Nat) :
    (symbol c).depth? n = some n := by
  obtain ⟨hopening, hclosing⟩ := Bracket.isBracket_eq_false_iff.mp h
  rw [depth?_eq, hopening, hclosing]
  rfl

end Token

namespace Level

variable {ts us : List Token}

theorem nil : Level [] := fun _ => rfl

theorem append (ht : Level ts) (hu : Level us) : Level (ts ++ us) := by
  intro n
  rw [depth?_append, ht n, Option.bind_some, hu n]

/-- A token that is no bracket. -/
theorem cons {t : Token} (ht : ∀ n, t.depth? n = some n) (h : Level ts) : Level (t :: ts) := by
  intro n
  rw [depth?_cons, ht, Option.bind_some, h n]

end Level

theorem level_ofWord (letters : List Char) : Level (Token.ofWord letters) := by
  unfold Token.ofWord
  split_ifs
  · exact .nil
  · exact .cons (fun _ => rfl) .nil

/-- A character that is masked or no bracket completes tokens that are level. -/
theorem level_complete {mode : Mode} {c : Char} (read : List Char)
    (h : mode.keeps c = false ∨ Bracket.isBracket c = false) : Level (mode.complete read c) := by
  cases mode with
  | code =>
      have hc := h.resolve_left (by simp [Mode.keeps])
      dsimp only [Mode.complete]
      split_ifs
      · exact .nil
      · exact (level_ofWord read).append .nil
      · exact (level_ofWord read).append (.cons (Token.depth?_symbol hc) .nil)
  | literal =>
      dsimp only [Mode.complete]
      split_ifs
      · exact .cons (fun _ => rfl) .nil
      · exact .nil
  | escape => exact .nil

/-- A bracket outside of literals is a token of its own. -/
theorem complete_bracket {c : Char} (read : List Char) (h : Bracket.isBracket c) :
    Mode.code.complete read c = Token.ofWord read ++ [.symbol c] := by
  have hsix : c = '(' ∨ c = ')' ∨ c = '[' ∨ c = ']' ∨ c = '\x7b' ∨ c = '\x7d' := by
    simpa [Bracket.isBracket, Bracket.all, Bracket.opening, Bracket.closing, or_assoc] using h
  rcases hsix with rfl | rfl | rfl | rfl | rfl | rfl <;> rfl

theorem depth?_symbol_of_step {opened opened' : List Bracket} {c : Char}
    (h : step opened c = some opened') :
    (Token.symbol c).depth? opened.length = some opened'.length := by
  rw [step] at h
  split at h
  · rename_i b hopening
    obtain rfl := Bracket.opening_of_ofOpening? hopening
    obtain rfl := Option.some.inj h
    exact Token.depth?_opening b _
  · rename_i hopening
    split at h
    · rename_i hclosing
      obtain rfl := Option.some.inj h
      exact Token.depth?_symbol (Bracket.isBracket_eq_false_iff.mpr ⟨hopening, hclosing⟩) _
    · rename_i b hclosing
      obtain rfl := Bracket.closing_of_ofClosing? hclosing
      split at h
      · cases h
      · split_ifs at h
        obtain rfl := Option.some.inj h
        exact Token.depth?_closing b _

theorem depth?_complete {opened opened' : List Bracket} {mode : Mode} {c : Char}
    (read : List Char) (hkeeps : mode.keeps c) (h : step opened c = some opened') :
    depth? opened.length (mode.complete read c) = some opened'.length := by
  have hdepth := depth?_symbol_of_step h
  by_cases hbracket : Bracket.isBracket c
  · obtain rfl : mode = .code := by
      cases mode with
      | code => rfl
      | literal =>
          obtain rfl : c = '\'' := by simpa [Mode.keeps] using hkeeps
          exact absurd hbracket (by decide)
      | escape => cases hkeeps
    rw [complete_bracket read hbracket, depth?_append, level_ofWord read, Option.bind_some,
      depth?_cons, hdepth]
    rfl
  · rw [Bool.not_eq_true] at hbracket
    rw [Token.depth?_symbol hbracket] at hdepth
    rw [level_complete read (.inr hbracket), hdepth]

/-- The brackets that are open behind some code are those that are open behind its tokens. -/
theorem depth?_tokensFrom {opened opened' : List Bracket} {mode : Mode} {cs : List Char}
    (read : List Char) (hafter : mode.after cs = .code)
    (h : scan opened (maskFrom mode cs) = some opened') :
    depth? opened.length (tokensFrom mode read cs) = some opened'.length := by
  induction cs generalizing mode read opened with
  | nil =>
      obtain rfl : mode = .code := hafter
      obtain rfl := Option.some.inj h
      exact level_ofWord read _
  | cons c cs ih =>
      rw [maskFrom] at h
      rw [tokensFrom, depth?_append]
      split_ifs at h with hkeeps
      · rw [scan_cons] at h
        obtain ⟨between, hstep, h⟩ := Option.bind_eq_some_iff.mp h
        rw [depth?_complete read hkeeps hstep, Option.bind_some]
        exact ih _ hafter h
      · rw [level_complete read (.inl (by simpa using hkeeps)), Option.bind_some]
        exact ih _ hafter h

/-- Code that closes what it opens leaves open what was open. -/
theorem level_tokens {cs : List Char} (h : Closed cs) : Level (tokens cs) := by
  intro n
  have hscan := h.nested.scan (List.replicate n .round)
  have hdepth := depth?_tokensFrom [] h.after hscan
  rwa [List.length_replicate] at hdepth

namespace Expr

theorem level_expr {e : Expr} (h : e.isClosed) : Level e.tokens := by
  rw [← tokens_write e (isWhole_of_isClosed e h) 0]
  exact level_tokens (closed_write e h 0)

theorem level_lineTokens {es : List Expr} (h : areClosed es) : Level (lineTokens es) := by
  induction es with
  | nil => exact .nil
  | cons e es ih =>
      rw [areClosed, Bool.and_eq_true] at h
      exact (level_expr h.1).append (.cons (fun _ => rfl) (ih h.2))

end Expr

/-! ### Lists inside of expressions -/

namespace Expr

/-- Expressions that hold a list on lines of its own, with the same tokens around it whatever the
list is. -/
def Surrounds (e : List Expr → Expr) : Prop :=
  ∃ front back, ∀ items, (e items).tokens = front ++ (lineTokens items ++ back)

namespace Surrounds

variable {e : List Expr → Expr}

theorem list : Surrounds list := ⟨[.symbol '['], [.symbol ']'], fun _ => rfl⟩

theorem named (h : Surrounds e) (label : String) :
    Surrounds fun items => named label (e items) := by
  obtain ⟨front, back, he⟩ := h
  refine ⟨Dart.tokens label.toList ++ .symbol ':' :: front, back, fun items => ?_⟩
  rw [tokens, he, List.append_assoc, List.cons_append]

theorem call (h : Surrounds e) (head : String) (before after : List Expr) :
    Surrounds fun items => call head (before ++ e items :: after) := by
  obtain ⟨front, back, he⟩ := h
  refine ⟨Dart.tokens head.toList ++ .symbol '(' :: (lineTokens before ++ front),
    back ++ .symbol ',' :: (lineTokens after ++ [.symbol ')']), fun items => ?_⟩
  rw [tokens, lineTokens_append, lineTokens, he]
  simp only [List.append_assoc, List.cons_append]

end Surrounds

end Expr

/-! ### Groups -/

/-- The tokens up to the one that closes a bracket which was opened before them, with the given
number of brackets open inside of it. -/
def inside : Nat → List Token → List Token
  | _, [] => []
  | n, t :: ts =>
      match t.depth? n with
      | none => []
      | some m => t :: inside m ts

theorem inside_append {n m : Nat} {ts : List Token} (h : depth? n ts = some m) (us : List Token) :
    inside n (ts ++ us) = ts ++ inside m us := by
  induction ts generalizing n with
  | nil =>
      obtain rfl := Option.some.inj h
      rfl
  | cons t ts ih =>
      rw [depth?_cons] at h
      obtain ⟨k, ht, h⟩ := Option.bind_eq_some_iff.mp h
      rw [List.cons_append, inside, ht, List.cons_append]
      exact congrArg (t :: ·) (ih h)

/-- What is enclosed ends in front of the bracket that closes. -/
theorem inside_closing {ts : List Token} (h : Level ts) (b : Bracket) (us : List Token) :
    inside 0 (ts ++ .symbol b.closing :: us) = ts := by
  rw [inside_append (h 0), inside, Token.depth?_closing_zero, List.append_nil]

/-- What is enclosed by each bracket that is opened at the end of given tokens. -/
def groupsBehind (start : List Token) : List Token → List (List Token)
  | [] => []
  | t :: ts =>
      if start.isPrefixOf (t :: ts) then
        inside 0 ((t :: ts).drop start.length) :: groupsBehind start ts
      else groupsBehind start ts

/-- What is enclosed by each bracket that is opened at the end of given code. -/
def groups (start : String) (ts : List Token) : List (List Token) :=
  groupsBehind (tokens start.toList) ts

section

variable {word : Token} {ts : List Token} (more us : List Token)

/-- Where the first of the given tokens does not occur, nothing is found. -/
theorem groupsBehind_append (h : word ∉ ts) :
    groupsBehind (word :: more) (ts ++ us) = groupsBehind (word :: more) us := by
  induction ts with
  | nil => rfl
  | cons t ts ih =>
      obtain ⟨ht, hts⟩ := not_or.mp (List.mem_cons.not.mp h)
      rw [List.cons_append, groupsBehind, if_neg, ih hts]
      rw [List.isPrefixOf_cons_cons]
      simp [ht]

theorem groupsBehind_eq_nil (h : word ∉ ts) : groupsBehind (word :: more) ts = [] := by
  have happend := groupsBehind_append more [] h
  rwa [List.append_nil] at happend

variable {more}

/-- What is enclosed by the first bracket, and what is found behind it. -/
theorem groupsBehind_cons (hmore : word ∉ more) (hts : word ∉ ts) (hlevel : Level ts)
    (b : Bracket) :
    groupsBehind (word :: more) (word :: more ++ ts ++ .symbol b.closing :: us) =
      ts :: groupsBehind (word :: more) (.symbol b.closing :: us) := by
  have hstart : (word :: more).isPrefixOf (word :: (more ++ ts ++ .symbol b.closing :: us)) := by
    simp
  have hdrop : (word :: (more ++ ts ++ .symbol b.closing :: us)).drop (word :: more).length =
      ts ++ .symbol b.closing :: us := by simp
  rw [List.cons_append, List.cons_append, groupsBehind, if_pos hstart, hdrop,
    inside_closing hlevel, List.append_assoc, groupsBehind_append more _ hmore,
    groupsBehind_append more _ hts]

end

/-- Where the first word of the given code does not occur, nothing is found. -/
theorem groups_append {start : String} {word : Token} {more ts : List Token}
    (hstart : tokens start.toList = word :: more) (h : word ∉ ts) (us : List Token) :
    groups start (ts ++ us) = groups start us := by
  rw [groups, groups, hstart]
  exact groupsBehind_append more us h

/-- Brackets that are opened in the same way are found one after the other. -/
theorem groups_flatMap {α : Type} {start : String} {word : Token} {more us : List Token}
    {front within behind : α → List Token} {l : List α}
    (hstart : tokens start.toList = word :: more) (hmore : word ∉ more) (b : Bracket)
    (h : ∀ a ∈ l, word ∉ front a ∧ word ∉ within a ∧ Level (within a) ∧
      word ∉ .symbol b.closing :: behind a) (hus : word ∉ us) :
    groups start (l.flatMap (fun a =>
      front a ++ (word :: more ++ within a ++ .symbol b.closing :: behind a)) ++ us) =
      l.map within := by
  induction l with
  | nil =>
      rw [groups, hstart]
      exact groupsBehind_eq_nil _ hus
  | cons a rest ih =>
      obtain ⟨hfront, hwithin, hlevel, hbehind⟩ := h a List.mem_cons_self
      have hrest := ih fun other ho => h other (List.mem_cons_of_mem a ho)
      rw [groups, hstart] at hrest
      have hclosing (others : List Token) : .symbol b.closing :: behind a ++ others =
          .symbol b.closing :: (behind a ++ others) := List.cons_append
      rw [List.flatMap_cons, List.append_assoc, List.append_assoc, groups_append hstart hfront,
        groups, hstart, List.append_assoc (word :: more ++ within a), hclosing,
        groupsBehind_cons _ hmore hwithin hlevel, ← hclosing, groupsBehind_append _ _ hbehind, hrest,
        List.map_cons]

/-- Calls of one name on lines of their own are found one after the other. -/
theorem Expr.groups_calls {head start : String} {calls : List (List Expr)} {us : List Token}
    (hhead : Dart.tokens head.toList = [.word head])
    (hstart : Dart.tokens start.toList = [.word head, .symbol '('])
    (h : ∀ args ∈ calls, areClosed args ∧ .word head ∉ lineTokens args) (hus : .word head ∉ us) :
    groups start (lineTokens (calls.map (.call head)) ++ us) = calls.map lineTokens := by
  have hcalls : lineTokens (calls.map (.call head)) = calls.flatMap fun args =>
      [] ++ (.word head :: [.symbol '('] ++ lineTokens args ++
        .symbol Bracket.round.closing :: [.symbol ',']) := by
    rw [lineTokens_eq_flatMap, List.flatMap_map]
    simp [tokens, hhead, Bracket.closing]
  rw [hcalls]
  refine groups_flatMap hstart (by simp) .round ?_ hus
  intro args hargs
  obtain ⟨hclosed, hhead⟩ := h args hargs
  exact ⟨List.not_mem_nil, hhead, level_lineTokens hclosed, by simp⟩

/-! ### Entries -/

/-- The entries that are still to come behind the tokens of an entry, with the given number of
brackets open in it. -/
def entriesFrom : Nat → List Token → List Token → List (List Token)
  | _, read, [] => if read = [] then [] else [read]
  | n, read, t :: ts =>
      if n = 0 ∧ t = .symbol ',' then read :: entriesFrom 0 [] ts
      else entriesFrom ((t.depth? n).getD 0) (read ++ [t]) ts

/-- The parts of what a bracket encloses, separated by commas outside of further brackets. -/
def entries (ts : List Token) : List (List Token) := entriesFrom 0 [] ts

/-- Tokens without a comma outside of brackets. -/
def IsEntry (ts : List Token) : Prop :=
  ∀ read us, entriesFrom 0 read (ts ++ us) = entriesFrom 0 (read ++ ts) us

theorem Token.depth?_succ {n m : Nat} {t : Token} (h : t.depth? n = some m) :
    t.depth? (n + 1) = some (m + 1) := by
  cases t with
  | symbol c =>
      rw [Token.depth?_eq] at h ⊢
      split_ifs at h ⊢
      · rw [← Option.some.inj h]
      · cases n with
        | zero => cases h
        | succ n => rw [← Option.some.inj h]
      · rw [← Option.some.inj h]
  | word name => exact congrArg (Option.map (· + 1)) h
  | literal body => exact congrArg (Option.map (· + 1)) h

theorem entriesFrom_append {n m : Nat} {ts : List Token} (h : depth? n ts = some m)
    (read us : List Token) :
    entriesFrom (n + 1) read (ts ++ us) = entriesFrom (m + 1) (read ++ ts) us := by
  induction ts generalizing n read with
  | nil =>
      obtain rfl := Option.some.inj h
      rw [List.append_nil]
      rfl
  | cons t ts ih =>
      rw [depth?_cons] at h
      obtain ⟨k, ht, h⟩ := Option.bind_eq_some_iff.mp h
      rw [List.cons_append, entriesFrom, if_neg (by simp), Token.depth?_succ ht, Option.getD_some,
        ih h, List.append_assoc]
      rfl

/-- Without a comma an entry goes on, whatever is open. -/
theorem entriesFrom_append_of_not_mem {n m : Nat} {ts : List Token} (hcomma : .symbol ',' ∉ ts)
    (h : depth? n ts = some m) (read us : List Token) :
    entriesFrom n read (ts ++ us) = entriesFrom m (read ++ ts) us := by
  induction ts generalizing n read with
  | nil =>
      obtain rfl := Option.some.inj h
      rw [List.append_nil]
      rfl
  | cons t ts ih =>
      obtain ⟨ht, hts⟩ := not_or.mp (List.mem_cons.not.mp hcomma)
      rw [depth?_cons] at h
      obtain ⟨k, hk, h⟩ := Option.bind_eq_some_iff.mp h
      rw [List.cons_append, entriesFrom, if_neg (fun hand => ht hand.2.symm), hk, Option.getD_some,
        ih hts h, List.append_assoc]
      rfl

namespace IsEntry

variable {ts us : List Token}

/-- Level tokens without a comma. -/
theorem of_level (h : Level ts) (hcomma : .symbol ',' ∉ ts) : IsEntry ts := fun read us =>
  entriesFrom_append_of_not_mem hcomma (h 0) read us

/-- Raw code without a comma that closes what it opens. -/
theorem code {text : String} (h : isClosed text) (hcomma : isFree ',' text) :
    IsEntry (tokens text.toList) :=
  .of_level (level_tokens (.of_isClosed h)) (symbol_not_mem_of_isFree hcomma)

/-- A token that is no comma and no bracket. -/
theorem cons {t : Token} (hcomma : t ≠ .symbol ',') (ht : t.depth? 0 = some 0) (h : IsEntry ts) :
    IsEntry (t :: ts) := by
  intro read us
  rw [List.cons_append, entriesFrom, if_neg (fun hand => hcomma hand.2), ht, Option.getD_some, h,
    List.append_assoc]
  rfl

/-- Whatever stands between brackets. -/
theorem wrap (b : Bracket) (h : Level ts) :
    IsEntry (.symbol b.opening :: ts ++ [.symbol b.closing]) := by
  have hopening : Token.symbol b.opening ≠ .symbol ',' := by cases b <;> decide
  have hclosing : Token.symbol b.closing ≠ .symbol ',' := by cases b <;> decide
  intro read us
  rw [List.cons_append, List.cons_append, entriesFrom, if_neg (fun hand => hopening hand.2),
    Token.depth?_opening, Option.getD_some, List.append_assoc, entriesFrom_append (h 0),
    List.singleton_append, entriesFrom, if_neg (by simp), Token.depth?_closing, Option.getD_some]
  simp

end IsEntry

theorem entriesFrom_comma {ts : List Token} (h : IsEntry ts) (us : List Token) :
    entriesFrom 0 [] (ts ++ .symbol ',' :: us) = ts :: entriesFrom 0 [] us := by
  rw [h, List.nil_append, entriesFrom, if_pos ⟨rfl, rfl⟩]

/-- Entries with nothing but commas between them. -/
theorem entries_separated {first : List Token} {others : List (List Token)}
    (h : ∀ entry ∈ first :: others, IsEntry entry ∧ entry ≠ []) :
    entries (first ++ others.flatMap (.symbol ',' :: ·)) = first :: others := by
  induction others generalizing first with
  | nil =>
      obtain ⟨hfirst, hne⟩ := h first List.mem_cons_self
      rw [entries, List.flatMap_nil, hfirst, List.nil_append, entriesFrom, if_neg hne]
  | cons next others ih =>
      rw [List.flatMap_cons, List.cons_append, entries,
        entriesFrom_comma (h first List.mem_cons_self).1]
      exact congrArg (first :: ·) (ih fun entry he => h entry (List.mem_cons_of_mem first he))

/-- What the list holds that is given as the argument of a name; nothing if the argument is none of
that name. -/
def listArgument? (label : String) : List Token → Option (List (List Token))
  | .word name :: .symbol ':' :: .symbol '[' :: rest =>
      if name = label then some (entries (inside 0 rest)) else none
  | _ => none

/-- What the lists hold that are given as arguments of a name. -/
def listArguments (label : String) (ts : List Token) : List (List (List Token)) :=
  (entries ts).filterMap (listArgument? label)

/-- The entries of what is written on lines of its own. -/
theorem Expr.entries_lineTokens {es : List Expr} (h : ∀ e ∈ es, IsEntry e.tokens) :
    entries (lineTokens es) = es.map tokens := by
  induction es with
  | nil => rfl
  | cons e es ih =>
      rw [lineTokens, entries, entriesFrom_comma (h e List.mem_cons_self), List.map_cons]
      exact congrArg (e.tokens :: ·) (ih fun e' he' => h e' (List.mem_cons_of_mem e he'))

theorem listArgument?_word_of_ne {label name : String} (h : name ≠ label) (ts : List Token) :
    listArgument? label (.word name :: ts) = none := by
  unfold listArgument?
  split
  · rename_i heq
    rw [← Token.word.inj (List.cons.inj heq).1, if_neg h]
  · rfl

namespace Expr

variable {label : String} {items : List Expr}

theorem isEntry_list (hlabel : Dart.tokens label.toList = [.word label]) (h : areClosed items) :
    IsEntry (named label (list items)).tokens := by
  rw [tokens, tokens, hlabel]
  exact .cons (by simp) rfl (.cons (by decide) rfl (.wrap .square (level_lineTokens h)))

theorem listArgument?_list (hlabel : Dart.tokens label.toList = [.word label])
    (hclosed : areClosed items) (h : ∀ item ∈ items, IsEntry item.tokens) :
    listArgument? label (named label (list items)).tokens = some (items.map tokens) := by
  have hlist : inside 0 (lineTokens items ++ [.symbol ']']) = lineTokens items :=
    inside_closing (level_lineTokens hclosed) .square []
  rw [tokens, tokens, hlabel, ← entries_lineTokens h]
  simp [listArgument?, hlist]

end Expr

end Wireframe.Dart
