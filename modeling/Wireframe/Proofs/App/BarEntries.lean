/-
The entries of bars at the bottom.

The entry that is chosen is kept as a number.  Each entry of a bar looks twice whether it is the one
that is chosen, and makes itself the chosen one when it leads somewhere; no entry looks at the number
of another.

* `IndexUse`, `indexUses` — what is done with the number, read from code;
* `indexUses_entryArgs`, `texts_entryArgs` — what is read of an entry;
* `KeepsToItself`, `keepsToItself_bottomBar` — what is read of a bar.
-/
import Wireframe.Proofs.App.RareCharacters
import Wireframe.Proofs.Dart.Groups

namespace Wireframe.App

open Dart Design

/-! ### What is done with the number -/

/-- What is done with the number of the chosen entry. -/
inductive IndexUse
  /-- It is compared with another one. -/
  | tests (index : String)
  /-- It is set to another one. -/
  | sets (index : String)
  /-- Anything else. -/
  | other
deriving DecidableEq, Repr

/-- What is done with the number, seen from the tokens behind its name. -/
def useOf : List Token → IndexUse
  | .symbol '=' :: .symbol '=' :: .word index :: .symbol '?' :: _ => .tests index
  | .symbol '=' :: .word index :: .symbol ')' :: _ => .sets index
  | _ => .other

/-- The name of the number. -/
def indexName : Token := .word "_navIndex"

/-- What is done with the number, one place after the other. -/
def indexUses : List Token → List IndexUse
  | [] => []
  | t :: ts => if t = indexName then useOf ts :: indexUses ts else indexUses ts

example : indexUses (tokens "f(() => _navIndex = 2), _navIndex == 2 ? a : b".toList) =
    [.sets "2", .tests "2"] := by decide +kernel

/-! ### Parts of code -/

/-- What is done with the number in some tokens, whatever stands behind them. -/
def Uses (ts : List Token) (uses : List IndexUse) : Prop :=
  ∀ behind, indexUses (ts ++ behind) = uses ++ indexUses behind

namespace Uses

variable {ts us : List Token} {a b : List IndexUse}

theorem nil : Uses [] [] := fun _ => rfl

theorem cons {t : Token} (ht : t ≠ indexName) (h : Uses ts a) : Uses (t :: ts) a := by
  intro behind
  rw [List.cons_append, indexUses, if_neg ht, h]

/-- Tokens without the name of the number. -/
theorem of_not_mem (h : indexName ∉ ts) : Uses ts [] := by
  induction ts with
  | nil => exact nil
  | cons t ts ih =>
      obtain ⟨ht, hts⟩ := not_or.mp (List.mem_cons.not.mp h)
      exact cons (fun e => ht e.symm) (ih hts)

theorem append (ht : Uses ts a) (hu : Uses us b) : Uses (ts ++ us) (a ++ b) := by
  intro behind
  rw [List.append_assoc, ht, hu, List.append_assoc]

/-- What is read of the tokens if nothing stands behind them. -/
theorem indexUses_eq (h : Uses ts a) : indexUses ts = a := by
  have hnil := h []
  rwa [List.append_nil, indexUses, List.append_nil] at hnil

theorem of_isFree {code : String} (h : isFree '_' code) : Uses (tokens code.toList) [] :=
  of_not_mem (word_not_mem_of_isFree (by decide) h)

theorem of_avoids {e : Expr} (hwhole : e.isWhole) (h : e.avoids '_') : Uses e.tokens [] :=
  of_not_mem (Expr.word_not_mem_tokens (by decide) (by decide) e hwhole h)

theorem named {label : String} {value : Expr} (hlabel : isFree '_' label)
    (h : Uses value.tokens a) : Uses (Expr.named label value).tokens a := by
  rw [Expr.tokens]
  exact (of_isFree hlabel).append (cons (by decide) h)

/-- Expressions on lines of their own. -/
theorem line {e : Expr} {rest : List Expr} (he : Uses e.tokens a)
    (hrest : Uses (Expr.lineTokens rest) b) : Uses (Expr.lineTokens (e :: rest)) (a ++ b) := by
  rw [Expr.lineTokens]
  exact he.append (cons (by decide) hrest)

/-- One expression on a line of its own. -/
theorem last {e : Expr} (he : Uses e.tokens a) : Uses (Expr.lineTokens [e]) a := by
  have hnone : Uses (Expr.lineTokens []) [] := nil
  have hline := he.line hnone
  rwa [List.append_nil] at hline

theorem call {head : String} {args : List Expr} (hhead : isFree '_' head)
    (h : Uses (Expr.lineTokens args) a) : Uses (Expr.call head args).tokens a := by
  have hargs := (of_isFree hhead).append (cons (t := .symbol '(') (by decide) h)
  have hclosing : Uses [.symbol ')'] [] := cons (by decide) nil
  rw [Expr.tokens]
  simpa using hargs.append hclosing

theorem list {items : List Expr} (h : Uses (Expr.lineTokens items) a) :
    Uses (Expr.list items).tokens a := by
  have hitems := cons (t := .symbol '[') (by decide) h
  have hclosing : Uses [.symbol ']'] [] := cons (by decide) nil
  rw [Expr.tokens]
  simpa using hitems.append hclosing

theorem flatMap {α : Type} {f : α → List Token} {g : α → List IndexUse} {l : List α}
    (h : ∀ x, Uses (f x) (g x)) : Uses (l.flatMap f) (l.flatMap g) := by
  induction l with
  | nil => exact nil
  | cons x rest ih =>
      rw [List.flatMap_cons, List.flatMap_cons]
      exact (h x).append ih

end Uses

/-! ### Entries -/

section

variable (around : Surroundings) (p : BottomNavProps) (i : Nat) (item : NavItem)

/-- The look of entry number `i`: the test and both colours. -/
theorem tokens_tintCode :
    tokens (tintCode p i).toList =
      indexName :: .symbol '=' :: .symbol '=' :: .word (toString i) :: .symbol '?' ::
        (tokens (constColor p.activeColor).toList ++ .symbol ':' ::
          tokens (constColor p.inactiveColor).toList) := by
  have hnumber := (isWhole_iff.mp (isWhole_of_isClosed (isClosed_toString i))).1
  have hactive := (isWhole_iff.mp (isWhole_of_isClosed (isClosed_constColor p.activeColor))).1
  have hsplit : (tintCode p i).toList = "_navIndex ".toList ++ '=' :: ([] ++ '=' ::
      (' ' :: ((toString i).toList ++ ' ' :: ([] ++ '?' :: (' ' ::
        ((constColor p.activeColor).toList ++ ' ' :: ([] ++ ':' :: ' ' ::
          (constColor p.inactiveColor).toList))))))) := by
    simp [tintCode]
  have hname : tokens "_navIndex ".toList = [indexName] := rfl
  have hblank (cs : List Char) : tokens (' ' :: cs) = tokens cs := tokens_blanks 1 cs
  rw [hsplit, tokens_around rfl (by decide) (by decide) (by decide), hname,
    tokens_around rfl (by decide) (by decide) (by decide), hblank,
    tokens_append_cons hnumber (by decide), hblank, tokens_toString,
    tokens_around rfl (by decide) (by decide) (by decide), hblank,
    tokens_append_cons hactive (by decide), hblank,
    tokens_around rfl (by decide) (by decide) (by decide), hblank]
  rfl

theorem number_ne_indexName : Token.word (toString i) ≠ indexName := by
  intro h
  have hname : (toString i).toList = "_navIndex".toList := congrArg String.toList (Token.word.inj h)
  have hnumeral := isNumeral_toString i
  rw [hname] at hnumeral
  exact absurd (isNumeral_iff.mp hnumeral '_') (by decide)

theorem uses_tintCode : Uses (tokens (tintCode p i).toList) [.tests (toString i)] := by
  have hactive : Uses (tokens (constColor p.activeColor).toList) [] :=
    .of_isFree (isFree_constColor (by decide) _)
  have hinactive : Uses (tokens (constColor p.inactiveColor).toList) [] :=
    .of_isFree (isFree_constColor (by decide) _)
  have hcolors := hactive.append (.cons (t := .symbol ':') (by decide) hinactive)
  have hrest : Uses (.symbol '=' :: .symbol '=' :: .word (toString i) :: .symbol '?' ::
      (tokens (constColor p.activeColor).toList ++ .symbol ':' ::
        tokens (constColor p.inactiveColor).toList)) [] :=
    .cons (by decide) (.cons (by decide) (.cons (number_ne_indexName i) (.cons (by decide) hcolors)))
  intro behind
  rw [tokens_tintCode, List.cons_append, indexUses, if_pos rfl, hrest]
  rfl

/-- The tokens of code in which a whole number stands behind an equals sign. -/
theorem tokens_equals {a : List Char} {c : Char} (ha : Mode.code.after a = .code)
    (hc : isWordChar c = false) (hquote : c ≠ '\'') (hblank : c.isWhitespace = false) :
    tokens (a ++ '=' :: (' ' :: ((toString i).toList ++ [c]))) =
      tokens a ++ [.symbol '=', .word (toString i), .symbol c] := by
  have hnumber := (isWhole_iff.mp (isWhole_of_isClosed (isClosed_toString i))).1
  have hspace (cs : List Char) : tokens (' ' :: cs) = tokens cs := tokens_blanks 1 cs
  rw [tokens_around ha (by decide) (by decide) (by decide), hspace,
    tokens_around hnumber hc hquote hblank, tokens_toString]
  rfl

/-- What makes an entry the chosen one. -/
theorem tokens_setCode : tokens ("setState(() => _navIndex = " ++ toString i ++ ")").toList =
    [.word "setState", .symbol '(', .symbol '(', .symbol ')', .symbol '=', .symbol '>', indexName,
      .symbol '=', .word (toString i), .symbol ')'] := by
  have hsplit : ("setState(() => _navIndex = " ++ toString i ++ ")").toList =
      "setState(() => _navIndex ".toList ++ '=' :: (' ' :: ((toString i).toList ++ [')'])) := by
    simp
  rw [hsplit, tokens_equals i rfl (by decide) (by decide) (by decide)]
  rfl

theorem uses_setCode : Uses (tokens ("setState(() => _navIndex = " ++ toString i ++ ")").toList)
    [.sets (toString i)] := by
  have hrest : Uses [.symbol '=', .word (toString i), .symbol ')'] [] :=
    .cons (by decide) (.cons (number_ne_indexName i) (.cons (by decide) .nil))
  have hname : Uses [indexName, .symbol '=', .word (toString i), .symbol ')']
      [.sets (toString i)] := by
    intro behind
    rw [List.cons_append, indexUses, if_pos rfl, hrest]
    rfl
  rw [tokens_setCode]
  exact .cons (by decide) (.cons (by decide) (.cons (by decide) (.cons (by decide)
    (.cons (by decide) (.cons (by decide) hname)))))

/-- An entry that leads somewhere sets the number to its own. -/
theorem uses_bottomHandler (path : Option String) : Uses (bottomHandler i path).tokens
    (if path.isSome then [.sets (toString i)] else []) := by
  cases path with
  | none => exact .of_avoids (e := "null") rfl rfl
  | some path =>
      have hfront : Uses [.symbol '(', .symbol ')', .symbol '\x7b'] [] :=
        .cons (by decide) (.cons (by decide) (.cons (by decide) .nil))
      have hreplace : Uses (tokens (writePieces (replacePieces path))) [] := by
        refine .of_not_mem (word_not_mem_tokens_writePieces (c := '_') (by decide) (by decide) ?_ ?_)
        · exact all_isWhole_of_closes (closes_replacePieces path)
        · rfl
      have hset : Uses (tokens (writePieces
          [.raw ("setState(() => _navIndex = " ++ toString i ++ ")")])) [.sets (toString i)] := by
        rw [writePieces, List.flatMap_cons, List.flatMap_nil, List.append_nil]
        exact uses_setCode i
      have hend : Uses [.symbol ';'] [] := .cons (by decide) .nil
      have hclosing : Uses [.symbol '\x7d'] [] := .cons (by decide) .nil
      have hall := hfront.append (((hset.append hend).append (hreplace.append hend)).append hclosing)
      simpa [bottomHandler, Expr.tokens] using hall

theorem mem_iconName : iconName item ∈ "circle" :: knownIcons := by
  unfold iconName
  cases hicon : item.icon.filter knownIcons.contains with
  | none => exact List.mem_cons_self
  | some icon =>
      have hknown := (Option.filter_eq_some_iff.mp hicon).2
      exact List.mem_cons_of_mem _ (List.contains_iff_mem.mp hknown)

/-- The code of an icon. -/
theorem tokens_iconCode : tokens ("Icons." ++ iconName item).toList =
    [.word "Icons", .symbol '.', .word (iconName item)] := by
  have known : ("circle" :: knownIcons).all (fun icon =>
      tokens ("Icons." ++ icon).toList = [.word "Icons", .symbol '.', .word icon]) = true := rfl
  simpa using List.all_eq_true.mp known _ (mem_iconName item)

theorem uses_iconCode : Uses (tokens ("Icons." ++ iconName item).toList) [] := by
  have hicon : iconName item ≠ "_navIndex" := by
    have known : ∀ icon ∈ "circle" :: knownIcons, icon ≠ "_navIndex" := by decide
    exact known _ (mem_iconName item)
  have hname : Token.word (iconName item) ≠ indexName := by simpa [indexName] using hicon
  rw [tokens_iconCode]
  exact .cons (by decide) (.cons (by decide) (.cons hname .nil))

/-- The icon of an entry. -/
def entryIcon : Expr :=
  .call "Icon" [.code ("Icons." ++ iconName item), .named "color" (tintCode p i)]

/-- The text of an entry. -/
def entryLabel : Expr :=
  textWidget item.text
    [.named "style" (.call "TextStyle"
      [fontSizeArg bottomFontSize, .named "color" (tintCode p i)])]

/-- What stands in the middle of an entry: its icon and its text. -/
def entryContent : Expr :=
  .call "Center"
    [.named "child" (.call "FittedBox"
      [.named "fit" "BoxFit.scaleDown",
        .named "child" (.call "Column"
          [.named "mainAxisSize" "MainAxisSize.min",
            .named "children" (.list [entryIcon p i item, entryLabel p i item])])])]

/-- The arguments of what is tapped. -/
def entryArgs : List Expr :=
  [.named "onTap" (bottomHandler i (around.routes.path? item.targetScreen)),
    .named "child" (entryContent p i item)]

theorem bottomEntry_eq : bottomEntry around p i item =
    .call "Expanded" [.named "child" (.call "InkWell" (entryArgs around p i item))] := rfl

/-- What an entry does with the number. -/
def entryUses : List IndexUse :=
  (if (around.routes.path? item.targetScreen).isSome then [.sets (toString i)] else []) ++
    [.tests (toString i), .tests (toString i)]

theorem uses_tint : Uses (Expr.named "color" (tintCode p i)).tokens [.tests (toString i)] := by
  refine .named (isFree_ofList rfl) ?_
  rw [Expr.tokens_code]
  exact uses_tintCode p i

theorem uses_entryIcon : Uses (entryIcon p i item).tokens [.tests (toString i)] := by
  have hicon : Uses (Expr.code ("Icons." ++ iconName item)).tokens [] := by
    rw [Expr.tokens_code]
    exact uses_iconCode item
  exact .call (isFree_ofList rfl) (hicon.line (uses_tint p i).last)

theorem uses_entryLabel : Uses (entryLabel p i item).tokens [.tests (toString i)] := by
  have hsize : Uses (fontSizeArg bottomFontSize).tokens [] :=
    .of_avoids (Expr.isWhole_of_isClosed _ (isClosed_fontSizeArg _))
      (avoids_fontSizeArg (by decide) _)
  have hstyle : Uses (Expr.named "style" (.call "TextStyle"
      [fontSizeArg bottomFontSize, .named "color" (tintCode p i)])).tokens [.tests (toString i)] :=
    .named (isFree_ofList rfl) (.call (isFree_ofList rfl) (hsize.line (uses_tint p i).last))
  have htext : Uses (Expr.literal item.text).tokens [] := .of_avoids rfl rfl
  exact .call (isFree_ofList rfl) (htext.line hstyle.last)

theorem uses_entryContent : Uses (entryContent p i item).tokens
    [.tests (toString i), .tests (toString i)] := by
  have hchildren : Uses (Expr.named "children"
      (.list [entryIcon p i item, entryLabel p i item])).tokens
      [.tests (toString i), .tests (toString i)] :=
    .named (isFree_ofList rfl)
      (.list ((uses_entryIcon p i item).line (uses_entryLabel p i item).last))
  have hmin : Uses (Expr.named "mainAxisSize" "MainAxisSize.min").tokens [] := .of_avoids rfl rfl
  have hcolumn : Uses (Expr.named "child" (.call "Column"
      [.named "mainAxisSize" "MainAxisSize.min",
        .named "children" (.list [entryIcon p i item, entryLabel p i item])])).tokens
      [.tests (toString i), .tests (toString i)] :=
    .named (isFree_ofList rfl) (.call (isFree_ofList rfl) (hmin.line hchildren.last))
  have hfit : Uses (Expr.named "fit" "BoxFit.scaleDown").tokens [] := .of_avoids rfl rfl
  exact .call (isFree_ofList rfl) (.last (.named (isFree_ofList rfl)
    (.call (isFree_ofList rfl) (hfit.line hcolumn.last))))

theorem uses_entryArgs : Uses (Expr.lineTokens (entryArgs around p i item))
    (entryUses around i item) := by
  have htap : Uses (Expr.named "onTap"
      (bottomHandler i (around.routes.path? item.targetScreen))).tokens
      (if (around.routes.path? item.targetScreen).isSome then [.sets (toString i)] else []) :=
    .named (isFree_ofList rfl) (uses_bottomHandler i _)
  have hcontent : Uses (Expr.named "child" (entryContent p i item)).tokens
      [.tests (toString i), .tests (toString i)] :=
    .named (isFree_ofList rfl) (uses_entryContent p i item)
  exact htap.line hcontent.last

theorem uses_bottomEntry : Uses (bottomEntry around p i item).tokens
    (entryUses around i item) := by
  rw [bottomEntry_eq]
  exact .call (isFree_ofList rfl) (.last (.named (isFree_ofList rfl)
    (.call (isFree_ofList rfl) (uses_entryArgs around p i item))))

/-! ### What the entries lack -/

theorem avoids_entryArgs {c : Char} (hc : c ∈ ['\'', 'k']) :
    Expr.allAvoid c (entryArgs around p i item) := by
  have hall : ['\'', 'k'].all rare.contains = true := rfl
  have hrare : c ∈ rare := List.contains_iff_mem.mp (List.all_eq_true.mp hall c hc)
  have htint : isFree c (tintCode p i) := by
    have hnumber : isFree c i.repr := isFree_of_rare hrare (isNumeral_toString i)
    have hactive := isFree_constColor hrare p.activeColor
    have hinactive := isFree_constColor hrare p.inactiveColor
    simp (disch := exact isFree_ofList_of_mem hc rfl) [isFree_given, tintCode, hnumber, hactive,
      hinactive]
  have hicon : isFree c (iconName item) := by
    have known : ("circle" :: knownIcons).all
        (fun icon => ['\'', 'k'].all fun d => isFree d icon) = true := rfl
    exact List.all_eq_true.mp (List.all_eq_true.mp known _ (mem_iconName item)) c hc
  have hhandler : (bottomHandler i (around.routes.path? item.targetScreen)).avoids c := by
    have hnumber : isFree c i.repr := isFree_of_rare hrare (isNumeral_toString i)
    cases around.routes.path? item.targetScreen <;>
      simp (disch := exact isFree_ofList_of_mem hc rfl) [isFree_given, bottomHandler,
        replacePieces, hnumber]
  have hsize := avoids_fontSizeArg hrare bottomFontSize
  simp (disch := exact isFree_ofList_of_mem hc rfl) [isFree_given, entryArgs, entryContent,
    entryIcon, entryLabel, textWidget, htint, hicon, hhandler, hsize]

theorem areClosed_entryArgs : Expr.areClosed (entryArgs around p i item) := by
  have hentry := isClosed_bottomEntry around p i item
  rw [bottomEntry_eq] at hentry
  simp only [Expr.isClosed, Expr.areClosed, Bool.and_eq_true] at hentry
  exact hentry.2.1.2.2

/-- An entry says where it leads and its text. -/
theorem texts_entryArgs : texts (Expr.lineTokens (entryArgs around p i item)) =
    (around.routes.path? item.targetScreen).toList ++ [item.text] := by
  have htexts : Expr.textsAll (entryArgs around p i item) =
      (bottomHandler i (around.routes.path? item.targetScreen)).texts ++ [item.text] := rfl
  rw [Expr.texts_lineTokens _ (avoids_entryArgs around p i item (by decide)), htexts]
  cases around.routes.path? item.targetScreen <;> rfl

end

/-! ### Bars -/

/-- The entries of a bar keep to themselves, read from the code of the bar: each one that can be
tapped says where it leads and its text, looks twice whether it is chosen, and sets the number to its
own if it leads somewhere.  Nothing else in the bar has to do with the number. -/
structure KeepsToItself (around : Surroundings) (items : List NavItem) (code : List Token) :
    Prop where
  shows : (groups "InkWell(" code).map texts = items.map fun item =>
    (around.routes.path? item.targetScreen).toList ++ [item.text]
  uses : (groups "InkWell(" code).map indexUses = items.mapIdx fun i item =>
    (if (around.routes.path? item.targetScreen).isSome then [.sets (toString i)] else []) ++
      [.tests (toString i), .tests (toString i)]
  only : indexUses code = ((groups "InkWell(" code).map indexUses).flatten

/-- A bar at its place, with its entries left open. -/
def barAround (rect : Rect .canvas) (p : BottomNavProps) (entries : List Expr) : Expr :=
  positioned rect (.call "Material"
    [colorArg p.bgColor, .named "elevation" "8",
      .named "child" (.call "Row" [.named "children" (.list entries)])])

theorem surrounds_barAround (rect : Rect .canvas) (p : BottomNavProps) :
    Expr.Surrounds (barAround rect p) := by
  have hrow := (Expr.Surrounds.list.named "children").call "Row" [] []
  have hbar := (hrow.named "child").call "Material"
    [colorArg p.bgColor, .named "elevation" "8"] []
  exact (hbar.named "child").call "Positioned"
    [.named "left" (width rect.x), .named "top" (height rect.y), .named "width" (width rect.w),
      .named "height" (height rect.h)] []

/-- A name with a character that these lack does not occur around the entries. -/
theorem word_not_mem_barAround {name : String} {c : Char} (hc : c ∈ ['_', 'k'])
    (hname : c ∈ name.toList) (rect : Rect .canvas) (p : BottomNavProps) :
    .word name ∉ (barAround rect p []).tokens := by
  have hall : ['_', 'k'].all (fun d => rare.contains d && d != '\'') = true := rfl
  obtain ⟨hrare, hquote⟩ : c ∈ rare ∧ c ≠ '\'' := by
    simpa using List.all_eq_true.mp hall c hc
  have hcolor := isFree_constColor hrare p.bgColor
  refine Expr.word_not_mem_tokens hquote hname _ (Expr.isWhole_of_isClosed _ ?_) ?_
  · simp (disch := exact isClosed_ofList rfl) [isClosed_given, barAround]
  · simp (disch := exact isFree_ofList_of_mem hc rfl) [isFree_given, barAround, positioned,
      colorArg, isFree_width hrare, isFree_height hrare, hcolor]

/-- What stands in front of the arguments of what is tapped. -/
def entryFront : List Token := [.word "Expanded", .symbol '(', .word "child", .symbol ':']

theorem tokens_bottomEntry (around : Surroundings) (p : BottomNavProps) (i : Nat) (item : NavItem) :
    (bottomEntry around p i item).tokens ++ [.symbol ','] =
      entryFront ++ (.word "InkWell" :: [.symbol '('] ++
        Expr.lineTokens (entryArgs around p i item) ++
        .symbol Bracket.round.closing :: [.symbol ',', .symbol ')', .symbol ',']) := by
  have hhead : tokens "Expanded".toList = [.word "Expanded"] := rfl
  have hchild : tokens "child".toList = [.word "child"] := rfl
  have htap : tokens "InkWell".toList = [.word "InkWell"] := rfl
  rw [bottomEntry_eq]
  simp only [Expr.tokens, Expr.lineTokens, hhead, hchild, htap, entryFront, Bracket.closing,
    List.append_assoc, List.cons_append, List.nil_append]

/-- The entries of a bar, one after the other. -/
theorem lineTokens_entries (around : Surroundings) (p : BottomNavProps) :
    Expr.lineTokens (p.items.mapIdx (bottomEntry around p)) = p.items.zipIdx.flatMap fun a =>
      entryFront ++ (.word "InkWell" :: [.symbol '('] ++
        Expr.lineTokens (entryArgs around p a.2 a.1) ++
        .symbol Bracket.round.closing :: [.symbol ',', .symbol ')', .symbol ',']) := by
  rw [List.mapIdx_eq_zipIdx_map, Expr.lineTokens_eq_flatMap, List.flatMap_map]
  refine List.flatMap_congr ?_
  intro a _
  exact tokens_bottomEntry around p a.2 a.1

theorem groups_bottomBar (around : Surroundings) (rect : Rect .canvas) (p : BottomNavProps) :
    groups "InkWell(" (positioned rect (bottomNavCode around p)).tokens =
      p.items.zipIdx.map fun a => Expr.lineTokens (entryArgs around p a.2 a.1) := by
  have hstart : tokens "InkWell(".toList = [.word "InkWell", .symbol '('] := rfl
  obtain ⟨front, back, hbar⟩ := surrounds_barAround rect p
  have hname : .word "InkWell" ∉ (barAround rect p []).tokens :=
    word_not_mem_barAround (c := 'k') (by decide) (by decide) rect p
  rw [hbar, List.mem_append, List.mem_append, not_or, not_or] at hname
  obtain ⟨hfront, -, hback⟩ := hname
  rw [show positioned rect (bottomNavCode around p) =
      barAround rect p (p.items.mapIdx (bottomEntry around p)) from rfl, hbar, lineTokens_entries,
    groups_append hstart hfront]
  refine groups_flatMap hstart (by decide) .round ?_ hback
  intro a _
  have hclosed := areClosed_entryArgs around p a.2 a.1
  exact ⟨by decide, Expr.word_not_mem_lineTokens (c := 'k') (by decide) (by decide) _
    (Expr.areWhole_of_areClosed _ hclosed) (avoids_entryArgs around p a.2 a.1 (by decide)),
    Expr.level_lineTokens hclosed, by decide⟩

theorem indexUses_bottomBar (around : Surroundings) (rect : Rect .canvas) (p : BottomNavProps) :
    indexUses (positioned rect (bottomNavCode around p)).tokens =
      p.items.zipIdx.flatMap fun a => entryUses around a.2 a.1 := by
  obtain ⟨front, back, hbar⟩ := surrounds_barAround rect p
  have hname : indexName ∉ (barAround rect p []).tokens :=
    word_not_mem_barAround (c := '_') (by decide) (by decide) rect p
  rw [hbar, List.mem_append, List.mem_append, not_or, not_or] at hname
  obtain ⟨hfront, -, hback⟩ := hname
  have hentries : Uses (Expr.lineTokens (p.items.mapIdx (bottomEntry around p)))
      (p.items.zipIdx.flatMap fun a => entryUses around a.2 a.1) := by
    rw [List.mapIdx_eq_zipIdx_map, Expr.lineTokens_eq_flatMap, List.flatMap_map]
    refine .flatMap ?_
    intro a
    have hcomma : Uses [.symbol ','] [] := .cons (by decide) .nil
    rw [← List.append_nil (entryUses around a.2 a.1)]
    exact (uses_bottomEntry around p a.2 a.1).append hcomma
  have hall := (Uses.of_not_mem hfront).append (hentries.append (Uses.of_not_mem hback))
  rw [← List.append_nil (p.items.zipIdx.flatMap _)]
  exact (hbar _ ▸ hall).indexUses_eq

/-- The entries of every bar keep to themselves. -/
theorem keepsToItself_bottomBar (around : Surroundings) (rect : Rect .canvas)
    (p : BottomNavProps) :
    KeepsToItself around p.items (positioned rect (bottomNavCode around p)).tokens := by
  have huses (a : NavItem × Nat) :
      indexUses (Expr.lineTokens (entryArgs around p a.2 a.1)) = entryUses around a.2 a.1 :=
    (uses_entryArgs around p a.2 a.1).indexUses_eq
  constructor
  · have hitems : p.items.zipIdx.map Prod.fst = p.items := List.zipIdx_map_fst 0 p.items
    rw [groups_bottomBar, List.map_map]
    conv_rhs => rw [← hitems, List.map_map]
    exact List.map_congr_left fun a _ => texts_entryArgs around p a.2 a.1
  · rw [groups_bottomBar, List.map_map, List.mapIdx_eq_zipIdx_map]
    exact List.map_congr_left fun a _ => huses a
  · rw [groups_bottomBar, indexUses_bottomBar, List.map_map, ← List.flatMap_def]
    exact List.flatMap_congr fun a _ => (huses a).symm

end Wireframe.App
