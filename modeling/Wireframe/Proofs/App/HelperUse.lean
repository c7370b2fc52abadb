/-
Helpers that are used.

The name of a helper class starts with an underscore, and so do few other names in generated code.
A widget that needs a helper names its class once, and no widget names a class that it does not need.

* `Needs`, `helper?_eq_some_iff` — the helpers that widgets need;
* `usedHelpers`, `mem_usedHelpers` — the helpers that are named in code;
* `usedHelpers_named` to `usedHelpers_lines` — those of an expression, part by part;
* `usedHelpers_elementCode`, `usedHelpers_fragmentOf` — the code of an element.
-/
import Wireframe.Proofs.App.BarEntries
import Wireframe.Proofs.App.Helpers
import Wireframe.Proofs.App.Underscores

namespace Wireframe.App

open Dart Design

/-! ### Needs -/

/-- A widget needs a helper. -/
inductive Needs : Widget → Helper → Prop
  | text {p : InputTextProps} (h : p.obscured = false) : Needs (.inputText p) .textInput
  | obscured {p : InputTextProps} (h : p.obscured = true) : Needs (.inputText p) .obscuredInput
  | date (p : InputDateProps) : Needs (.inputDate p) .dateInput
  | checkbox (p : CheckboxProps) : Needs (.checkbox p) .checkbox
  | selector (p : SelectorProps) : Needs (.selector p) .dropdown
  | ellipse (p : ShapeProps) : Needs (.ellipse p) .ellipsePainter
  | video {p : MediaProps} (hself : p.autoplay = true) (hurl : Text.isBlankText p.url = false) :
      Needs (.video p) .autoplay
  | audio {p : MediaProps} (hself : p.autoplay = true) (hurl : Text.isBlankText p.url = false) :
      Needs (.audio p) .autoplay

theorem opensByItself_iff {p : MediaProps} :
    opensByItself p = true ↔ p.autoplay = true ∧ Text.isBlankText p.url = false := by
  simp [opensByItself]

theorem helper?_eq_some_iff {widget : Widget} {helper : Helper} :
    helper? widget = some helper ↔ Needs widget helper := by
  constructor
  -- Forwards, the widget decides: a kind without a helper is excluded at once.
  · intro h
    cases widget with
    | inputText p =>
        obtain rfl := Option.some.inj h
        cases hobscured : p.obscured with
        | false =>
            rw [inputHelper, hobscured]
            exact .text hobscured
        | true =>
            rw [inputHelper, hobscured]
            exact .obscured hobscured
    | inputDate p => exact Option.some.inj h ▸ .date p
    | checkbox p => exact Option.some.inj h ▸ .checkbox p
    | selector p => exact Option.some.inj h ▸ .selector p
    | ellipse p => exact Option.some.inj h ▸ .ellipse p
    -- Videos and audios need one only if they open by themselves.
    | video p =>
        rw [helper?] at h
        split_ifs at h with hself
        obtain ⟨hauto, hurl⟩ := opensByItself_iff.mp hself
        exact Option.some.inj h ▸ .video hauto hurl
    | audio p =>
        rw [helper?] at h
        split_ifs at h with hself
        obtain ⟨hauto, hurl⟩ := opensByItself_iff.mp hself
        exact Option.some.inj h ▸ .audio hauto hurl
    | _ => cases h
  · intro h
    cases h with
    | text hobscured => simp [helper?, inputHelper, hobscured]
    | obscured hobscured => simp [helper?, inputHelper, hobscured]
    | video hself hurl => rw [helper?, if_pos (opensByItself_iff.mpr ⟨hself, hurl⟩)]
    | audio hself hurl => rw [helper?, if_pos (opensByItself_iff.mpr ⟨hself, hurl⟩)]
    | _ => rfl

/-! ### Names in code -/

/-- All helpers. -/
def allHelpers : List Helper :=
  [.textInput, .obscuredInput, .dateInput, .checkbox, .dropdown, .ellipsePainter, .autoplay]

theorem className_injective {a b : Helper} (h : a.className = b.className) : a = b := by
  revert h
  cases a <;> cases b <;> decide

/-- The helper whose class a token names. -/
def helperOf? : Token → Option Helper
  | .word name => allHelpers.find? (·.className = name)
  | _ => none

/-- The helpers whose classes are named among some tokens. -/
def usedHelpers (ts : List Token) : List Helper := ts.filterMap helperOf?

theorem helperOf?_eq_some_iff {t : Token} {helper : Helper} :
    helperOf? t = some helper ↔ t = .word helper.className := by
  constructor
  · intro h
    cases t with
    | word name =>
        have hname := List.find?_some h
        rw [decide_eq_true_eq] at hname
        rw [hname]
    | _ => cases h
  · rintro rfl
    cases helper <;> rfl

theorem mem_usedHelpers {ts : List Token} {helper : Helper} :
    helper ∈ usedHelpers ts ↔ .word helper.className ∈ ts := by
  simp [usedHelpers, List.mem_filterMap, helperOf?_eq_some_iff]

section

variable {ts us : List Token}

theorem usedHelpers_append : usedHelpers (ts ++ us) = usedHelpers ts ++ usedHelpers us :=
  List.filterMap_append

theorem usedHelpers_symbol (c : Char) : usedHelpers (.symbol c :: ts) = usedHelpers ts := rfl

theorem usedHelpers_eq_nil (h : ∀ helper : Helper, .word helper.className ∉ ts) :
    usedHelpers ts = [] := by
  refine List.eq_nil_iff_forall_not_mem.mpr ?_
  intro helper hmem
  exact h helper (mem_usedHelpers.mp hmem)

theorem underscore_mem_className (helper : Helper) : '_' ∈ helper.className.toList := by
  cases helper <;> decide

/-- Raw code without an underscore names no helper. -/
theorem usedHelpers_of_isFree {code : String} (h : isFree '_' code) :
    usedHelpers (tokens code.toList) = [] :=
  usedHelpers_eq_nil fun helper => word_not_mem_of_isFree (underscore_mem_className helper) h

theorem usedHelpers_className (helper : Helper) :
    usedHelpers (tokens helper.className.toList) = [helper] := by cases helper <;> rfl

end

/-! ### Parts of code -/

section

variable {e : Expr} {es : List Expr}

theorem usedHelpers_of_avoids (hclosed : e.isClosed) (h : e.avoids '_') :
    usedHelpers e.tokens = [] :=
  usedHelpers_eq_nil fun helper => Expr.word_not_mem_tokens (by decide)
    (underscore_mem_className helper) e (Expr.isWhole_of_isClosed e hclosed) h

theorem usedHelpers_of_allAvoid (hclosed : Expr.areClosed es) (h : Expr.allAvoid '_' es) :
    usedHelpers (Expr.lineTokens es) = [] :=
  usedHelpers_eq_nil fun helper => Expr.word_not_mem_lineTokens (by decide)
    (underscore_mem_className helper) es (Expr.areWhole_of_areClosed es hclosed) h

theorem usedHelpers_code (text : String) :
    usedHelpers (Expr.code text).tokens = usedHelpers (tokens text.toList) := by
  rw [Expr.tokens_code]

theorem usedHelpers_named {label : String} (hlabel : isFree '_' label) (value : Expr) :
    usedHelpers (Expr.named label value).tokens = usedHelpers value.tokens := by
  rw [Expr.tokens, usedHelpers_append, usedHelpers_of_isFree hlabel, List.nil_append,
    usedHelpers_symbol]

theorem usedHelpers_call (head : String) (args : List Expr) :
    usedHelpers (Expr.call head args).tokens =
      usedHelpers (tokens head.toList) ++ usedHelpers (Expr.lineTokens args) := by
  have hclosing : usedHelpers [.symbol ')'] = [] := rfl
  rw [Expr.tokens, usedHelpers_append, usedHelpers_append, usedHelpers_symbol, hclosing,
    List.append_nil]

/-- A call of something that is no helper. -/
theorem usedHelpers_plainCall {head : String} (hhead : isFree '_' head) (args : List Expr) :
    usedHelpers (Expr.call head args).tokens = usedHelpers (Expr.lineTokens args) := by
  rw [usedHelpers_call, usedHelpers_of_isFree hhead, List.nil_append]

theorem usedHelpers_list (items : List Expr) :
    usedHelpers (Expr.list items).tokens = usedHelpers (Expr.lineTokens items) := by
  have hclosing : usedHelpers [.symbol ']'] = [] := rfl
  rw [Expr.tokens, usedHelpers_append, usedHelpers_symbol, hclosing, List.append_nil]

theorem usedHelpers_lines_nil : usedHelpers (Expr.lineTokens []) = [] := rfl

theorem usedHelpers_lines_cons (e : Expr) (es : List Expr) :
    usedHelpers (Expr.lineTokens (e :: es)) =
      usedHelpers e.tokens ++ usedHelpers (Expr.lineTokens es) := by
  rw [Expr.lineTokens, usedHelpers_append, usedHelpers_symbol]

theorem usedHelpers_lines (es : List Expr) :
    usedHelpers (Expr.lineTokens es) = es.flatMap fun e => usedHelpers e.tokens := by
  induction es with
  | nil => rfl
  | cons e es ih => rw [usedHelpers_lines_cons, ih, List.flatMap_cons]

end

/-! ### Widgets that may need a helper -/

theorem usedHelpers_imageCode (p : ImageProps) : usedHelpers (imageCode p).tokens = [] := by
  have hfit : isFree '_' (fitCode p.fit) := by cases p.fit <;> exact isFree_ofList rfl
  have herror : usedHelpers (tokens
      "(context, error, stackTrace) => const Icon(Icons.broken_image)".toList) = [] := rfl
  unfold imageCode
  split
  · rfl
  · have hurl : usedHelpers (Expr.literal (Text.trimBlank p.url)).tokens = [] :=
      usedHelpers_of_avoids (by simp) (by simp)
    simp (disch := exact isFree_ofList rfl) only [usedHelpers_plainCall, usedHelpers_lines_cons,
      usedHelpers_lines_nil, usedHelpers_named, usedHelpers_code, herror, hurl,
      usedHelpers_of_isFree hfit, List.append_nil]

/-- The code of a helper names it once. -/
theorem usedHelpers_helperCall (helper : Helper) {args : List Expr} (hclosed : Expr.areClosed args)
    (h : Expr.allAvoid '_' args) :
    usedHelpers (Expr.call helper.className args).tokens = [helper] := by
  rw [usedHelpers_call, usedHelpers_className, usedHelpers_of_allAvoid hclosed h, List.append_nil]

theorem areClosed_of_isClosed_call {head : String} {args : List Expr}
    (h : (Expr.call head args).isClosed) : Expr.areClosed args := by
  rw [Expr.isClosed, Bool.and_eq_true] at h
  exact h.2

theorem usedHelpers_hintedCode (helper : Helper) (placeholder : String) (fontSize : Float) :
    usedHelpers (hintedCode helper placeholder fontSize).tokens = [helper] := by
  refine usedHelpers_helperCall helper
    (areClosed_of_isClosed_call (isClosed_hintedCode helper placeholder fontSize)) ?_
  simp (disch := exact isFree_ofList rfl) [isFree_given]

theorem usedHelpers_checkboxCode (p : CheckboxProps) :
    usedHelpers (checkboxCode p).tokens = [.checkbox] := by
  refine usedHelpers_helperCall .checkbox (areClosed_of_isClosed_call (isClosed_checkboxCode p)) ?_
  cases hc : p.checked <;> simp (disch := exact isFree_ofList rfl) [isFree_given]

theorem usedHelpers_selectorCode (p : SelectorProps) :
    usedHelpers (selectorCode p).tokens = [.dropdown] := by
  refine usedHelpers_helperCall .dropdown (areClosed_of_isClosed_call (isClosed_selectorCode p)) ?_
  have hoptions := avoids_literalPieces (distinct p.options)
  simp (disch := exact isFree_ofList rfl) [isFree_given] at hoptions ⊢
  exact hoptions

theorem usedHelpers_ellipseCode (p : ShapeProps) :
    usedHelpers (ellipseCode p).tokens = [.ellipsePainter] := by
  have hpainter : usedHelpers (tokens ("const " ++ Helper.ellipsePainter.className).toList) =
      [.ellipsePainter] := rfl
  unfold ellipseCode
  extract_lets border
  have hborder : Expr.areClosed border ∧ Expr.allAvoid '_' border := by
    unfold border
    split
    · constructor
      · simp (disch := exact isClosed_ofList rfl) [isClosed_given]
      · simp (disch := exact isFree_ofList rfl) [isFree_given]
    · exact ⟨rfl, rfl⟩
  have hargs : usedHelpers (Expr.lineTokens (.named "fill" (colorCode p.fill) :: border)) = [] := by
    refine usedHelpers_of_allAvoid ?_ ?_
    · simp (disch := exact isClosed_ofList rfl) [isClosed_given, hborder.1]
    · simp (disch := exact isFree_ofList rfl) [isFree_given, hborder.2]
  rw [usedHelpers_plainCall (isFree_ofList rfl), usedHelpers_lines_cons,
    usedHelpers_named (isFree_ofList rfl), usedHelpers_call, hpainter, hargs]
  rfl

/-- A tile is opened by itself with a helper. -/
theorem usedHelpers_mediaCode (p : MediaProps) {content : Expr}
    (h : usedHelpers content.tokens = []) : usedHelpers (mediaCode p content).tokens =
      if opensByItself p then [.autoplay] else [] := by
  have hlaunch := usedHelpers_of_avoids (isClosed_launchCode p.url) (avoids_launchCode p.url)
  have htile : usedHelpers (Expr.call "GestureDetector"
      [.named "onTap" (launchCode p.url), .named "child" content]).tokens = [] := by
    rw [usedHelpers_plainCall (isFree_ofList rfl), usedHelpers_lines_cons, usedHelpers_lines_cons,
      usedHelpers_named (isFree_ofList rfl), usedHelpers_named (isFree_ofList rfl), hlaunch, h]
    rfl
  have hurl : usedHelpers (Expr.literal (Text.trimBlank p.url)).tokens = [] :=
    usedHelpers_of_avoids (by simp) (by simp)
  unfold mediaCode
  extract_lets tile
  by_cases hself : opensByItself p
  · rw [if_pos hself, if_pos hself, usedHelpers_call, usedHelpers_className, usedHelpers_lines_cons,
      usedHelpers_lines_cons, usedHelpers_named (isFree_ofList rfl),
      usedHelpers_named (isFree_ofList rfl), hurl, htile]
    rfl
  · rw [if_neg hself, if_neg hself]
    exact htile

theorem usedHelpers_videoCode (p : MediaProps) : usedHelpers (videoCode p).tokens =
    if opensByItself p then [.autoplay] else [] := usedHelpers_mediaCode p rfl

theorem usedHelpers_audioCode (p : MediaProps) : usedHelpers (audioCode p).tokens =
    if opensByItself p then [.autoplay] else [] := usedHelpers_mediaCode p rfl

/-! ### Navigation bars -/

/-- Raw code behind the name of a field of the state. -/
theorem usedHelpers_visible {code : String} (h : isFree '_' code) :
    usedHelpers (tokens ("_sidebarVisible" ++ (" " ++ code)).toList) = [] := by
  have hname : usedHelpers (tokens "_sidebarVisible".toList) = [] := rfl
  have hcode : usedHelpers (tokens (" " ++ code).toList) = [] := by
    refine usedHelpers_of_isFree ?_
    simpa using ⟨isFree_ofList rfl, h⟩
  have hblank : (" " ++ code).toList = ' ' :: code.toList := by simp
  rw [hblank] at hcode
  rw [String.toList_append, hblank, tokens_append_cons rfl (by decide), usedHelpers_append, hname,
    hcode]
  rfl

section

variable (around : Surroundings)

theorem usedHelpers_sidebarPanel (rect : Rect .canvas) (p : SidebarProps) :
    usedHelpers (sidebarPanel around rect p).tokens = [] := by
  -- Where the panel slides to is asked of a field, whose name starts as those of helpers do.
  have hleft : usedHelpers (tokens
      ("_sidebarVisible ? " ++ width rect.x ++ " : -(" ++ width rect.w ++ ")").toList) = [] := by
    have hrest : isFree '_' ("? " ++ width rect.x ++ " : -(" ++ width rect.w ++ ")") := by
      simp (disch := exact isFree_ofList rfl) [isFree_given]
    have hvisible := usedHelpers_visible hrest
    simpa [String.append_assoc] using hvisible
  -- Nothing else in the panel has an underscore: all texts in it are quoted.
  have hentries : Expr.allAvoid '_' (p.items.map (sidebarEntry around p)) := by
    refine Expr.allAvoid_iff.mpr ?_
    intro e he
    obtain ⟨item, -, rfl⟩ := List.mem_map.mp he
    have hhandler : (sidebarHandler (around.routes.path? item.targetScreen)).avoids '_' := by
      cases around.routes.path? item.targetScreen <;>
        simp (disch := exact isFree_ofList rfl) [isFree_given, sidebarHandler, replacePieces]
    simp (disch := exact isFree_ofList rfl) [isFree_given, sidebarEntry, avoids_textWidget,
      colorArg, hhandler]
  have htitle : (sidebarTitle p).avoids '_' := by
    simp (disch := exact isFree_ofList rfl) [isFree_given, sidebarTitle, avoids_textWidget,
      ellipsisArg, colorArg, boldArg]
  have hclosed := areClosed_sidebarCode around rect p
  simp only [sidebarCode, sidebarPanel, Expr.areClosed, Expr.isClosed, Bool.and_eq_true] at hclosed
  have hduration : usedHelpers
      (Expr.named "duration" "const Duration(milliseconds: 250)").tokens = [] := rfl
  rw [sidebarPanel, usedHelpers_plainCall (isFree_ofList rfl), usedHelpers_lines_cons,
    usedHelpers_lines_cons, hduration, usedHelpers_named (isFree_ofList rfl), usedHelpers_code,
    hleft]
  refine usedHelpers_of_allAvoid ?_ ?_
  · simp only [Expr.areClosed, Expr.isClosed, Bool.and_eq_true]
    exact hclosed.1.2.2.2
  · simp (disch := exact isFree_ofList rfl) [isFree_given, colorArg, htitle, hentries]

theorem usedHelpers_sidebarToggle (rect : Rect .canvas) (p : SidebarProps) :
    usedHelpers (sidebarToggle rect p).tokens = [] := by
  have hcolor : usedHelpers (tokens
      ("_sidebarVisible ? " ++ constColor p.textColor ++ " : Colors.black87").toList) = [] := by
    have hrest : isFree '_' ("? " ++ constColor p.textColor ++ " : Colors.black87") := by
      simp (disch := exact isFree_ofList rfl) [isFree_given]
    have hvisible := usedHelpers_visible hrest
    simpa [String.append_assoc] using hvisible
  have hicon : usedHelpers
      (Expr.named "icon" "Icon(_sidebarVisible ? Icons.close : Icons.menu)").tokens = [] := rfl
  have hpressed : usedHelpers (Expr.lineTokens [.named "onPressed"
      "() => setState(() => _sidebarVisible = !_sidebarVisible)"]) = [] := rfl
  rw [sidebarToggle, usedHelpers_plainCall (isFree_ofList rfl), usedHelpers_lines_cons,
    usedHelpers_lines_cons, usedHelpers_lines_cons, usedHelpers_named (isFree_ofList rfl),
    usedHelpers_named (isFree_ofList rfl), usedHelpers_named (isFree_ofList rfl), usedHelpers_code,
    usedHelpers_code, usedHelpers_of_isFree (isFree_underscore_width _),
    usedHelpers_of_isFree (isFree_underscore_height _), usedHelpers_plainCall (isFree_ofList rfl),
    usedHelpers_lines_cons, usedHelpers_lines_cons, hicon, usedHelpers_named (isFree_ofList rfl),
    usedHelpers_code, hcolor, hpressed]
  rfl

variable (p : BottomNavProps) (i : Nat) (item : NavItem)

theorem usedHelpers_number : usedHelpers [.word (toString i)] = [] := by
  rw [← tokens_toString]
  exact usedHelpers_of_isFree (isFree_of_isNumeral rfl (isNumeral_toString i))

theorem usedHelpers_tintCode : usedHelpers (tokens (tintCode p i).toList) = [] := by
  have hcons (ts : List Token) : usedHelpers (indexName :: .symbol '=' :: .symbol '=' ::
      .word (toString i) :: .symbol '?' :: ts) = usedHelpers ts := by
    show usedHelpers ([.word (toString i)] ++ .symbol '?' :: ts) = _
    rw [usedHelpers_append, usedHelpers_number, usedHelpers_symbol, List.nil_append]
  rw [tokens_tintCode, hcons, usedHelpers_append, usedHelpers_symbol,
    usedHelpers_of_isFree (isFree_underscore_constColor _),
    usedHelpers_of_isFree (isFree_underscore_constColor _)]
  rfl

theorem usedHelpers_bottomHandler (path : Option String) :
    usedHelpers (bottomHandler i path).tokens = [] := by
  cases path with
  | none => rfl
  | some path =>
      have hset : usedHelpers (tokens (writePieces
          [.raw ("setState(() => _navIndex = " ++ toString i ++ ")")])) = [] := by
        rw [writePieces, List.flatMap_cons, List.flatMap_nil, List.append_nil, Piece.write,
          tokens_setCode]
        show usedHelpers ([.word (toString i)] ++ [.symbol ')']) = _
        rw [usedHelpers_append, usedHelpers_number]
        rfl
      have hreplace : usedHelpers (tokens (writePieces (replacePieces path))) = [] :=
        usedHelpers_eq_nil fun helper => word_not_mem_tokens_writePieces (by decide)
          (underscore_mem_className helper) (all_isWhole_of_closes (closes_replacePieces path)) rfl
      rw [bottomHandler, Expr.tokens, List.flatMap_cons, List.flatMap_cons, List.flatMap_nil,
        List.append_nil]
      simp only [List.cons_append, usedHelpers_symbol, usedHelpers_append, hset, hreplace]
      rfl

theorem usedHelpers_iconCode : usedHelpers (tokens ("Icons." ++ iconName item).toList) = [] := by
  have known : ("circle" :: knownIcons).all (fun icon =>
      (helperOf? (.word icon)).isNone) = true := rfl
  have hicon := List.all_eq_true.mp known _ (mem_iconName item)
  rw [Option.isNone_iff_eq_none] at hicon
  rw [tokens_iconCode]
  show usedHelpers [.word (iconName item)] = []
  rw [usedHelpers, List.filterMap_cons, hicon]
  rfl

theorem usedHelpers_bottomEntry : usedHelpers (bottomEntry around p i item).tokens = [] := by
  have htext : usedHelpers (Expr.literal item.text).tokens = [] :=
    usedHelpers_of_avoids (by simp) (by simp)
  have hsize : usedHelpers (fontSizeArg bottomFontSize).tokens = [] :=
    usedHelpers_of_avoids (isClosed_fontSizeArg _) (avoids_underscore_fontSizeArg _)
  rw [bottomEntry_eq, entryArgs]
  simp (disch := exact isFree_ofList rfl) only [entryContent, entryIcon, entryLabel, textWidget,
    usedHelpers_plainCall, usedHelpers_named, usedHelpers_list, usedHelpers_lines_cons,
    usedHelpers_lines_nil, usedHelpers_code, usedHelpers_of_isFree, usedHelpers_bottomHandler,
    usedHelpers_iconCode, usedHelpers_tintCode, htext, hsize, List.append_nil]

theorem usedHelpers_bottomNavCode (rect : Rect .canvas) :
    usedHelpers (positioned rect (bottomNavCode around p)).tokens = [] := by
  obtain ⟨front, back, hbar⟩ := surrounds_barAround rect p
  have hentries : usedHelpers (Expr.lineTokens (p.items.mapIdx (bottomEntry around p))) = [] := by
    rw [usedHelpers_lines, List.flatMap_eq_nil_iff]
    intro e he
    obtain ⟨i, hi, rfl⟩ := List.mem_mapIdx.mp he
    exact usedHelpers_bottomEntry around p i _
  have hempty : usedHelpers (barAround rect p []).tokens = [] :=
    usedHelpers_eq_nil fun helper =>
      word_not_mem_barAround (by decide) (underscore_mem_className helper) rect p
  rw [hbar, usedHelpers_append, usedHelpers_append, List.append_eq_nil_iff,
    List.append_eq_nil_iff] at hempty
  show usedHelpers (barAround rect p (p.items.mapIdx (bottomEntry around p))).tokens = []
  rw [hbar, usedHelpers_append, usedHelpers_append, hempty.1, hentries, hempty.2.2]
  rfl

end

/-! ### Elements -/

theorem usedHelpers_positioned (rect : Rect .canvas) (child : Expr) :
    usedHelpers (positioned rect child).tokens = usedHelpers child.tokens := by
  simp (disch := first | exact isFree_ofList rfl | simp) only [positioned, usedHelpers_plainCall,
    usedHelpers_named, usedHelpers_lines_cons, usedHelpers_lines_nil, usedHelpers_code,
    usedHelpers_of_isFree, List.append_nil, List.nil_append]

/-- The code of an element names the helper that its widget needs, and no other. -/
theorem usedHelpers_elementCode (around : Surroundings) (element : Element) :
    usedHelpers (Expr.lineTokens (elementCode around element)) =
      (helper? element.widget).toList := by
  -- Placing a widget adds nothing to what its own code uses.
  have hplaced {child : Expr} {used : List Helper} (h : usedHelpers child.tokens = used) :
      usedHelpers (Expr.lineTokens [positioned element.rect child]) = used := by
    rw [usedHelpers_lines_cons, usedHelpers_positioned, h, usedHelpers_lines_nil, List.append_nil]
  have hplain {child : Expr} (hclosed : child.isClosed) (h : child.avoids '_') :
      -- Code without an underscore outside of literals can name no helper, as all their names start
      -- with one.
      usedHelpers (Expr.lineTokens [positioned element.rect child]) = [] :=
    hplaced (usedHelpers_of_avoids hclosed h)
  unfold elementCode
  cases element.widget with
  | label p => exact hplain (isClosed_labelCode p) (avoids_labelCode p)
  | paragraph p => exact hplain (isClosed_paragraphCode p) (avoids_paragraphCode p)
  | inputText p => exact hplaced (usedHelpers_hintedCode _ _ _)
  | inputDate p => exact hplaced (usedHelpers_hintedCode _ _ _)
  | button p => exact hplain (isClosed_buttonCode p) (avoids_buttonCode p)
  | link p => exact hplain (isClosed_linkCode p) (avoids_linkCode p)
  | table p => exact hplain (isClosed_tableCode p) (avoids_tableCode p)
  | checkbox p => exact hplaced (usedHelpers_checkboxCode p)
  | selector p => exact hplaced (usedHelpers_selectorCode p)
  | sidebar p =>
      show usedHelpers (Expr.lineTokens
        [sidebarPanel around element.rect p, sidebarToggle element.rect p]) = []
      rw [usedHelpers_lines_cons, usedHelpers_lines_cons, usedHelpers_sidebarPanel,
        usedHelpers_sidebarToggle]
      rfl
  | bottomNav p =>
      show usedHelpers (Expr.lineTokens [positioned element.rect (bottomNavCode around p)]) = []
      rw [usedHelpers_lines_cons, usedHelpers_bottomNavCode]
      rfl
  | rectangle p => exact hplain (isClosed_rectangleCode p) (avoids_rectangleCode p)
  | ellipse p => exact hplaced (usedHelpers_ellipseCode p)
  | image p => exact hplaced (usedHelpers_imageCode p)
  | video p =>
      refine (hplaced (usedHelpers_videoCode p)).trans ?_
      rw [helper?]
      split <;> rfl
  | audio p =>
      refine (hplaced (usedHelpers_audioCode p)).trans ?_
      rw [helper?]
      split <;> rfl
  | unknown tag props => exact hplain (isClosed_placeholderCode tag) (avoids_placeholderCode tag)

/-- Expressions with a comma and a line break between them. -/
theorem usedHelpers_intercalate {es : List Expr} (h : Expr.areClosed es) :
    usedHelpers (tokens (String.intercalate ",\n" (es.map Expr.text)).toList) =
      usedHelpers (Expr.lineTokens es) := by
  induction es with
  | nil => rfl
  | cons e rest ih =>
      rw [Expr.areClosed, Bool.and_eq_true] at h
      have hwhole := Expr.isWhole_of_isClosed e h.1
      have htext : usedHelpers (tokens e.text.toList) = usedHelpers e.tokens := by
        rw [Expr.tokens_text hwhole]
      cases rest with
      | nil =>
          rw [List.map_singleton, String.intercalate_singleton, htext, usedHelpers_lines_cons,
            usedHelpers_lines_nil, List.append_nil]
      -- The expressions are read apart because a comma and a break leave no word open.
      | cons next others =>
          have hafter : Mode.code.after e.text.toList = .code := by
            rw [Expr.text, String.toList_ofList]
            exact (Expr.alike_write e hwhole 0).left
          have hbreak : ",\n".toList = [',', '\n'] := rfl
          have hblank (cs : List Char) : tokens ('\n' :: cs) = tokens cs := rfl
          rw [List.map_cons, List.map_cons, String.intercalate_cons_cons, String.toList_append,
            String.toList_append, hbreak, List.append_assoc, List.cons_append, List.cons_append,
            List.nil_append, tokens_around hafter (by decide) (by decide) (by decide), hblank,
            usedHelpers_append, usedHelpers_symbol, htext, ← List.map_cons, ih h.2,
            ← usedHelpers_lines_cons]

theorem usedHelpers_fragmentOf (around : Surroundings) (element : Element) :
    usedHelpers (tokens (fragmentOf around element).text.toList) =
      (helper? element.widget).toList := by
  rw [Fragment.text, fragmentOf, usedHelpers_intercalate (areClosed_elementCode around element),
    usedHelpers_elementCode]

end Wireframe.App
