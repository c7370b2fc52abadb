/-
The raw code of widgets.

Every piece of raw code that a widget puts beside its texts closes the literals and the brackets that
it opens, whatever the properties of the widget are: the code holds names that are listed in the
library, numbers and colours, and everything that comes from a design goes through a piece that is
quoted.

* `isClosed_labelCode` to `isClosed_bottomNavCode` — one lemma for each kind of widget;
* `areClosed_elementCode` — the code of any element.
-/
import Wireframe.App.ScreenSource
import Wireframe.Proofs.Dart.RawCode

namespace Wireframe.App

open Dart Design

/-! ### Places and looks -/

@[simp] theorem isClosed_width (v : Float) : isClosed (width v) := by
  have hname : isClosed constraintsName := isClosed_ofList rfl
  have hfield : isClosed ".maxWidth * " := isClosed_ofList rfl
  exact isClosed_append (isClosed_append hname hfield) (isClosed_fraction v)

@[simp] theorem isClosed_height (v : Float) : isClosed (height v) := by
  have hname : isClosed constraintsName := isClosed_ofList rfl
  have hfield : isClosed ".maxHeight * " := isClosed_ofList rfl
  exact isClosed_append (isClosed_append hname hfield) (isClosed_fraction v)

@[simp] theorem isClosed_colorCode (c : Color) : isClosed (colorCode c) :=
  isClosed_around rfl (isClosed_hexColor c)

@[simp] theorem isClosed_constColor (c : Color) : isClosed (constColor c) := by
  have hconst : isClosed "const " := isClosed_ofList rfl
  exact isClosed_append hconst (isClosed_colorCode c)

@[simp] theorem isClosed_fontSizeArg (size : Float) : (fontSizeArg size).isClosed := by
  simp (disch := exact isClosed_ofList rfl) [isClosed_given, fontSizeArg]

@[simp] theorem isClosed_colorArg (c : Color) : (colorArg c).isClosed := by
  simp (disch := exact isClosed_ofList rfl) [isClosed_given, colorArg]

@[simp] theorem isClosed_boldArg : boldArg.isClosed := by decide

@[simp] theorem isClosed_ellipsisArg : ellipsisArg.isClosed := by decide

@[simp] theorem isClosed_positioned (rect : Rect .canvas) (child : Expr) :
    (positioned rect child).isClosed ↔ child.isClosed := by
  simp (disch := exact isClosed_ofList rfl) [isClosed_given, positioned]

@[simp] theorem isClosed_textStyle (size : Float) (c : Color) (more : List Expr) :
    (textStyle size c more).isClosed ↔ Expr.areClosed more := by
  simp (disch := exact isClosed_ofList rfl) [isClosed_given, textStyle]

@[simp] theorem isClosed_textWidget (text : String) (args : List Expr) :
    (textWidget text args).isClosed ↔ Expr.areClosed args := by
  simp (disch := exact isClosed_ofList rfl) [isClosed_given, textWidget]

@[simp] theorem isClosed_launchCode (url : String) : (launchCode url).isClosed := by
  unfold launchCode
  split
  · exact Expr.isClosed_code_ofList rfl
  · exact closes_between rfl _

/-! ### Widgets that need nothing beside them -/

@[simp] theorem isClosed_leftAligned (child : Expr) :
    (leftAligned child).isClosed ↔ child.isClosed := by
  simp (disch := exact isClosed_ofList rfl) [isClosed_given, leftAligned]

@[simp] theorem isClosed_labelCode (p : LabelProps) : (labelCode p).isClosed := by
  cases hb : p.bold <;> simp (disch := exact isClosed_ofList rfl) [isClosed_given, labelCode, hb]

@[simp] theorem isClosed_alignCode (align : TextAlign) : isClosed (alignCode align) := by
  cases align <;> decide

@[simp] theorem isClosed_paragraphCode (p : ParagraphProps) : (paragraphCode p).isClosed := by
  simp (disch := exact isClosed_ofList rfl) [isClosed_given, paragraphCode]

@[simp] theorem isClosed_linkCode (p : LinkProps) : (linkCode p).isClosed := by
  simp (disch := exact isClosed_ofList rfl) [isClosed_given, linkCode]

@[simp] theorem isClosed_roundedCorners (radius : Float) : (roundedCorners radius).isClosed := by
  have hradius : isClosed ("BorderRadius.circular(" ++ double radius ++ ")") :=
    isClosed_around rfl (isClosed_double radius)
  simp (disch := exact isClosed_ofList rfl) [isClosed_given, roundedCorners, hradius]

@[simp] theorem isClosed_buttonCode (p : ButtonProps) : (buttonCode p).isClosed := by
  simp (disch := exact isClosed_ofList rfl) [isClosed_given, buttonCode]

@[simp] theorem areClosed_borderArgs (p : ShapeProps) : Expr.areClosed (borderArgs p) := by
  unfold borderArgs
  split
  · rename_i c _
    have hbetween : isClosed ", width: " := isClosed_ofList rfl
    have hmiddle := isClosed_append (isClosed_append (isClosed_constColor c) hbetween)
      (isClosed_double p.borderWidth)
    have hborder : isClosed ("Border.all(color: " ++
        (constColor c ++ ", width: " ++ double p.borderWidth) ++ ")") := isClosed_around rfl hmiddle
    simp only [String.append_assoc] at hborder
    simp (disch := exact isClosed_ofList rfl) [isClosed_given, String.append_assoc, hborder]
  · rfl

@[simp] theorem isClosed_rectangleCode (p : ShapeProps) : (rectangleCode p).isClosed := by
  unfold rectangleCode
  split <;> simp (disch := exact isClosed_ofList rfl) [isClosed_given]

@[simp] theorem isClosed_imageCode (p : ImageProps) : (imageCode p).isClosed := by
  have hfit : isClosed (fitCode p.fit) := by cases p.fit <;> exact isClosed_ofList rfl
  unfold imageCode
  split <;> simp (disch := exact isClosed_ofList rfl) [isClosed_given, hfit]

@[simp] theorem isClosed_placeholderCode (tag : String) : (placeholderCode tag).isClosed := by
  have houtline : isClosed outlineColor := isClosed_ofList rfl
  have hborder : isClosed ("BoxDecoration(border: Border.all(color: const " ++ outlineColor ++
      "))") := isClosed_around rfl houtline
  have hstyle : isClosed ("const TextStyle(color: " ++ outlineColor ++ ")") :=
    isClosed_around rfl houtline
  simp (disch := exact isClosed_ofList rfl) [isClosed_given, placeholderCode, hborder, hstyle]

/-! ### Tables -/

@[simp] theorem isClosed_cellCode (fontSize : Float) (bold : Bool) (text : String) :
    (cellCode fontSize bold text).isClosed := by
  cases bold <;> simp (disch := exact isClosed_ofList rfl) [isClosed_given, cellCode]

@[simp] theorem isClosed_rowCode (columns : Nat) (fontSize : Float) (header : Option Color)
    (texts : List String) : (rowCode columns fontSize header texts).isClosed := by
  have hcells :
      Expr.areClosed ((regular columns texts).map (cellCode fontSize header.isSome)) := by
    refine Expr.areClosed_iff.mpr ?_
    intro e he
    obtain ⟨text, -, rfl⟩ := List.mem_map.mp he
    exact isClosed_cellCode fontSize _ text
  cases header with
  | none =>
      simp (disch := exact isClosed_ofList rfl) [isClosed_given, rowCode] at hcells ⊢
      exact hcells
  | some c =>
      have hcolor : isClosed ("const BoxDecoration(color: " ++ colorCode c ++ ")") :=
        isClosed_around rfl (isClosed_colorCode c)
      simp (disch := exact isClosed_ofList rfl) [isClosed_given, rowCode, hcolor] at hcells ⊢
      exact hcells

@[simp] theorem isClosed_widthsCode (p : TableProps) (columns : Nat) :
    isClosed (widthsCode p columns) := by
  have hcomma : isClosed ", " := isClosed_ofList rfl
  refine isClosed_around rfl (isClosed_intercalate hcomma ?_)
  intro part hpart
  obtain ⟨i, -, rfl⟩ := List.mem_map.mp hpart
  have hwidth : isClosed (": FractionColumnWidth(" ++ fraction (columnWidth p columns i) ++ ")") :=
    isClosed_around rfl (isClosed_fraction _)
  simpa only [String.append_assoc] using isClosed_append (isClosed_toString i) hwidth

theorem areClosed_rowsCode (p : TableProps) (columns : Nat) :
    Expr.areClosed (rowsCode p columns) := by
  have hrows : Expr.areClosed (p.rows.map (rowCode columns p.fontSize none)) := by
    refine Expr.areClosed_iff.mpr ?_
    intro e he
    obtain ⟨texts, -, rfl⟩ := List.mem_map.mp he
    exact isClosed_rowCode columns p.fontSize none texts
  unfold rowsCode
  split <;> simp [hrows]

@[simp] theorem isClosed_tableCode (p : TableProps) : (tableCode p).isClosed := by
  unfold tableCode
  extract_lets columns
  by_cases hcolumns : columns = 0
  · rw [if_pos hcolumns]
    exact Expr.isClosed_code_ofList rfl
  · rw [if_neg hcolumns]
    have hgrid : isClosed ("TableBorder.all(color: " ++ constColor gridColor ++ ")") :=
      isClosed_around rfl (isClosed_constColor gridColor)
    simp (disch := exact isClosed_ofList rfl) [isClosed_given, areClosed_rowsCode, hgrid]

/-! ### Fields, shapes and media -/

@[simp] theorem isClosed_className (helper : Helper) : isClosed helper.className := by
  cases helper <;> exact isClosed_ofList rfl

@[simp] theorem isClosed_hintedCode (helper : Helper) (placeholder : String) (fontSize : Float) :
    (hintedCode helper placeholder fontSize).isClosed := by
  simp (disch := exact isClosed_ofList rfl) [isClosed_given, hintedCode]

@[simp] theorem isClosed_checkboxCode (p : CheckboxProps) : (checkboxCode p).isClosed := by
  cases hc : p.checked <;>
    simp (disch := exact isClosed_ofList rfl) [isClosed_given, checkboxCode, hc]

theorem closes_literalPieces (texts : List String) : closes (literalPieces texts) := by
  induction texts with
  | nil => rfl
  | cons text rest ih =>
      cases rest with
      | nil => exact closes_quoted text
      | cons next others =>
          have hcomma : closes [.quoted text, .raw ", "] :=
            closes_append (closes_quoted text) (by rw [closes_raw]; exact isClosed_ofList rfl)
          exact closes_append hcomma ih

@[simp] theorem isClosed_selectorCode (p : SelectorProps) : (selectorCode p).isClosed := by
  have hoptions : closes (.raw "const <String>[" :: literalPieces (distinct p.options) ++
      [.raw "]"]) :=
    closes_around rfl (closes_literalPieces _)
  simp (disch := exact isClosed_ofList rfl) [isClosed_given, selectorCode] at hoptions ⊢
  exact hoptions

@[simp] theorem isClosed_ellipseCode (p : ShapeProps) : (ellipseCode p).isClosed := by
  unfold ellipseCode
  extract_lets border
  have hborder : Expr.areClosed border := by
    unfold border
    split <;> simp (disch := exact isClosed_ofList rfl) [isClosed_given]
  have hpainter : isClosed ("const " ++ Helper.ellipsePainter.className) :=
    isClosed_append (isClosed_ofList rfl) (isClosed_className _)
  simp (disch := exact isClosed_ofList rfl) [isClosed_given, hborder, hpainter]

theorem isClosed_mediaCode (p : MediaProps) {content : Expr} (h : content.isClosed) :
    (mediaCode p content).isClosed := by
  unfold mediaCode
  extract_lets tile
  have htile : tile.isClosed := by
    simp (disch := exact isClosed_ofList rfl) [isClosed_given, tile, h]
  by_cases hself : opensByItself p
  · rw [if_pos hself]
    simp (disch := exact isClosed_ofList rfl) [isClosed_given, htile]
  · rw [if_neg hself]
    exact htile

@[simp] theorem isClosed_videoCode (p : MediaProps) : (videoCode p).isClosed := by
  refine isClosed_mediaCode p ?_
  simp (disch := exact isClosed_ofList rfl) [isClosed_given]

@[simp] theorem isClosed_audioCode (p : MediaProps) : (audioCode p).isClosed := by
  refine isClosed_mediaCode p ?_
  have htitle : closes [.raw "Expanded(child: Text(", .quoted "Audio",
      .raw ", overflow: TextOverflow.ellipsis))"] := closes_between rfl "Audio"
  simp (disch := exact isClosed_ofList rfl) [isClosed_given, htitle]

/-! ### Navigation bars -/

section Navigation

variable (around : Surroundings)

@[simp] theorem closes_replacePieces (path : String) : closes (replacePieces path) :=
  closes_between rfl path

@[simp] theorem isClosed_sidebarHandler (path : Option String) :
    (sidebarHandler path).isClosed := by
  cases path with
  | none => exact Expr.isClosed_code_ofList rfl
  | some path =>
      have harrow : closes [.raw "() => "] := by
        rw [closes_raw]
        exact isClosed_ofList rfl
      exact closes_append harrow (closes_replacePieces path)

@[simp] theorem isClosed_sidebarTitle (p : SidebarProps) : (sidebarTitle p).isClosed := by
  simp (disch := exact isClosed_ofList rfl) [isClosed_given, sidebarTitle]

@[simp] theorem isClosed_sidebarEntry (p : SidebarProps) (item : NavItem) :
    (sidebarEntry around p item).isClosed := by
  simp (disch := exact isClosed_ofList rfl) [isClosed_given, sidebarEntry]

theorem areClosed_sidebarCode (rect : Rect .canvas) (p : SidebarProps) :
    Expr.areClosed (sidebarCode around rect p) := by
  have hitems : Expr.areClosed (p.items.map (sidebarEntry around p)) := by
    refine Expr.areClosed_iff.mpr ?_
    intro e he
    obtain ⟨item, -, rfl⟩ := List.mem_map.mp he
    exact isClosed_sidebarEntry around p item
  have hshift : isClosed (" : -(" ++ width rect.w ++ ")") :=
    isClosed_around rfl (isClosed_width rect.w)
  have hleft : isClosed ("_sidebarVisible ? " ++ width rect.x ++ " : -(" ++ width rect.w ++ ")") := by
    have hshown : isClosed ("_sidebarVisible ? " ++ width rect.x) :=
      isClosed_append (isClosed_ofList rfl) (isClosed_width rect.x)
    simpa only [String.append_assoc] using isClosed_append hshown hshift
  have hcolor : isClosed ("_sidebarVisible ? " ++ constColor p.textColor ++ " : Colors.black87") :=
    isClosed_append (isClosed_append (isClosed_ofList rfl) (isClosed_constColor _))
      (isClosed_ofList rfl)
  simp (disch := exact isClosed_ofList rfl) [isClosed_given, sidebarCode, sidebarPanel,
    sidebarToggle, hitems, hleft, hcolor]

@[simp] theorem isClosed_iconName (item : NavItem) : isClosed (iconName item) := by
  have known : ∀ icon ∈ knownIcons, isClosed icon := by
    simp (disch := exact isClosed_ofList rfl) [knownIcons, isClosed_given]
  unfold iconName
  cases hicon : item.icon.filter knownIcons.contains with
  | none => exact isClosed_ofList rfl
  | some icon =>
      have hmem := (Option.filter_eq_some_iff.mp hicon).2
      exact known icon (List.contains_iff_mem.mp hmem)

@[simp] theorem isClosed_bottomHandler (i : Nat) (path : Option String) :
    (bottomHandler i path).isClosed := by
  cases path with
  | none => exact Expr.isClosed_code_ofList rfl
  | some path =>
      have hset : isClosed ("setState(() => _navIndex = " ++ toString i ++ ")") :=
        isClosed_around rfl (isClosed_toString i)
      simp only [bottomHandler, Expr.isClosed, List.all_cons, List.all_nil, closes_raw, hset,
        closes_replacePieces, Bool.and_self]

@[simp] theorem isClosed_tintCode (p : BottomNavProps) (i : Nat) : isClosed (tintCode p i) := by
  have htest : isClosed ("_navIndex == " ++ toString i ++ " ? ") :=
    isClosed_append (isClosed_append (isClosed_ofList rfl) (isClosed_toString i))
      (isClosed_ofList rfl)
  have hcolon : isClosed " : " := isClosed_ofList rfl
  have hactive := isClosed_append (isClosed_append htest (isClosed_constColor p.activeColor)) hcolon
  exact isClosed_append hactive (isClosed_constColor _)

@[simp] theorem isClosed_bottomEntry (p : BottomNavProps) (i : Nat) (item : NavItem) :
    (bottomEntry around p i item).isClosed := by
  have hicon : isClosed ("Icons." ++ iconName item) :=
    isClosed_append (isClosed_ofList rfl) (isClosed_iconName item)
  simp (disch := exact isClosed_ofList rfl) [isClosed_given, bottomEntry, hicon]

@[simp] theorem isClosed_bottomNavCode (p : BottomNavProps) :
    (bottomNavCode around p).isClosed := by
  have hitems : Expr.areClosed (p.items.mapIdx (bottomEntry around p)) := by
    refine Expr.areClosed_iff.mpr ?_
    intro e he
    obtain ⟨i, hi, rfl⟩ := List.mem_mapIdx.mp he
    exact isClosed_bottomEntry around p i _
  simp (disch := exact isClosed_ofList rfl) [isClosed_given, bottomNavCode, hitems]

/-! ### Elements -/

/-- Whatever an element holds, its raw code closes what it opens. -/
theorem areClosed_elementCode (element : Element) :
    Expr.areClosed (elementCode around element) := by
  unfold elementCode
  cases element.widget with
  | sidebar p => exact areClosed_sidebarCode around element.rect p
  | _ => simp [inputTextCode, inputDateCode]

end Navigation

end Wireframe.App
