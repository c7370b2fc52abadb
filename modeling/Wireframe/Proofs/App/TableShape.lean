/-
The shape of tables.

All rows of a generated table have as many cells as the table has columns, and each column has one
width: a table whose rows differ in length cannot be shown.  A table without columns is an empty
box.

* `rowsShown`, `widthKeys` — the rows and the widths of a table, read from its code;
* `shown_rowArgs`, `rowsShown_tableCode` — what is read of rows;
* `keys_widths`, `widthKeys_tableCode` — what is read of widths;
* `tableCode_shape` — every generated table is regular.
-/
import Wireframe.Proofs.App.RareCharacters
import Wireframe.Proofs.Dart.Groups

namespace Wireframe.App

open Dart Design

/-! ### What is read of a table -/

/-- What the cells of the rows of a table say: for each row the lists of its cells, and for each
cell its texts. -/
def rowsShown (code : List Token) : List (List (List (List String))) :=
  (groups "TableRow(" code).map fun row => (listArguments "children" row).map (·.map texts)

example : rowsShown (tokens "TableRow(children: [Text('a'), Text('')])".toList) =
    [[[["a"], [""]]]] := by decide +kernel

/-- The columns for which widths are given, in each table. -/
def widthKeys (code : List Token) : List (List (List Token)) :=
  (groups "columnWidths: const <int, TableColumnWidth>\x7b" code).map fun widths =>
    (entries widths).map (·.takeWhile (· ≠ .symbol ':'))

/-! ### Rows -/

/-- The arguments of a row. -/
def rowArgs (columns : Nat) (fontSize : Float) (header : Option Color) (texts : List String) :
    List Expr :=
  (match header with
    | some c => [.named "decoration" ("const BoxDecoration(color: " ++ colorCode c ++ ")")]
    | none => []) ++
    [.named "children" (.list ((regular columns texts).map (cellCode fontSize header.isSome)))]

theorem rowCode_eq (columns : Nat) (fontSize : Float) (header : Option Color)
    (texts : List String) :
    rowCode columns fontSize header texts =
      .call "TableRow" (rowArgs columns fontSize header texts) := rfl

theorem areClosed_cells (fontSize : Float) (bold : Bool) (texts : List String) :
    Expr.areClosed (texts.map (cellCode fontSize bold)) := by
  refine Expr.areClosed_iff.mpr ?_
  intro e he
  obtain ⟨text, -, rfl⟩ := List.mem_map.mp he
  exact isClosed_cellCode fontSize bold text

theorem isEntry_cellCode (fontSize : Float) (bold : Bool) (text : String) :
    IsEntry (cellCode fontSize bold text).tokens := by
  have hclosed := isClosed_cellCode fontSize bold text
  have hhead : tokens "Padding".toList = [.word "Padding"] := rfl
  rw [cellCode, Expr.isClosed, Bool.and_eq_true] at hclosed
  rw [cellCode, Expr.tokens, hhead]
  exact .cons (by decide) rfl (.wrap .round (Expr.level_lineTokens hclosed.2))

/-- A cell shows its text. -/
theorem texts_cellCode (fontSize : Float) (bold : Bool) (text : String) :
    texts (cellCode fontSize bold text).tokens = [text] := by
  rw [Expr.texts_tokens _ (avoids_cellCode (by decide) fontSize bold text)]
  cases bold <;> rfl

/-- The colour of the headers. -/
theorem isEntry_decoration (color : Color) :
    IsEntry (Expr.named "decoration"
      ("const BoxDecoration(color: " ++ colorCode color ++ ")")).tokens := by
  have hlabel : tokens "decoration".toList = [.word "decoration"] := rfl
  have hclosed : isClosed ("const BoxDecoration(color: " ++ colorCode color ++ ")") :=
    isClosed_around rfl (isClosed_colorCode color)
  have hcolor : isFree ',' (colorCode color) := isFree_colorCode (by decide) color
  have hcomma : isFree ',' ("const BoxDecoration(color: " ++ colorCode color ++ ")") := by
    simp (disch := exact isFree_ofList rfl) [isFree_given, hcolor]
  have hcode := IsEntry.code hclosed hcomma
  rw [Expr.tokens, hlabel, Expr.tokens_code]
  exact .cons (by decide) rfl (.cons (by decide) rfl hcode)

/-- A row has one list of cells. -/
theorem listArguments_rowArgs (columns : Nat) (fontSize : Float) (header : Option Color)
    (row : List String) :
    listArguments "children" (Expr.lineTokens (rowArgs columns fontSize header row)) =
      [((regular columns row).map (cellCode fontSize header.isSome)).map Expr.tokens] := by
  have hlabel : tokens "children".toList = [.word "children"] := rfl
  have hdecoration : tokens "decoration".toList = [.word "decoration"] := rfl
  have hclosed := areClosed_cells fontSize header.isSome (regular columns row)
  -- The cells are separated by commas at one level, so each is an entry of its own.
  have hcells : ∀ cell ∈ (regular columns row).map (cellCode fontSize header.isSome),
      IsEntry cell.tokens := by
    intro cell hcell
    obtain ⟨text, -, rfl⟩ := List.mem_map.mp hcell
    exact isEntry_cellCode _ _ _
  have hentry := Expr.isEntry_list hlabel hclosed
  have hlist := Expr.listArgument?_list hlabel hclosed hcells
  cases header with
  | none =>
      have hargs : ∀ e ∈ rowArgs columns fontSize none row, IsEntry e.tokens := by
        simpa [rowArgs] using hentry
      rw [listArguments, Expr.entries_lineTokens hargs]
      exact List.filterMap_cons_some hlist
  -- A header has a decoration as well, under another name than the one that is looked for.
  | some color =>
      have hargs : ∀ e ∈ rowArgs columns fontSize (some color) row, IsEntry e.tokens := by
        simpa [rowArgs] using ⟨isEntry_decoration color, hentry⟩
      have hother (value : Expr) :
          listArgument? "children" (Expr.named "decoration" value).tokens = none := by
        rw [Expr.tokens, hdecoration]
        exact listArgument?_word_of_ne (by decide) _
      rw [listArguments, Expr.entries_lineTokens hargs]
      exact (List.filterMap_cons_none (hother _)).trans (List.filterMap_cons_some hlist)

/-- What the cells of a row show. -/
theorem shown_rowArgs (columns : Nat) (fontSize : Float) (header : Option Color)
    (row : List String) :
    (listArguments "children" (Expr.lineTokens (rowArgs columns fontSize header row))).map
        (·.map texts) =
      [(List.range columns).map fun i => [row.getD i ""]] := by
  rw [listArguments_rowArgs, regular]
  simp only [List.map_cons, List.map_nil, List.map_map]
  refine congrArg (fun cells => [cells]) (List.map_congr_left fun i _ => ?_)
  exact texts_cellCode _ _ _

/-- The arguments of the rows of a table. -/
def rowsArgs (p : TableProps) (columns : Nat) : List (List Expr) :=
  (if p.headers.isEmpty then [] else [rowArgs columns p.fontSize (some p.headerColor) p.headers]) ++
    p.rows.map (rowArgs columns p.fontSize none)

theorem rowsCode_eq (p : TableProps) (columns : Nat) :
    rowsCode p columns = (rowsArgs p columns).map (.call "TableRow") := by
  unfold rowsCode rowsArgs
  split <;> simp [rowCode_eq, Function.comp_def]

theorem allAvoid_cells {c : Char} (hc : c ∈ rare) (fontSize : Float) (bold : Bool)
    (texts : List String) : Expr.allAvoid c (texts.map (cellCode fontSize bold)) := by
  refine Expr.allAvoid_iff.mpr ?_
  intro e he
  obtain ⟨text, -, rfl⟩ := List.mem_map.mp he
  exact avoids_cellCode hc fontSize bold text

theorem allAvoid_rowArgs {c : Char} (hc : c ∈ rare) (columns : Nat) (fontSize : Float)
    (header : Option Color) (row : List String) :
    Expr.allAvoid c (rowArgs columns fontSize header row) := by
  have hcells := allAvoid_cells hc fontSize header.isSome (regular columns row)
  cases header with
  | none =>
      simp (disch := exact isFree_ofList_of_mem hc rfl) [isFree_given, rowArgs] at hcells ⊢
      exact hcells
  | some color =>
      have hcolor := isFree_colorCode hc color
      simp (disch := exact isFree_ofList_of_mem hc rfl) [isFree_given, rowArgs, hcolor] at hcells ⊢
      exact hcells

theorem areClosed_rowArgs (columns : Nat) (fontSize : Float) (header : Option Color)
    (row : List String) : Expr.areClosed (rowArgs columns fontSize header row) := by
  have hclosed := isClosed_rowCode columns fontSize header row
  rw [rowCode_eq, Expr.isClosed, Bool.and_eq_true] at hclosed
  exact hclosed.2

/-! ### Widths -/

/-- The code of the width of a column. -/
def widthEntry (p : TableProps) (columns i : Nat) : String :=
  toString i ++ ": FractionColumnWidth(" ++ fraction (columnWidth p columns i) ++ ")"

theorem widthsCode_eq (p : TableProps) (columns : Nat) :
    widthsCode p columns = "const <int, TableColumnWidth>\x7b" ++
      String.intercalate ", " ((List.range columns).map (widthEntry p columns)) ++ "\x7d" := rfl

theorem isClosed_widthEntry (p : TableProps) (columns i : Nat) :
    isClosed (widthEntry p columns i) := by
  have hwidth : isClosed (": FractionColumnWidth(" ++ fraction (columnWidth p columns i) ++ ")") :=
    isClosed_around rfl (isClosed_fraction _)
  simpa only [widthEntry, String.append_assoc] using isClosed_append (isClosed_toString i) hwidth

theorem tokens_widthEntry (p : TableProps) (columns i : Nat) :
    tokens (widthEntry p columns i).toList =
      .word (toString i) :: .symbol ':' :: .word "FractionColumnWidth" :: .symbol '(' ::
        (tokens (fraction (columnWidth p columns i)).toList ++ [.symbol ')']) := by
  have hnumber := (isWhole_iff.mp (isWhole_of_isClosed (isClosed_toString i))).1
  have hfraction :=
    (isWhole_iff.mp (isWhole_of_isClosed (isClosed_fraction (columnWidth p columns i)))).1
  have hname : Mode.code.after " FractionColumnWidth".toList = .code := by decide
  have htokens : tokens " FractionColumnWidth".toList = [.word "FractionColumnWidth"] := rfl
  have hsplit : (widthEntry p columns i).toList = (toString i).toList ++ ':' ::
      (" FractionColumnWidth".toList ++ '(' ::
        ((fraction (columnWidth p columns i)).toList ++ ')' :: [])) := by
    simp [widthEntry]
  rw [hsplit, tokens_around hnumber (by decide) (by decide) (by decide),
    tokens_around hname (by decide) (by decide) (by decide),
    tokens_around hfraction (by decide) (by decide) (by decide), tokens_toString, htokens]
  rfl

theorem tokens_intercalate {first : String} {others : List String}
    (h : ∀ part ∈ first :: others, isWhole part) :
    tokens (String.intercalate ", " (first :: others)).toList =
      tokens first.toList ++ others.flatMap fun part => .symbol ',' :: tokens part.toList := by
  induction others generalizing first with
  | nil => simp
  | cons next others ih =>
      have hrest := ih fun part hpart => h part (List.mem_cons_of_mem first hpart)
      have hcomma : ", ".toList = [',', ' '] := rfl
      rw [String.intercalate_cons_cons, String.toList_append, String.toList_append, hcomma,
        List.append_assoc, List.cons_append, tokens_append_of_isWhole (h first List.mem_cons_self)
          (by decide), tokens_cons (by decide) (by decide) (by decide), List.flatMap_cons]
      simp only [List.nil_append, List.cons_append]
      rw [← hrest]
      rfl

theorem isClosed_widthEntries (p : TableProps) (columns : Nat) :
    isClosed (String.intercalate ", " ((List.range columns).map (widthEntry p columns))) := by
  refine isClosed_intercalate (by decide) ?_
  intro part hpart
  obtain ⟨i, -, rfl⟩ := List.mem_map.mp hpart
  exact isClosed_widthEntry p columns i

/-- What stands in front of the widths. -/
def mapHead : List Token :=
  [.word "const", .symbol '<', .word "int", .symbol ',', .word "TableColumnWidth", .symbol '>',
    .symbol '\x7b']

/-- The widths stand between the braces of a map. -/
theorem tokens_widthsCode (p : TableProps) {columns : Nat} :
    tokens (widthsCode p columns).toList =
      mapHead ++ tokens (String.intercalate ", "
        ((List.range columns).map (widthEntry p columns))).toList ++ [.symbol '\x7d'] := by
  have hinner := isWhole_of_isClosed (isClosed_widthEntries p columns)
  have hhead : Mode.code.after "const <int, TableColumnWidth>".toList = .code := by decide
  have htokens : tokens "const <int, TableColumnWidth>".toList = [.word "const", .symbol '<',
      .word "int", .symbol ',', .word "TableColumnWidth", .symbol '>'] := rfl
  have hsplit : (widthsCode p columns).toList = "const <int, TableColumnWidth>".toList ++ '\x7b' ::
      ((String.intercalate ", " ((List.range columns).map (widthEntry p columns))).toList ++
        '\x7d' :: []) := by
    simp [widthsCode_eq]
  rw [hsplit, tokens_around hhead (by decide) (by decide) (by decide),
    tokens_around (isWhole_iff.mp hinner).1 (by decide) (by decide) (by decide), htokens]
  simp [mapHead]

theorem isFree_widthEntries (p : TableProps) (columns : Nat) {c : Char}
    (hc : c ∈ ['_', 'R', 's']) :
    isFree c (String.intercalate ", " ((List.range columns).map (widthEntry p columns))) := by
  have hall : ['_', 'R', 's'].all (!isNumeral ·) = true := rfl
  have hnumeral : isNumeral c = false := by simpa using List.all_eq_true.mp hall c hc
  have hname : isFree c ": FractionColumnWidth(" := isFree_ofList_of_mem hc rfl
  have hclosing : isFree c ")" := isFree_ofList_of_mem hc rfl
  refine isFree_intercalate (isFree_ofList_of_mem hc rfl) ?_
  intro part hpart
  obtain ⟨i, -, rfl⟩ := List.mem_map.mp hpart
  rw [widthEntry, isFree_append, isFree_append, isFree_append, hname, hclosing,
    isFree_of_isNumeral hnumeral (isNumeral_toString i),
    isFree_of_isNumeral hnumeral (isNumeral_fraction _)]
  rfl

/-- The columns with a width are all columns. -/
theorem keys_widths (p : TableProps) {columns : Nat} (h : columns ≠ 0) :
    (entries (tokens (String.intercalate ", "
        ((List.range columns).map (widthEntry p columns))).toList)).map
        (·.takeWhile (· ≠ .symbol ':')) =
      (List.range columns).map fun i => [.word (toString i)] := by
  -- An entry has no comma at its own level, whatever its fraction looks like.
  have hentry (i : Nat) : IsEntry (tokens (widthEntry p columns i).toList) ∧
      tokens (widthEntry p columns i).toList ≠ [] := by
    have hfraction := level_tokens (.of_isClosed (isClosed_fraction (columnWidth p columns i)))
    rw [tokens_widthEntry]
    exact ⟨.cons (by simp) rfl (.cons (by decide) rfl (.cons (by decide) rfl
      (.wrap .round hfraction))), List.cons_ne_nil _ _⟩
  -- The key is what stands before the colon.
  have hkey (i : Nat) :
      (tokens (widthEntry p columns i).toList).takeWhile (· ≠ .symbol ':') =
        [.word (toString i)] := by
    rw [tokens_widthEntry]
    simp
  cases hrange : List.range columns with
  | nil => exact absurd (List.range_eq_nil.mp hrange) h
  -- The entries of the list are its parts, as each of them is read on its own.
  | cons first others =>
      have hwhole : ∀ part ∈ (first :: others).map (widthEntry p columns), isWhole part := by
        intro part hpart
        obtain ⟨i, -, rfl⟩ := List.mem_map.mp hpart
        exact isWhole_of_isClosed (isClosed_widthEntry p columns i)
      have hentries : ∀ entry ∈ tokens (widthEntry p columns first).toList ::
          others.map (fun i => tokens (widthEntry p columns i).toList),
          IsEntry entry ∧ entry ≠ [] := by
        intro entry he
        rw [← List.map_cons (f := fun i => tokens (widthEntry p columns i).toList)] at he
        obtain ⟨i, -, rfl⟩ := List.mem_map.mp he
        exact hentry i
      have hfound := entries_separated hentries
      rw [List.flatMap_map] at hfound
      rw [List.map_cons, tokens_intercalate hwhole, List.flatMap_map, hfound, List.map_cons,
        List.map_cons, hkey, List.map_map]
      exact congrArg ([.word (toString first)] :: ·) (List.map_congr_left fun i _ => hkey i)

/-! ### Tables -/

/-- A table whose rows and widths fit its columns, read from its code. -/
structure IsRegular (columns : Nat) (p : TableProps) (code : List Token) : Prop where
  /-- Each row has one list of cells, one for each column: the texts of the row, filled up with
  empty texts or cut.  The headers are a row if there are any. -/
  rows : rowsShown code =
    (if p.headers = [] then p.rows else p.headers :: p.rows).map fun row =>
      [(List.range columns).map fun i => [row.getD i ""]]
  /-- Each column has one width. -/
  widths : widthKeys code = [(List.range columns).map fun i => [.word (toString i)]]

/-- The number of columns is the number of headers, or of texts in the longest row. -/
theorem columnCount_eq (p : TableProps) :
    columnCount p =
      if p.headers = [] then (p.rows.map List.length).max?.getD 0 else p.headers.length := by
  unfold columnCount
  rw [List.foldl_max, Nat.zero_max]
  simp only [List.isEmpty_iff]

/-- The lines of a table. -/
def borderArg : Expr := .named "border" ("TableBorder.all(color: " ++ constColor gridColor ++ ")")

/-- What stands in front of the widths of a table, between them and its rows, and behind these. -/
theorem tokens_tableCode {p : TableProps} (h : columnCount p ≠ 0) :
    (tableCode p).tokens =
      [.word "SingleChildScrollView", .symbol '(', .word "child", .symbol ':', .word "Table",
        .symbol '('] ++ borderArg.tokens ++ [.symbol ','] ++
      ([.word "columnWidths", .symbol ':'] ++ tokens (widthsCode p (columnCount p)).toList ++
      ([.symbol ',', .word "children", .symbol ':', .symbol '['] ++
      (Expr.lineTokens (rowsCode p (columnCount p)) ++
      [.symbol ']', .symbol ',', .symbol ')', .symbol ',', .symbol ')']))) := by
  have hscroll : tokens "SingleChildScrollView".toList = [.word "SingleChildScrollView"] := rfl
  have hchild : tokens "child".toList = [.word "child"] := rfl
  have htable : tokens "Table".toList = [.word "Table"] := rfl
  have hwidths : tokens "columnWidths".toList = [.word "columnWidths"] := rfl
  have hchildren : tokens "children".toList = [.word "children"] := rfl
  rw [tableCode, if_neg h]
  simp only [Expr.tokens, Expr.lineTokens, Expr.tokens_code, borderArg, hscroll, hchild, htable,
    hwidths, hchildren, List.append_assoc, List.cons_append, List.nil_append]

theorem word_not_mem_borderArg {name : String} (h : 'R' ∈ name.toList ∨ 'u' ∈ name.toList) :
    .word name ∉ borderArg.tokens := by
  have hclosed : borderArg.isClosed := by
    have hgrid : isClosed ("TableBorder.all(color: " ++ constColor gridColor ++ ")") :=
      isClosed_around rfl (isClosed_constColor gridColor)
    simp (disch := exact isClosed_ofList rfl) [isClosed_given, borderArg, hgrid]
  have havoid {c : Char} (hc : c ∈ rare) : borderArg.avoids c := by
    have hcolor := isFree_constColor hc gridColor
    simp (disch := exact isFree_ofList_of_mem hc rfl) [isFree_given, borderArg, hcolor]
  have hwhole := Expr.isWhole_of_isClosed _ hclosed
  rcases h with h | h
  · exact Expr.word_not_mem_tokens (by decide) h borderArg hwhole (havoid (by decide))
  · exact Expr.word_not_mem_tokens (by decide) h borderArg hwhole (havoid (by decide))

/-- What is read of the arguments of the rows. -/
theorem shown_rowsArgs (p : TableProps) (columns : Nat) :
    (rowsArgs p columns).map (fun args =>
        (listArguments "children" (Expr.lineTokens args)).map (·.map texts)) =
      (if p.headers = [] then p.rows else p.headers :: p.rows).map fun row =>
        [(List.range columns).map fun i => [row.getD i ""]] := by
  rw [rowsArgs, List.map_append, List.map_map]
  simp only [Function.comp_def, shown_rowArgs, List.isEmpty_iff]
  split_ifs <;> simp [shown_rowArgs]

theorem closed_and_avoid_of_mem_rowsArgs {p : TableProps} {columns : Nat} {c : Char} (hc : c ∈ rare)
    {args : List Expr} (h : args ∈ rowsArgs p columns) :
    Expr.areClosed args ∧ Expr.allAvoid c args := by
  have hrow (header : Option Color) (row : List String) :
      Expr.areClosed (rowArgs columns p.fontSize header row) ∧
        Expr.allAvoid c (rowArgs columns p.fontSize header row) :=
    ⟨areClosed_rowArgs _ _ _ _, allAvoid_rowArgs hc _ _ _ _⟩
  rcases List.mem_append.mp h with h | h
  · split_ifs at h
    · cases h
    · rw [List.mem_singleton.mp h]
      exact hrow _ _
  · obtain ⟨row, -, rfl⟩ := List.mem_map.mp h
    exact hrow _ _

/-- The rows that are read of a table are its headers and its rows. -/
theorem rowsShown_tableCode {p : TableProps} (h : columnCount p ≠ 0) :
    rowsShown (tableCode p).tokens =
      (if p.headers = [] then p.rows else p.headers :: p.rows).map fun row =>
        [(List.range (columnCount p)).map fun i => [row.getD i ""]] := by
  have hhead : tokens "TableRow".toList = [.word "TableRow"] := rfl
  have hstart : tokens "TableRow(".toList = [.word "TableRow", .symbol '('] := rfl
  -- No row has another row in it: what is shown in cells is quoted, and quoted texts are no words.
  have hrows : ∀ args ∈ rowsArgs p (columnCount p),
      Expr.areClosed args ∧ .word "TableRow" ∉ Expr.lineTokens args := by
    intro args hargs
    obtain ⟨hclosed, havoid⟩ := closed_and_avoid_of_mem_rowsArgs (c := 'R') (by decide) hargs
    exact ⟨hclosed, Expr.word_not_mem_lineTokens (by decide) (by decide) args
      (Expr.areWhole_of_areClosed args hclosed) havoid⟩
  -- Neither have the widths and the border before the rows, so that the groups are the rows alone.
  have hfree : isFree 'R' (widthsCode p (columnCount p)) := by
    have hentries := isFree_widthEntries p (columnCount p) (c := 'R') (by decide)
    simp (disch := exact isFree_ofList rfl) [isFree_given, widthsCode_eq, hentries]
  have hwidths : .word "TableRow" ∉ tokens (widthsCode p (columnCount p)).toList :=
    word_not_mem_of_isFree (by decide) hfree
  have hborder : .word "TableRow" ∉ borderArg.tokens := word_not_mem_borderArg (.inl (by decide))
  have hbehind : Token.word "TableRow" ∉
      [Token.symbol ']', .symbol ',', .symbol ')', .symbol ',', .symbol ')'] := by decide
  have hfound := Expr.groups_calls hhead hstart hrows hbehind
  -- Everything before the first row is skipped, and each group that is found is read as its cells.
  rw [rowsShown, ← shown_rowsArgs, tokens_tableCode h, rowsCode_eq,
    groups_append hstart (by simp [hborder]), groups_append hstart (by simp [hwidths]),
    groups_append hstart (by decide), hfound, List.map_map]
  rfl

theorem allAvoid_rowsCode {c : Char} (hc : c ∈ rare) (hhead : isFree c "TableRow")
    (p : TableProps) (columns : Nat) : Expr.allAvoid c (rowsCode p columns) := by
  rw [rowsCode_eq]
  refine Expr.allAvoid_iff.mpr ?_
  intro e he
  obtain ⟨args, hargs, rfl⟩ := List.mem_map.mp he
  rw [Expr.avoids, (closed_and_avoid_of_mem_rowsArgs hc hargs).2, hhead]
  rfl

theorem columnWidths_not_mem_rows (p : TableProps) (columns : Nat) :
    .word "columnWidths" ∉ Expr.lineTokens (rowsCode p columns) :=
  Expr.word_not_mem_lineTokens (c := 'u') (by decide) (by decide) _
    (Expr.areWhole_of_areClosed _ (areClosed_rowsCode p columns))
    (allAvoid_rowsCode (by decide) (isFree_ofList rfl) p columns)

/-- The widths that are read of a table are those of its columns. -/
theorem widthKeys_tableCode {p : TableProps} (h : columnCount p ≠ 0) :
    widthKeys (tableCode p).tokens =
      [(List.range (columnCount p)).map fun i => [.word (toString i)]] := by
  -- The map is the group behind the name of the argument, and the name occurs nowhere else.
  have hstart : tokens "columnWidths: const <int, TableColumnWidth>\x7b".toList =
      .word "columnWidths" :: .symbol ':' :: mapHead := rfl
  have hmore : Token.word "columnWidths" ∉ .symbol ':' :: mapHead := by decide
  have hborder : .word "columnWidths" ∉ borderArg.tokens :=
    word_not_mem_borderArg (.inr (by decide))
  have hentries : .word "columnWidths" ∉ tokens (String.intercalate ", "
      ((List.range (columnCount p)).map (widthEntry p (columnCount p)))).toList :=
    word_not_mem_of_isFree (by decide) (isFree_widthEntries p _ (c := 's') (by decide))
  have hlevel := level_tokens (.of_isClosed (isClosed_widthEntries p (columnCount p)))
  have hrows := columnWidths_not_mem_rows p (columnCount p)
  -- What follows the map in the code of the table; it has no second map.
  set behind := [.symbol ',', .word "children", .symbol ':', .symbol '['] ++
    (Expr.lineTokens (rowsCode p (columnCount p)) ++
    [.symbol ']', .symbol ',', .symbol ')', .symbol ',', .symbol ')']) with hbehind
  have hrest : Token.word "columnWidths" ∉ Token.symbol '\x7d' :: behind := by
    simp [hbehind, hrows]
  have hfound := groupsBehind_cons behind hmore hentries hlevel .curly
  rw [show Bracket.curly.closing = '\x7d' from rfl, groupsBehind_eq_nil _ hrest, hbehind]
    at hfound
  rw [widthKeys, tokens_tableCode h, tokens_widthsCode, groups_append hstart (by simp [hborder]),
    groups, hstart, ← keys_widths p h]
  simp only [List.append_assoc, List.cons_append, List.nil_append] at hfound ⊢
  rw [hfound]
  rfl

/-- Every table is regular: it has a column for each header, or for each text of the longest row if
there are no headers, and is an empty box if that makes none. -/
theorem tableCode_shape (p : TableProps) :
    let columns :=
      if p.headers = [] then (p.rows.map List.length).max?.getD 0 else p.headers.length
    if columns = 0 then (tableCode p).text = "const SizedBox.shrink()"
    else IsRegular columns p (tokens (tableCode p).text.toList) := by
  intro columns
  have hcount : columnCount p = columns := columnCount_eq p
  split_ifs with hcolumns
  · have hempty : tableCode p = .code "const SizedBox.shrink()" := by
      rw [tableCode, if_pos (hcount.trans hcolumns)]
    rw [hempty]
    decide +kernel
  · rw [← hcount] at hcolumns ⊢
    rw [Expr.tokens_text (Expr.isWhole_of_isClosed _ (isClosed_tableCode p))]
    exact ⟨rowsShown_tableCode hcolumns, widthKeys_tableCode hcolumns⟩

end Wireframe.App
