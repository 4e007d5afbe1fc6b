import ChomskyChart.Proofs.Alignment

namespace ChomskyChart

namespace Layout

theorem map_eq_self {α : Type} {f : α → α} {listed : List α}
    (hself : ∀ x ∈ listed, f x = x) :
    listed.map f = listed := by
  calc
    listed.map f = listed.map id := List.map_congr_left hself
    _ = listed := List.map_id listed

namespace Grid

def readWidth (lines : List (List Char)) : Nat :=
  (((lines.headD []).drop 1).takeWhile (· == '-')).length - 2

def readColumns (width : Nat) (line : List Char) : List (List Char) :=
  (List.range ((line.length - 1) / (width + 3))).map fun index =>
    (line.drop (index * (width + 3) + 1)).take (width + 2)

def readText (column : List Char) : String :=
  .ofList ((column.drop 1).takeWhile fun c => !Text.isBlank c)

def readRows (width : Nat) : List (List Char) → List (List String)
  | _ :: content :: rest =>
      (readColumns width content).map readText :: readRows width rest
  | _ => []

def read (lines : List (List Char)) : List (List String) :=
  readRows (readWidth lines) lines

section Reading

variable {sign : Char} {width : Nat} {columns : List (List Char)} {line : List Char}
  {text : String} {texts : List String} {rows : List (List String)}

theorem Ruled.readColumns (hruled : Ruled sign width columns line) :
    readColumns width line = columns := by
  have hcount : (line.length - 1) / (width + 3) = columns.length := by
    rw [hruled.length_eq, Nat.add_sub_cancel_left]
    exact Nat.mul_div_cancel _ (Nat.succ_pos _)
  apply List.ext_getElem
  · simp only [Grid.readColumns, List.length_map, List.length_range, hcount]
  · intro index _ hindex
    simp only [Grid.readColumns, List.getElem_map, List.getElem_range]
    exact hruled.column_at index _ (List.getElem?_eq_getElem hindex)

theorem readText_column (hsolid : Text.Solid text) :
    readText (column width text) = text := by
  have hkept : ∀ c ∈ text.toList, (!Text.isBlank c) = true := by
    intro c hc
    rw [hsolid c hc]
    rfl
  have hspaces : (List.replicate (width - text.length + 1) ' ').takeWhile
      (fun c => !Text.isBlank c) = [] := rfl
  rw [readText, column, List.drop_one, List.tail_cons,
    List.takeWhile_append_of_pos hkept, hspaces, List.append_nil,
    String.ofList_toList]

theorem readRows_linesBelow
    (hfits : ∀ texts ∈ rows, ∀ text ∈ texts, text.length ≤ width)
    (hsolid : ∀ texts ∈ rows, ∀ text ∈ texts, Text.Solid text) (above : Nat) :
    readRows width ((linesBelow width above rows).map String.toList) = rows := by
  induction rows generalizing above with
  | nil => rfl
  | cons texts rest ih =>
      obtain ⟨hfit, hfits⟩ := List.forall_mem_cons.mp hfits
      obtain ⟨htexts, hsolid⟩ := List.forall_mem_cons.mp hsolid
      have hread : (texts.map (column width)).map readText = texts := by
        rw [List.map_map]
        exact map_eq_self fun text htext => readText_column (htexts text htext)
      simp only [linesBelow, List.map_cons, readRows,
        (ruled_content hfit).readColumns, hread]
      rw [ih hfits hsolid]

theorem readWidth_lines (hne : texts ≠ []) :
    readWidth ((lines (texts :: rows)).map String.toList) =
      Grid.width (texts :: rows) := by
  generalize hwidth : Grid.width (texts :: rows) = width
  obtain ⟨text, rest, rfl⟩ := List.exists_cons_of_ne_nil hne
  have hdash : ∀ c ∈ List.replicate (width + 2) '-', (c == '-') = true := by
    intro c hc
    rw [(List.mem_replicate.mp hc).2]
    rfl
  have hfirst : ∃ behind, (border width (rest.length + 1)).toList =
      '+' :: (List.replicate (width + 2) '-' ++ '+' :: behind) := by
    rw [toList_border, dashes, List.replicate_succ, ruledLine_cons,
      List.cons_append]
    exact ⟨_, rfl⟩
  obtain ⟨behind, hborder⟩ := hfirst
  simp only [lines, linesBelow, hwidth, Nat.zero_max, List.length_cons,
    List.map_cons, readWidth, List.headD_cons, hborder, List.drop_one,
    List.tail_cons]
  rw [List.takeWhile_append_of_pos hdash]
  simp

theorem read_lines (hne : texts ≠ [])
    (hsolid : ∀ row ∈ texts :: rows, ∀ text ∈ row, Text.Solid text) :
    read ((lines (texts :: rows)).map String.toList) = texts :: rows := by
  have hsome : (texts :: rows).flatten ≠ [] := by
    simp [hne]
  have hfits : ∀ row ∈ texts :: rows, ∀ text ∈ row,
      text.length ≤ Grid.width (texts :: rows) := by
    intro row hrow text htext
    exact (isGreatest_width hsome).2
      ⟨text, List.mem_flatten.mpr ⟨row, hrow, htext⟩, rfl⟩
  rw [read, readWidth_lines hne]
  exact readRows_linesBelow hfits hsolid 0

end Reading

end Grid

def readCell (text : String) : Cell :=
  if text = "-" then ∅ else .ofList ((text.toList.splitOn ',').map String.ofList)

def readChart (text : String) : Chart :=
  match Grid.read (Text.lines text.toList) with
  | [] => ⟨[], []⟩
  | tokens :: rows => ⟨tokens, rows.map (·.map readCell)⟩

/-- The symbols of the chart can be told apart from the signs of its grid. Bars
and other signs of the ruling may stand in them. -/
structure Legible (chart : Chart) : Prop where
  tokens : ∀ token ∈ chart.tokens, Text.Solid token
  symbols : chart.Holds fun symbol =>
    Text.IsWord symbol ∧ ',' ∉ symbol.toList ∧ symbol ≠ "-"

section Reading

variable {chart : Chart} {cell : Cell}

theorem readCell_cellText
    (hsymbols : ∀ symbol ∈ cell, ',' ∉ symbol.toList ∧ symbol ≠ "-") :
    readCell (cellText cell) = cell := by
  unfold cellText
  split
  case isTrue hempty => exact (SortedSet.isEmpty_iff.mp hempty).symm
  case isFalse hsome =>
    have hne : cell.toList.map String.toList ≠ [] := by
      simpa [SortedSet.isEmpty] using hsome
    have hcommas : ∀ letters ∈ cell.toList.map String.toList, ',' ∉ letters := by
      intro letters hletters
      obtain ⟨symbol, hsymbol, rfl⟩ := List.mem_map.mp hletters
      exact (hsymbols symbol hsymbol).1
    have hsplit : (",".intercalate cell.toList).toList.splitOn ',' =
        cell.toList.map String.toList := by
      rw [String.toList_intercalate]
      exact List.splitOn_intercalate ',' hcommas hne
    -- one nonterminal alone would be taken for the mark if it were spelled like it
    have hmark : ",".intercalate cell.toList ≠ "-" := by
      intro hmark
      rw [hmark] at hsplit
      have hdash : ['-'] ∈ cell.toList.map String.toList := by
        rw [← hsplit]
        decide
      obtain ⟨symbol, hsymbol, htext⟩ := List.mem_map.mp hdash
      exact (hsymbols symbol hsymbol).2 (String.toList_injective htext)
    have hnames : cell.toList.map (String.ofList ∘ String.toList) = cell.toList :=
      map_eq_self fun _ _ => String.ofList_toList
    rw [readCell, if_neg hmark, hsplit, List.map_map, hnames]
    exact SortedSet.ext fun _ => SortedSet.mem_ofList

theorem readChart_chartText (hne : chart.tokens ≠ []) (hlegible : Legible chart) :
    readChart (chartText chart) = chart := by
  have hsolid : ∀ texts ∈ chartTexts chart, ∀ text ∈ texts, Text.Solid text := by
    apply forall_mem_chartTexts
    · decide
    · decide
    · exact hlegible.tokens
    · exact fun row hrow cell hcell symbol hsymbol =>
        (hlegible.symbols row hrow cell hcell symbol hsymbol).1.2
  have hunbroken : ∀ line ∈ Grid.lines (chartTexts chart), Text.Unbroken line := by
    apply Grid.forall_mem_linesBelow
    · decide
    intro texts htexts text htext
    exact (hsolid texts htexts text htext).unbroken
  have hread :
      Grid.read (Text.lines (chartText chart).toList) = chartTexts chart := by
    rw [chartText, Text.lines_unlines hunbroken]
    exact Grid.read_lines hne hsolid
  have hcells :
      chart.rows.map ((·.map readCell) ∘ (·.map cellText)) = chart.rows := by
    apply map_eq_self
    intro row hrow
    rw [Function.comp_apply, List.map_map]
    exact map_eq_self fun cell hcell => readCell_cellText fun symbol hsymbol =>
      (hlegible.symbols row hrow cell hcell symbol hsymbol).2
  rw [readChart, hread, chartTexts]
  simp only [List.map_map, hcells]

end Reading

end Layout

namespace Chart

/-- Charts that are drawn alike are the same, whatever grammars they were filled
from. -/
theorem eq_of_chartText_eq {grammar otherGrammar : Grammar}
    {tokens otherTokens : List String} {chart other : Chart}
    (hbuild : build grammar tokens = some chart)
    (hother : build otherGrammar otherTokens = some other)
    (hlegible : Layout.Legible chart) (hlegible' : Layout.Legible other)
    (htext : Layout.chartText chart = Layout.chartText other) : chart = other := by
  obtain ⟨hne, rfl, _⟩ := triangle_of_build hbuild
  obtain ⟨hne', rfl, _⟩ := triangle_of_build hother
  calc
    chart = Layout.readChart (Layout.chartText chart) :=
      (Layout.readChart_chartText hne hlegible).symm
    _ = Layout.readChart (Layout.chartText other) := congrArg Layout.readChart htext
    _ = other := Layout.readChart_chartText hne' hlegible'

def signedOtherwise : Grammar :=
  .ofProductions ⟨"Ä", ["+", "ü"], ["Ä|Ö", "Ä", "|", "+-+"]⟩
    [⟨"Ä|Ö", .pair "Ä" "+-+"⟩, ⟨"Ä|Ö", .pair "Ä" "|"⟩, ⟨"Ä", .terminal "+"⟩,
      ⟨"|", .terminal "ü"⟩, ⟨"+-+", .terminal "ü"⟩]

theorem eq_of_chartText_eq_signed :
    ∃ chart other, build signed ["+", "ü"] = some chart ∧
      build signedOtherwise ["+", "ü"] = some other ∧
      Layout.Legible chart ∧ Layout.Legible other ∧
      Layout.chartText chart = Layout.chartText other ∧ chart = other := by
  have hbuild : build signed ["+", "ü"] = some (fill signed ["+", "ü"] 1) :=
    build_eq_some (by decide)
  have hother :
      build signedOtherwise ["+", "ü"] = some (fill signedOtherwise ["+", "ü"] 1) :=
    build_eq_some (by decide)
  have hlegible : Layout.Legible (fill signed ["+", "ü"] 1) :=
    ⟨by decide, by decide⟩
  have hlegible' : Layout.Legible (fill signedOtherwise ["+", "ü"] 1) :=
    ⟨by decide, by decide⟩
  have htext : Layout.chartText (fill signed ["+", "ü"] 1) =
      Layout.chartText (fill signedOtherwise ["+", "ü"] 1) := by
    decide
  exact ⟨_, _, hbuild, hother, hlegible, hlegible', htext,
    eq_of_chartText_eq hbuild hother hlegible hlegible' htext⟩

end Chart

end ChomskyChart
