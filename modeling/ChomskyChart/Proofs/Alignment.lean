import ChomskyChart.Layout.Grid
import ChomskyChart.Proofs.Triangle
import ChomskyChart.Proofs.Wording
import Mathlib.Order.Bounds.Basic

namespace ChomskyChart

namespace Layout.Grid

section Ruling

variable {sign : Char} {width : Nat} {columns : List (List Char)}

def ruledLine (sign : Char) (columns : List (List Char)) : List Char :=
  sign :: columns.flatMap (· ++ [sign])

/-- The columns stand where their numbers say, each two characters wider than
the width, and a sign stands on either side of each. -/
structure Ruled (sign : Char) (width : Nat) (columns : List (List Char))
    (drawn : List Char) : Prop where
  length_eq : drawn.length = 1 + columns.length * (width + 3)
  sign_at : ∀ index ≤ columns.length, drawn[index * (width + 3)]? = some sign
  column_at : ∀ index column, columns[index]? = some column →
    (drawn.drop (index * (width + 3) + 1)).take (width + 2) = column

theorem ruledLine_cons (sign : Char) (column : List Char)
    (rest : List (List Char)) :
    ruledLine sign (column :: rest) = (sign :: column) ++ ruledLine sign rest := by
  simp [ruledLine]

theorem mem_ruledLine {c : Char} (hc : c ∈ ruledLine sign columns) :
    c = sign ∨ ∃ column ∈ columns, c ∈ column := by
  induction columns with
  | nil => exact .inl (List.mem_singleton.mp hc)
  | cons column rest ih =>
      rw [ruledLine_cons, List.mem_append, List.mem_cons] at hc
      rcases hc with (hsign | hcolumn) | hrest
      · exact .inl hsign
      · exact .inr ⟨column, List.mem_cons_self, hcolumn⟩
      · exact (ih hrest).imp_right fun ⟨other, hother, hmem⟩ =>
          ⟨other, List.mem_cons_of_mem _ hother, hmem⟩

theorem ruled_ruledLine (hwidth : ∀ column ∈ columns, column.length = width + 2) :
    Ruled sign width columns (ruledLine sign columns) := by
  induction columns with
  | nil =>
      refine ⟨by simp [ruledLine], ?_, nofun⟩
      intro index hindex
      rw [Nat.le_zero.mp hindex, Nat.zero_mul]
      rfl
  | cons column rest ih =>
      obtain ⟨hcolumn, hrest⟩ := List.forall_mem_cons.mp hwidth
      have hruled := ih hrest
      have hfront : (sign :: column).length = width + 3 := by simp [hcolumn]
      simp only [ruledLine_cons]
      refine ⟨?_, ?_, ?_⟩
      · rw [List.length_append, hfront, hruled.length_eq, List.length_cons,
          Nat.succ_mul]
        omega
      · intro index hindex
        cases index with
        | zero => simp
        | succ index =>
            have hsign := hruled.sign_at index (Nat.le_of_succ_le_succ hindex)
            rwa [Nat.succ_mul, List.getElem?_append_right (by omega), hfront,
              Nat.add_sub_cancel]
      · intro index inside hinside
        cases index with
        | zero =>
            cases hinside
            simp [hcolumn]
        | succ index =>
            have hplace : (index + 1) * (width + 3) + 1 =
                (sign :: column).length + (index * (width + 3) + 1) := by
              rw [hfront, Nat.succ_mul]
              omega
            rw [hplace, List.drop_length_add_append]
            exact hruled.column_at index inside hinside

end Ruling

section Rows

variable {width cells : Nat} {rows : List (List String)} {texts : List String}

def column (width : Nat) (text : String) : List Char :=
  ' ' :: (text.toList ++ List.replicate (width - text.length + 1) ' ')

def dashes (width cells : Nat) : List (List Char) :=
  List.replicate cells (List.replicate (width + 2) '-')

theorem toList_border (width cells : Nat) :
    (border width cells).toList = ruledLine '+' (dashes width cells) := by
  simp [border, ruledLine, dashes, String.toList_join, List.flatMap_def]

theorem toList_content (width : Nat) (texts : List String) :
    (content width texts).toList = ruledLine '|' (texts.map (column width)) := by
  simp [content, ruledLine, column, padded, String.toList_join, List.flatMap_map,
    List.replicate_succ']

theorem ruled_border (width cells : Nat) :
    Ruled '+' width (dashes width cells) (border width cells).toList := by
  rw [toList_border]
  apply ruled_ruledLine
  intro column hcolumn
  rw [(List.mem_replicate.mp hcolumn).2, List.length_replicate]

theorem ruled_content (hfits : ∀ text ∈ texts, text.length ≤ width) :
    Ruled '|' width (texts.map (column width)) (content width texts).toList := by
  rw [toList_content]
  apply ruled_ruledLine
  intro inside hinside
  obtain ⟨text, htext, rfl⟩ := List.mem_map.mp hinside
  have hfit := hfits text htext
  simp only [column, List.length_cons, List.length_append, List.length_replicate,
    String.length_toList]
  omega

/-- A row of texts in its frame. Every text stands whole in a column of its own;
the border below is as long as the row, the one above at least as long, and both
have a corner wherever the row has a separator. -/
structure Framed (width : Nat) (texts : List String)
    (above content below : List Char) : Prop where
  fits : ∀ text ∈ texts, text.length ≤ width
  content_ruled : Ruled '|' width (texts.map (column width)) content
  above_ruled : ∃ cells, Ruled '+' width (dashes width cells) above
  below_ruled : Ruled '+' width (dashes width texts.length) below
  length_above : content.length ≤ above.length
  length_below : below.length = content.length
  corners : ∀ index ≤ texts.length,
    above[index * (width + 3)]? = some '+' ∧ below[index * (width + 3)]? = some '+'

theorem framed_content (hfits : ∀ text ∈ texts, text.length ≤ width)
    (hcells : texts.length ≤ cells) :
    Framed width texts (border width cells).toList (content width texts).toList
      (border width texts.length).toList := by
  have hcontent := ruled_content hfits
  have habove := ruled_border width cells
  have hbelow := ruled_border width texts.length
  have hdashes (count : Nat) : (dashes width count).length = count :=
    List.length_replicate
  refine ⟨hfits, hcontent, ⟨cells, habove⟩, hbelow, ?_, ?_, ?_⟩
  · rw [hcontent.length_eq, habove.length_eq, List.length_map, hdashes]
    exact Nat.add_le_add_left (Nat.mul_le_mul_right _ hcells) 1
  · rw [hcontent.length_eq, hbelow.length_eq, List.length_map, hdashes]
  · intro index hindex
    exact ⟨habove.sign_at index (by rw [hdashes]; exact hindex.trans hcells),
      hbelow.sign_at index (by rw [hdashes]; exact hindex)⟩

theorem length_linesBelow (width above : Nat) (rows : List (List String)) :
    (linesBelow width above rows).length = 2 * rows.length + 1 := by
  induction rows generalizing above with
  | nil => rfl
  | cons texts rest ih =>
      simp only [linesBelow, List.length_cons, ih]
      omega

theorem getElem?_linesBelow_zero (hshorter : ∀ texts ∈ rows, texts.length ≤ cells) :
    (linesBelow width cells rows)[0]? = some (border width cells) := by
  cases rows with
  | nil => rfl
  | cons texts rest =>
      simp [linesBelow, Nat.max_eq_left (hshorter texts List.mem_cons_self)]

theorem framed_linesBelow
    (hfits : ∀ texts ∈ rows, ∀ text ∈ texts, text.length ≤ width)
    (hshrinks : rows.Pairwise fun upper lower => lower.length ≤ upper.length)
    (above : Nat) {index : Nat} (htexts : rows[index]? = some texts) :
    ∃ upper line lower, (linesBelow width above rows)[2 * index]? = some upper ∧
      (linesBelow width above rows)[2 * index + 1]? = some line ∧
      (linesBelow width above rows)[2 * index + 2]? = some lower ∧
      Framed width texts upper.toList line.toList lower.toList := by
  induction rows generalizing above index with
  | nil => cases htexts
  | cons head rest ih =>
      obtain ⟨hhead, hrest⟩ := List.forall_mem_cons.mp hfits
      obtain ⟨hshorter, hlower⟩ := List.pairwise_cons.mp hshrinks
      cases index with
      -- no row below is longer, so the border between is as long as the row
      -- above it
      | zero =>
          cases htexts
          exact ⟨_, _, _, rfl, rfl, getElem?_linesBelow_zero hshorter,
            framed_content hhead (Nat.le_max_right above _)⟩
      | succ index => exact ih hrest hlower head.length htexts

theorem isGreatest_width (hne : rows.flatten ≠ []) :
    IsGreatest {length | ∃ text ∈ rows.flatten, text.length = length}
      (Grid.width rows) := by
  have hsome : ∃ length, (rows.flatten.map String.length).max? = some length := by
    rw [← Option.ne_none_iff_exists', Ne, List.max?_eq_none_iff,
      List.map_eq_nil_iff]
    exact hne
  obtain ⟨length, hlength⟩ := hsome
  have hwidth : Grid.width rows = length := by
    rw [Grid.width, List.foldl_max, hlength]
    exact Nat.zero_max length
  obtain ⟨hmem, hbound⟩ := List.max?_eq_some_iff.mp hlength
  rw [hwidth]
  refine ⟨List.mem_map.mp hmem, ?_⟩
  rintro _ ⟨text, htext, rfl⟩
  exact hbound _ (List.mem_map_of_mem htext)

/-- The lines of a grid: borders and rows by turns, with a border first and
last, and every row in its frame with a width that fits the longest text
exactly. -/
structure Aligned (rows : List (List String)) (width : Nat)
    (lines : List String) : Prop where
  greatest : IsGreatest {length | ∃ text ∈ rows.flatten, text.length = length} width
  length_lines : lines.length = 2 * rows.length + 1
  framed : ∀ index texts, rows[index]? = some texts → ∃ above content below,
    lines[2 * index]? = some above ∧ lines[2 * index + 1]? = some content ∧
    lines[2 * index + 2]? = some below ∧
    Framed width texts above.toList content.toList below.toList

theorem aligned_lines (hne : rows.flatten ≠ [])
    (hshrinks : rows.Pairwise fun upper lower => lower.length ≤ upper.length) :
    Aligned rows (Grid.width rows) (lines rows) := by
  have hgreatest := isGreatest_width hne
  have hfits : ∀ texts ∈ rows, ∀ text ∈ texts, text.length ≤ Grid.width rows := by
    intro texts htexts text htext
    exact hgreatest.2 ⟨text, List.mem_flatten.mpr ⟨texts, htexts, htext⟩, rfl⟩
  exact ⟨hgreatest, length_linesBelow _ 0 rows,
    fun _ _ => framed_linesBelow hfits hshrinks 0⟩

section Characters

variable {test : Char → Prop} (hsigns : test '+' ∧ test '-' ∧ test '|' ∧ test ' ')

include hsigns in
theorem forall_mem_border (width cells : Nat) :
    ∀ c ∈ (border width cells).toList, test c := by
  intro c hc
  rw [toList_border] at hc
  rcases mem_ruledLine hc with rfl | ⟨column, hcolumn, hmem⟩
  · exact hsigns.1
  · rw [(List.mem_replicate.mp hcolumn).2] at hmem
    rw [(List.mem_replicate.mp hmem).2]
    exact hsigns.2.1

include hsigns in
theorem forall_mem_content (htexts : ∀ text ∈ texts, ∀ c ∈ text.toList, test c)
    (width : Nat) :
    ∀ c ∈ (content width texts).toList, test c := by
  intro c hc
  rw [toList_content] at hc
  rcases mem_ruledLine hc with rfl | ⟨_, hcolumn, hmem⟩
  · exact hsigns.2.2.1
  · obtain ⟨text, htext, rfl⟩ := List.mem_map.mp hcolumn
    simp only [column, List.mem_cons, List.mem_append, List.mem_replicate] at hmem
    rcases hmem with rfl | hletter | ⟨_, rfl⟩
    · exact hsigns.2.2.2
    · exact htexts text htext c hletter
    · exact hsigns.2.2.2

include hsigns in
theorem forall_mem_linesBelow
    (htexts : ∀ texts ∈ rows, ∀ text ∈ texts, ∀ c ∈ text.toList, test c)
    (width above : Nat) :
    ∀ line ∈ linesBelow width above rows, ∀ c ∈ line.toList, test c := by
  induction rows generalizing above with
  | nil =>
      exact List.forall_mem_singleton.mpr
        (forall_mem_border hsigns width above)
  | cons texts rest ih =>
      obtain ⟨hhead, hrest⟩ := List.forall_mem_cons.mp htexts
      exact List.forall_mem_cons.mpr ⟨forall_mem_border hsigns width _,
        List.forall_mem_cons.mpr
          ⟨forall_mem_content hsigns hhead width, ih hrest texts.length⟩⟩

end Characters

end Rows

end Layout.Grid

def Chart.Holds (chart : Chart) (test : String → Prop) : Prop :=
  ∀ row ∈ chart.rows, ∀ cell ∈ row, ∀ symbol ∈ cell, test symbol

instance (chart : Chart) (test : String → Prop) [DecidablePred test] :
    Decidable (chart.Holds test) :=
  inferInstanceAs
    (Decidable (∀ row ∈ chart.rows, ∀ cell ∈ row, ∀ symbol ∈ cell.toList,
      test symbol))

namespace Layout

variable {chart : Chart} {texts : List String} {index : Nat}

theorem forall_mem_chartTexts {test : Char → Prop} (hdash : test '-')
    (hcomma : test ',')
    (htokens : ∀ token ∈ chart.tokens, ∀ c ∈ token.toList, test c)
    (hsymbols : chart.Holds fun symbol => ∀ c ∈ symbol.toList, test c) :
    ∀ texts ∈ chartTexts chart, ∀ text ∈ texts, ∀ c ∈ text.toList, test c := by
  unfold chartTexts
  refine List.forall_mem_cons.mpr ⟨htokens, ?_⟩
  intro texts htexts text htext
  obtain ⟨row, hrow, rfl⟩ := List.mem_map.mp htexts
  obtain ⟨cell, hcell, rfl⟩ := List.mem_map.mp htext
  unfold cellText
  split
  · exact List.forall_mem_singleton.mpr hdash
  · exact Text.forall_mem_intercalate (List.forall_mem_singleton.mpr hcomma)
      (hsymbols row hrow cell hcell)

end Layout

namespace Chart

open Layout

variable {chart : Chart} {texts : List String} {index : Nat}

/-- The text of a cell has the nonterminals of the cell in their order, with a
comma between each two, or is a dash if there are none. -/
inductive Shown (cell : Cell) : String → Prop where
  | none (hnone : ∀ symbol, symbol ∉ cell) : Shown cell "-"
  | symbols (hne : cell.toList ≠ []) : Shown cell (",".intercalate cell.toList)

theorem shown_cellText (cell : Cell) : Shown cell (cellText cell) := by
  rw [cellText]
  split
  · rename_i hempty
    rw [SortedSet.isEmpty_iff.mp hempty]
    exact .none SortedSet.not_mem_empty
  · rename_i hsome
    exact .symbols (mt List.isEmpty_iff.mpr hsome)

theorem exists_row_of_chartTexts
    (htexts : (chartTexts chart)[index + 1]? = some texts) :
    ∃ row, chart.row (index + 1) = some row ∧ row.map cellText = texts := by
  rw [chartTexts, List.getElem?_cons_succ, List.getElem?_map] at htexts
  exact Option.map_eq_some_iff.mp htexts

theorem shown_chartTexts (htexts : (chartTexts chart)[index + 1]? = some texts) :
    ∃ row, chart.row (index + 1) = some row ∧ List.Forall₂ Shown row texts := by
  obtain ⟨row, hrow, rfl⟩ := exists_row_of_chartTexts htexts
  refine ⟨row, hrow, List.forall₂_map_right_iff.mpr ?_⟩
  exact List.forall₂_same.mpr fun cell _ => shown_cellText cell

theorem Triangle.length_chartTexts (htriangle : chart.Triangle chart.tokens.length)
    (htexts : (chartTexts chart)[index]? = some texts) :
    texts.length =
      if index = 0 then chart.tokens.length
        else chart.tokens.length - index + 1 := by
  cases index with
  | zero =>
      cases htexts
      rfl
  | succ index =>
      obtain ⟨row, hrow, rfl⟩ := exists_row_of_chartTexts htexts
      have hlength := htriangle.length_row (index + 1) row hrow
      obtain ⟨_, hbound⟩ : 1 ≤ index + 1 ∧ index + 1 ≤ chart.rows.length :=
        bounds_of_row hrow
      rw [htriangle.length_rows] at hbound
      rw [if_neg (Nat.succ_ne_zero index), List.length_map]
      omega

theorem Triangle.length_rows_chartTexts
    (htriangle : chart.Triangle chart.tokens.length) :
    (chartTexts chart).length = chart.tokens.length + 1 := by
  simp only [chartTexts, List.length_cons, List.length_map, htriangle.length_rows]

theorem Triangle.pairwise_chartTexts
    (htriangle : chart.Triangle chart.tokens.length) :
    (chartTexts chart).Pairwise fun upper lower => lower.length ≤ upper.length := by
  rw [List.pairwise_iff_getElem]
  intro upper lower hupper hlower hless
  rw [htriangle.length_chartTexts (List.getElem?_eq_getElem hupper),
    htriangle.length_chartTexts (List.getElem?_eq_getElem hlower),
    if_neg (by omega)]
  rw [htriangle.length_rows_chartTexts] at hlower
  split
  · omega
  · omega

theorem triangle_of_build {grammar : Grammar} {tokens : List String}
    (hbuild : build grammar tokens = some chart) :
    tokens ≠ [] ∧ chart.tokens = tokens ∧ chart.Triangle chart.tokens.length := by
  obtain ⟨hne, rfl⟩ := eq_fill_of_build hbuild
  refine ⟨hne, tokens_fill grammar tokens _, ?_⟩
  rw [tokens_fill]
  exact triangle_fill_last hne

/-- A chart is drawn as a grid. The row of the tokens has a column for each of
them, the row below it has as many, and every further row has one less. Below
the tokens stand the texts of the cells. -/
theorem chartText_aligned {grammar : Grammar} {tokens : List String}
    (hbuild : build grammar tokens = some chart)
    (htokens : ∀ token ∈ tokens, '\n' ∉ token.toList)
    (hsymbols : chart.Holds fun symbol => '\n' ∉ symbol.toList) :
    ∃ width lines, chartText chart = Text.unlines lines ∧
      (∀ line ∈ lines, '\n' ∉ line.toList) ∧
      lines.length = 2 * (tokens.length + 1) + 1 ∧
      (∀ index ≤ tokens.length, ∃ texts, (chartTexts chart)[index]? = some texts ∧
        texts.length =
          if index = 0 then tokens.length else tokens.length - index + 1) ∧
      (chartTexts chart)[0]? = some tokens ∧
      (∀ index texts, (chartTexts chart)[index + 1]? = some texts →
        ∃ row, chart.row (index + 1) = some row ∧ List.Forall₂ Shown row texts) ∧
      Grid.Aligned (chartTexts chart) width lines := by
  obtain ⟨hne, rfl, htriangle⟩ := triangle_of_build hbuild
  have hrows := htriangle.length_rows_chartTexts
  have htexts : (chartTexts chart).flatten ≠ [] := by
    simp [chartTexts, hne]
  have hfeeds :
      ∀ texts ∈ chartTexts chart, ∀ text ∈ texts, ∀ c ∈ text.toList, c ≠ '\n' := by
    apply forall_mem_chartTexts
    · decide
    · decide
    · exact fun token htoken c hc heq => htokens token htoken (heq ▸ hc)
    · exact fun row hrow cell hcell symbol hsymbol c hc heq =>
        hsymbols row hrow cell hcell symbol hsymbol (heq ▸ hc)
  refine ⟨Grid.width (chartTexts chart), Grid.lines (chartTexts chart), rfl, ?_, ?_,
    ?_, rfl, fun _ _ => shown_chartTexts,
    Grid.aligned_lines htexts htriangle.pairwise_chartTexts⟩
  · intro line hline hfeed
    exact Grid.forall_mem_linesBelow
      (by decide) hfeeds _ 0 line hline '\n' hfeed rfl
  · rw [Grid.lines, Grid.length_linesBelow, hrows]
  · intro index hindex
    have hrow := List.getElem?_eq_getElem (hrows ▸ Nat.lt_succ_of_le hindex :
      index < (chartTexts chart).length)
    exact ⟨_, hrow, htriangle.length_chartTexts hrow⟩

def signed : Grammar :=
  .ofProductions ⟨"Ä|Ö", ["+", "ü"], ["Ä|Ö", "Ä", "|", "+-+"]⟩
    [⟨"Ä|Ö", .pair "Ä" "|"⟩, ⟨"Ä", .terminal "+"⟩, ⟨"|", .terminal "ü"⟩,
      ⟨"+-+", .terminal "ü"⟩]

theorem chartText_aligned_signed :
    ∃ chart, build signed ["+", "ü"] = some chart ∧
      (∀ token ∈ ["+", "ü"], '\n' ∉ token.toList) ∧
      (chart.Holds fun symbol => '\n' ∉ symbol.toList) ∧
      (chartTexts chart)[0]? = some ["+", "ü"] ∧
      (∃ row, chart.row 1 = some row ∧ List.Forall₂ Shown row ["Ä", "+-+,|"]) ∧
      (∃ row, chart.row 2 = some row ∧ List.Forall₂ Shown row ["Ä|Ö"]) ∧
      ∃ lines, chartText chart = Text.unlines lines ∧ lines.length = 7 ∧
        Grid.Aligned (chartTexts chart) 5 lines := by
  have hbuild :
      build signed ["+", "ü"] = some (fill signed ["+", "ü"] 1) := by decide
  have htokens : ∀ token ∈ ["+", "ü"], '\n' ∉ token.toList := by decide
  have hsymbols : (fill signed ["+", "ü"] 1).Holds fun symbol =>
      '\n' ∉ symbol.toList := by decide
  have htexts : chartTexts (fill signed ["+", "ü"] 1) =
      [["+", "ü"], ["Ä", "+-+,|"], ["Ä|Ö"]] := by
    decide
  obtain ⟨width, lines, htext, _, hlength, _, hfirst, hshown, haligned⟩ :=
    chartText_aligned hbuild htokens hsymbols
  have hwidth : width = 5 :=
    haligned.greatest.unique (Grid.isGreatest_width (by decide))
  have hone := hshown 0 ["Ä", "+-+,|"] (by rw [htexts]; rfl)
  have htwo := hshown 1 ["Ä|Ö"] (by rw [htexts]; rfl)
  exact ⟨_, hbuild, htokens, hsymbols, hfirst, hone, htwo, lines, htext, hlength,
    hwidth ▸ haligned⟩

end Chart

end ChomskyChart
