import ChomskyChart.Proofs.StartOverride

namespace ChomskyChart

theorem Grammar.Derives.exists_alternative {grammar : Grammar} {symbol : String}
    {tokens : List String} (hderives : grammar.Derives symbol tokens) :
    ∃ alternative, alternative ∈ grammar.alternatives symbol := by
  cases hderives with
  | terminal hterminal => exact ⟨_, hterminal⟩
  | pair hpair _ _ => exact ⟨_, hpair⟩

namespace Chart

structure Triangle (chart : Chart) (height : Nat) : Prop where
  length_rows : chart.rows.length = height
  length_row : ∀ length row, chart.row length = some row →
    row.length + length = chart.tokens.length + 1

section Shape

variable {chart : Chart} {height length start : Nat}

theorem exists_row (hpositive : 1 ≤ length) (hlength : length ≤ chart.rows.length) :
    ∃ row, chart.row length = some row := by
  obtain ⟨index, rfl⟩ := Nat.exists_eq_add_of_le' hpositive
  exact ⟨_, List.getElem?_eq_getElem hlength⟩

theorem bounds_of_row {row : List Cell} (hrow : chart.row length = some row) :
    1 ≤ length ∧ length ≤ chart.rows.length := by
  cases length with
  | zero => cases hrow
  | succ index =>
      obtain ⟨hindex, _⟩ := List.getElem?_eq_some_iff.mp hrow
      omega

theorem Triangle.isSome_cell_iff (htriangle : chart.Triangle height) :
    (chart.cell length start).isSome = true ↔
      1 ≤ length ∧ length ≤ height ∧ start + length ≤ chart.tokens.length := by
  have hheight := htriangle.length_rows
  apply Iff.intro
  · intro hsome
    obtain ⟨cell, hcell⟩ := Option.isSome_iff_exists.mp hsome
    obtain ⟨row, hrow, hstart⟩ := Option.bind_eq_some_iff.mp hcell
    obtain ⟨hbound, _⟩ := List.getElem?_eq_some_iff.mp hstart
    have hlength := htriangle.length_row length row hrow
    obtain ⟨hpositive, hrows⟩ := bounds_of_row hrow
    omega
  · intro hbounds
    obtain ⟨hpositive, hlength, hspan⟩ := hbounds
    obtain ⟨row, hrow⟩ := exists_row hpositive (hheight.symm ▸ hlength)
    have hcells := htriangle.length_row length row hrow
    rw [cell, hrow, Option.bind_some, isSome_getElem?]
    omega

theorem Triangle.exists_cell (htriangle : chart.Triangle height)
    (length start : Nat) (hpositive : 1 ≤ length) (hlength : length ≤ height)
    (hspan : start + length ≤ chart.tokens.length) :
    ∃ cell, chart.cell length start = some cell :=
  Option.isSome_iff_exists.mp
    (htriangle.isSome_cell_iff.mpr ⟨hpositive, hlength, hspan⟩)

theorem Triangle.append (htriangle : chart.Triangle height) {row : List Cell}
    (hrow : row.length + height = chart.tokens.length) :
    Triangle { chart with rows := chart.rows ++ [row] } (height + 1) := by
  have hheight := htriangle.length_rows
  refine ⟨by simp [hheight], ?_⟩
  intro length found hfound
  obtain ⟨hpositive, _⟩ := bounds_of_row hfound
  obtain ⟨index, rfl⟩ := Nat.exists_eq_add_of_le' hpositive
  change (chart.rows ++ [row])[index]? = some found at hfound
  by_cases hearlier : index < chart.rows.length
  · rw [List.getElem?_append_left hearlier] at hfound
    exact htriangle.length_row (index + 1) found hfound
  · rw [List.getElem?_append_right (Nat.le_of_not_lt hearlier)] at hfound
    obtain ⟨hlast, heq⟩ := List.getElem?_eq_some_iff.mp hfound
    have hindex : index = height := by
      rw [List.length_singleton] at hlast
      omega
    have hsame : row = found := by simpa using heq
    rw [← hsame, hindex]
    change row.length + (height + 1) = chart.tokens.length + 1
    omega

end Shape

section Filling

variable {grammar : Grammar} {tokens : List String}

theorem triangle_fill {count : Nat} (hcount : count < tokens.length) :
    (fill grammar tokens count).Triangle (count + 1) := by
  induction count with
  | zero =>
      refine ⟨rfl, ?_⟩
      intro length row hrow
      have hone : length = 1 := by
        have hbounds := bounds_of_row hrow
        exact Nat.le_antisymm hbounds.2 hbounds.1
      subst hone
      rw [row_fill_one] at hrow
      cases hrow
      simp [firstRow]
  | succ count ih =>
      apply (ih (by omega)).append
      simp only [deriveRow, List.length_map, List.length_range, tokens_fill]
      omega

theorem triangle_fill_last (hne : tokens ≠ []) :
    (fill grammar tokens (tokens.length - 1)).Triangle tokens.length := by
  have hpositive := List.length_pos_iff.mpr hne
  have htriangle :
      (fill grammar tokens (tokens.length - 1)).Triangle (tokens.length - 1 + 1) :=
    triangle_fill (by omega)
  rwa [Nat.sub_add_cancel hpositive] at htriangle

theorem isSome_cell_fill_iff (hne : tokens ≠ []) {length start : Nat} :
    ((fill grammar tokens (tokens.length - 1)).cell length start).isSome = true ↔
      1 ≤ length ∧ start + length ≤ tokens.length := by
  rw [(triangle_fill_last hne).isSome_cell_iff, tokens_fill]
  omega

theorem exists_cell_fill (grammar : Grammar) (hne : tokens ≠ [])
    {length start : Nat} (hlength : 1 ≤ length)
    (hspan : start + length ≤ tokens.length) :
    ∃ cell, (fill grammar tokens (tokens.length - 1)).cell length start =
      some cell :=
  Option.isSome_iff_exists.mp ((isSome_cell_fill_iff hne).mpr ⟨hlength, hspan⟩)

theorem mem_cell_fill_iff (hne : tokens ≠ []) {length start : Nat} {cell : Cell}
    (hcell : (fill grammar tokens (tokens.length - 1)).cell length start =
      some cell)
    {symbol : String} :
    symbol ∈ cell ↔ grammar.Derives symbol (span tokens start length) := by
  obtain ⟨hlength, hspan⟩ :=
    (isSome_cell_fill_iff hne).mp (Option.isSome_of_eq_some hcell)
  obtain ⟨found, hfound, hmem⟩ :
      CellExact grammar tokens (tokens.length - 1) length start :=
    cellExact_fill hlength (by omega) start hspan
  cases hcell.symm.trans hfound
  exact hmem symbol

/-- The moment at which the row of the given length is about to be filled: the
rows of all shorter spans are complete and stay as they are, the row is made
from them, and the parts that each of its cells is made from are cells that are
there. -/
structure ReadyFor (grammar : Grammar) (tokens : List String)
    (length : Nat) : Prop where
  triangle : (fill grammar tokens (length - 2)).Triangle (length - 1)
  kept : ∀ later, length - 2 ≤ later → ∀ shorter < length,
    (fill grammar tokens later).row shorter =
      (fill grammar tokens (length - 2)).row shorter
  filled : ∀ later, length - 1 ≤ later → (fill grammar tokens later).row length =
    some ((fill grammar tokens (length - 2)).deriveRow grammar length)
  starts : length - 1 ≤ tokens.length
  splits : ∀ split, split ∈ innerSplits length ↔ 1 ≤ split ∧ split < length
  parts : ∀ start < tokens.length - (length - 1),
    List.Forall₂ (fun split cells => split ≤ length ∧
        (fill grammar tokens (length - 2)).cell split start = some cells.1 ∧
        (fill grammar tokens (length - 2)).cell (length - split) (start + split) =
          some cells.2)
      (innerSplits length)
      ((fill grammar tokens (length - 2)).parts length start (innerSplits length))

theorem readyFor {length : Nat} (hlong : 2 ≤ length)
    (hlength : length ≤ tokens.length) :
    ReadyFor grammar tokens length := by
  obtain ⟨count, rfl⟩ := Nat.exists_eq_add_of_le' hlong
  have htriangle : (fill grammar tokens count).Triangle (count + 1) :=
    triangle_fill (by omega)
  refine ⟨htriangle, ?_, ?_, by omega, fun _ => mem_innerSplits, ?_⟩
  · intro later hlater shorter hshorter
    exact row_fill_of_le hlater (by omega)
  · intro later hlater
    exact row_fill_add_two hlater
  · intro start hstart
    have hwithin (part position : Nat) (hpositive : 1 ≤ part)
        (hpart : part ≤ count + 1)
        (hspan : position + part ≤ tokens.length) :
        ∃ cell, (fill grammar tokens count).cell part position = some cell := by
      apply htriangle.exists_cell part position hpositive hpart
      rw [tokens_fill]
      exact hspan
    rw [parts, List.forall₂_map_right_iff, List.forall₂_same]
    intro split hsplit
    obtain ⟨hpositive, hshorter⟩ := mem_innerSplits.mp hsplit
    obtain ⟨left, hleft⟩ := hwithin split start hpositive (by omega) (by omega)
    obtain ⟨right, hright⟩ :=
      hwithin (count + 2 - split) (start + split) (by omega) (by omega) (by omega)
    simp only [Nat.add_sub_cancel, hleft, hright, Option.getD_some, and_true]
    exact Nat.le_of_lt hshorter

end Filling

/-- The chart is complete: it has a row for every length, a cell for every span
and none besides, the cell of all tokens at the top, and in its cells declared
nonterminals with alternatives only, in increasing order. -/
structure Complete (chart : Chart) (grammar : Grammar)
    (tokens : List String) : Prop where
  tokens_eq : chart.tokens = tokens
  length_rows : chart.rows.length = tokens.length
  length_row : ∀ length, 1 ≤ length → length ≤ tokens.length → ∃ row,
    chart.row length = some row ∧ row.length = tokens.length - length + 1
  isSome_cell_iff : ∀ length start, (chart.cell length start).isSome = true ↔
    1 ≤ length ∧ start + length ≤ tokens.length
  last_row : ∃ row, chart.rows.getLast? = some row ∧ row.head? = some chart.top
  cell_top : chart.cell tokens.length 0 = some chart.top
  increasing : ∀ length start cell, chart.cell length start = some cell →
    cell.toList.Pairwise (· < ·)
  declared : ∀ length start cell, chart.cell length start = some cell →
      ∀ symbol ∈ cell,
    symbol ∈ grammar.nonterminals ∧ grammar.alternatives symbol ≠ []

section Completeness

variable {vocabulary : Vocabulary} {declarations : List Declaration}
  {origin : Location} {starts : List String} {built grammar : Grammar}
  {tokens : List String}

theorem mem_nonterminals_of_derives
    (hbuilt : Grammar.build vocabulary declarations origin = .ok built)
    (hchanged : built.withStarts starts = .ok grammar) {symbol : String}
    {derived : List String} (hderives : grammar.Derives symbol derived) :
    symbol ∈ grammar.nonterminals ∧ grammar.alternatives symbol ≠ [] := by
  obtain ⟨alternative, halternative⟩ := hderives.exists_alternative
  refine ⟨?_, List.ne_nil_of_mem halternative⟩
  rw [Grammar.nonterminals_of_withStarts hchanged]
  rw [Grammar.alternatives, Grammar.rules_of_withStarts hchanged] at halternative
  exact ((Grammar.sound_of_build hbuilt).declared symbol alternative halternative).1

theorem cell_top_fill (hne : tokens ≠ []) :
    (fill grammar tokens (tokens.length - 1)).cell tokens.length 0 =
      some (fill grammar tokens (tokens.length - 1)).top := by
  have hpositive := List.length_pos_iff.mpr hne
  obtain ⟨cell, hcell⟩ :=
    exists_cell_fill grammar hne hpositive (Nat.le_of_eq (Nat.zero_add _))
  rw [top_fill hne, hcell]
  rfl

theorem complete_fill
    (hbuilt : Grammar.build vocabulary declarations origin = .ok built)
    (hchanged : built.withStarts starts = .ok grammar) (hne : tokens ≠ []) :
    (fill grammar tokens (tokens.length - 1)).Complete grammar tokens := by
  have htriangle :
      (fill grammar tokens (tokens.length - 1)).Triangle tokens.length :=
    triangle_fill_last hne
  have hrows := htriangle.length_rows
  refine ⟨tokens_fill grammar tokens _, hrows, ?_,
    fun _ _ => isSome_cell_fill_iff hne, ?_, cell_top_fill hne, ?_, ?_⟩
  · intro length hlength hheight
    obtain ⟨row, hrow⟩ :
        ∃ row, (fill grammar tokens (tokens.length - 1)).row length = some row :=
      exists_row hlength (hrows.symm ▸ hheight)
    have hcells := htriangle.length_row length row hrow
    rw [tokens_fill] at hcells
    exact ⟨row, hrow, by omega⟩
  · obtain ⟨row, hrow, hhead⟩ := Option.bind_eq_some_iff.mp (cell_top_fill hne)
    refine ⟨row, ?_, List.head?_eq_getElem?.trans hhead⟩
    rw [getLast?_rows, hrows]
    exact hrow
  · intro length start cell _
    exact cell.increasing.imp compareOfLessAndEq_eq_lt.mp
  · intro length start cell hcell symbol hsymbol
    exact mem_nonterminals_of_derives hbuilt hchanged
      ((mem_cell_fill_iff hne hcell).mp hsymbol)

/-- A chart is filled from complete rows only: whenever a row is made, all the
cells it is made from are there, and they are never changed again. What results
is the whole triangle, of declared nonterminals with alternatives, and whether a
cell is in it depends on the bounds of its span alone. -/
theorem filling_complete
    (hbuilt : Grammar.build vocabulary declarations origin = .ok built)
    (hchanged : built.withStarts starts = .ok grammar) (hne : tokens ≠ []) :
    (∀ length, 2 ≤ length → length ≤ tokens.length →
      ReadyFor grammar tokens length) ∧
    ∃ chart, build grammar tokens = some chart ∧
      chart = fill grammar tokens (tokens.length - 1) ∧
      chart.Complete grammar tokens := by
  apply And.intro
  · intro length hlong hlength
    exact readyFor hlong hlength
  · exact ⟨_, build_eq_some hne, rfl, complete_fill hbuilt hchanged hne⟩

theorem filling_complete_starred :
    ∃ built grammar,
      Grammar.build Grammar.starred Grammar.starredDeclarations = .ok built ∧
      built.withStarts ["*", "S"] = .ok grammar ∧ ["a", "*", "a"] ≠ [] ∧ 2 ≤ 3 ∧
      3 ≤ ["a", "*", "a"].length ∧ ReadyFor grammar ["a", "*", "a"] 3 ∧
      ∃ chart, build grammar ["a", "*", "a"] = some chart ∧
        chart.Complete grammar ["a", "*", "a"] := by
  have hbuilt := Grammar.build_starred
  have hstarts : ∀ start ∈ ["*", "S"],
      start ∈ Grammar.starred.nonterminals := by decide
  have hchanged := Grammar.withStarts_of_forall_mem fun start hmem =>
    (Grammar.mem_nonterminals_of_build hbuilt).mpr (hstarts start hmem)
  have hne : ["a", "*", "a"] ≠ [] := by decide
  obtain ⟨hready, chart, hchart, _, hcomplete⟩ :=
    filling_complete hbuilt hchanged hne
  exact ⟨_, _, hbuilt, hchanged, hne, by decide, by decide,
    hready 3 (by decide) (by decide), chart, hchart, hcomplete⟩

end Completeness

end Chart

end ChomskyChart
