import ChomskyChart.Grammar.Derivation
import ChomskyChart.Proofs.Filling

namespace ChomskyChart

namespace Grammar

variable {grammar : Grammar} {symbol : String} {tokens : List String}

theorem derives_iff_exists_split (hlong : 2 ≤ tokens.length) :
    grammar.Derives symbol tokens ↔
      ∃ split, 1 ≤ split ∧ split < tokens.length ∧ ∃ left right,
        .pair left right ∈ grammar.alternatives symbol ∧
        grammar.Derives left (tokens.take split) ∧
        grammar.Derives right (tokens.drop split) := by
  apply Iff.intro
  · intro hderives
    cases hderives with
    | terminal _ => simp at hlong
    | @pair _ left right first second hpair hfirst hsecond =>
        have hfirstLength := List.length_pos_iff.mpr hfirst.ne_nil
        have hsecondLength := List.length_pos_iff.mpr hsecond.ne_nil
        refine ⟨first.length, hfirstLength, ?_, left, right, hpair, ?_, ?_⟩
        · rw [List.length_append]
          omega
        · rw [List.take_left]
          exact hfirst
        · rw [List.drop_left]
          exact hsecond
  · intro hsplit
    obtain ⟨split, _, _, left, right, hpair, hleft, hright⟩ := hsplit
    rw [← List.take_append_drop split tokens]
    exact .pair hpair hleft hright

end Grammar

namespace Chart

def span (tokens : List String) (start length : Nat) : List String :=
  (tokens.drop start).take length

section Span

variable {tokens : List String} {start length : Nat}

theorem length_span (hspan : start + length ≤ tokens.length) :
    (span tokens start length).length = length := by
  rw [span, List.length_take, List.length_drop]
  omega

theorem take_span {split : Nat} (hsplit : split ≤ length) :
    (span tokens start length).take split = span tokens start split := by
  rw [span, List.take_take, Nat.min_eq_left hsplit, span]

theorem drop_span {split : Nat} :
    (span tokens start length).drop split =
      span tokens (start + split) (length - split) := by
  rw [span, List.drop_take, List.drop_drop, span]

theorem span_one (hstart : start < tokens.length) :
    span tokens start 1 = [tokens[start]] := by
  rw [span, List.drop_eq_getElem_cons hstart]
  rfl

@[simp] theorem span_all : span tokens 0 tokens.length = tokens := by
  simp [span]

end Span

variable {grammar : Grammar} {tokens : List String}

def CellExact (grammar : Grammar) (tokens : List String)
    (count length start : Nat) : Prop :=
  ∃ cell, (fill grammar tokens count).cell length start = some cell ∧
    ∀ symbol, symbol ∈ cell ↔ grammar.Derives symbol (span tokens start length)

theorem cellExact_one {count start : Nat} (hstart : start < tokens.length) :
    CellExact grammar tokens count 1 start := by
  refine ⟨grammar.producersOfTerminal tokens[start], ?_, ?_⟩
  · rw [cell_fill_one, List.getElem?_eq_getElem hstart]
    rfl
  · intro symbol
    rw [span_one hstart, Grammar.derives_singleton_iff]
    exact Grammar.mem_producersOf

theorem cellExact_of_parts {count length start : Nat} (hlong : 2 ≤ length)
    (hcount : length ≤ count + 1) (hspan : start + length ≤ tokens.length)
    (hleft : ∀ split, 1 ≤ split → split < length →
      CellExact grammar tokens count split start)
    (hright : ∀ split, 1 ≤ split → split < length →
      CellExact grammar tokens count (length - split) (start + split)) :
    CellExact grammar tokens count length start := by
  have hlength := length_span hspan
  refine ⟨_, cell_fill_eq_deriveCell hlong hcount hspan, ?_⟩
  intro symbol
  rw [mem_deriveCell, Grammar.derives_iff_exists_split (by omega), hlength]
  -- Cell and derivation are compared one cut at a time.
  apply exists_congr
  intro split
  rw [mem_innerSplits, and_assoc]
  apply and_congr_right
  intro hpositive
  apply and_congr_right
  intro hsplit
  obtain ⟨leftCell, hleftCell, hleftMem⟩ := hleft split hpositive hsplit
  obtain ⟨rightCell, hrightCell, hrightMem⟩ := hright split hpositive hsplit
  rw [hleftCell, hrightCell, take_span (Nat.le_of_lt hsplit), drop_span]
  apply Iff.intro
  · intro hcells
    obtain ⟨left, hleft, right, hright, hpair⟩ := hcells
    exact ⟨left, right, hpair, (hleftMem left).mp hleft,
      (hrightMem right).mp hright⟩
  · intro hderives
    obtain ⟨left, right, hpair, hleft, hright⟩ := hderives
    exact ⟨left, (hleftMem left).mpr hleft, right, (hrightMem right).mpr hright,
      hpair⟩

/-- By induction on the length of the span; both parts of a cut are shorter. -/
theorem cellExact_fill {count length : Nat} (hlength : 1 ≤ length)
    (hcount : length ≤ count + 1) (start : Nat)
    (hspan : start + length ≤ tokens.length) :
    CellExact grammar tokens count length start := by
  induction length using Nat.strongRecOn generalizing start with
  | ind length ih =>
      by_cases hone : length = 1
      · subst length
        exact cellExact_one (by omega)
      · apply cellExact_of_parts (by omega) hcount hspan
        · intro split hpositive hsplit
          exact ih split hsplit hpositive (by omega) start (by omega)
        · intro split hpositive hsplit
          exact ih (length - split) (by omega) (by omega) (by omega)
            (start + split) (by omega)

theorem build_eq_some (hne : tokens ≠ []) :
    build grammar tokens =
      some (fill grammar tokens (tokens.length - 1)) := by
  rw [build, if_neg hne]

theorem eq_fill_of_build {chart : Chart}
    (hbuild : build grammar tokens = some chart) :
    tokens ≠ [] ∧ fill grammar tokens (tokens.length - 1) = chart := by
  have hne : tokens ≠ [] := by
    rintro rfl
    cases hbuild
  rw [build_eq_some hne] at hbuild
  exact ⟨hne, Option.some.inj hbuild⟩

theorem getLast?_rows (chart : Chart) :
    chart.rows.getLast? = chart.row chart.rows.length := by
  rw [List.getLast?_eq_getElem?]
  cases hlength : chart.rows.length with
  | zero =>
      rw [List.length_eq_zero_iff.mp hlength]
      rfl
  | succ last => rfl

theorem top_fill (hne : tokens ≠ []) :
    (fill grammar tokens (tokens.length - 1)).top =
      ((fill grammar tokens (tokens.length - 1)).cell tokens.length 0).getD ∅ := by
  have hpositive := List.length_pos_iff.mpr hne
  have hheight :
      (fill grammar tokens (tokens.length - 1)).rows.length = tokens.length := by
    rw [length_rows_fill]
    omega
  have hhead : (List.head? : List Cell → Option Cell) = fun row => row[0]? := by
    funext row
    exact List.head?_eq_getElem?
  rw [top, getLast?_rows, hheight, hhead, cell]

theorem recognize_of_ne_nil (hne : tokens ≠ []) :
    recognize grammar tokens =
      ⟨some (fill grammar tokens (tokens.length - 1)),
        (fill grammar tokens (tokens.length - 1)).accepts grammar.start⟩ := by
  rw [recognize, build_eq_some hne]

theorem accepted_iff_derives (hne : tokens ≠ []) :
    (recognize grammar tokens).accepted = true ↔
      grammar.Derives grammar.start tokens := by
  have hpositive := List.length_pos_iff.mpr hne
  have hcount : tokens.length ≤ tokens.length - 1 + 1 := by omega
  obtain ⟨cell, hcell, hmem⟩ :=
    cellExact_fill hpositive hcount 0
      (Nat.le_of_eq (Nat.zero_add tokens.length))
  rw [recognize_of_ne_nil hne, accepts, decide_eq_true_iff, top_fill hne, hcell,
    Option.getD_some, hmem, span_all]

theorem accepted_nil_iff :
    (recognize grammar []).accepted = true ↔
      .empty ∈ grammar.alternatives grammar.start :=
  Grammar.nullable_iff

/-- Every cell of a chart holds exactly the symbols that derive its span. Hence
recognition decides derivation from the start symbol, and of the empty sequence
whether the start symbol has the empty alternative. -/
theorem recognition_exact (grammar : Grammar) :
    (∀ tokens, tokens ≠ [] → ∃ chart, build grammar tokens = some chart ∧
      (∀ length start, 1 ≤ length → start + length ≤ tokens.length →
        ∃ cell, chart.cell length start = some cell ∧ ∀ symbol,
          symbol ∈ cell ↔ grammar.Derives symbol (span tokens start length)) ∧
      ((recognize grammar tokens).accepted = true ↔
        grammar.Derives grammar.start tokens)) ∧
    ((recognize grammar []).accepted = true ↔
      .empty ∈ grammar.alternatives grammar.start) := by
  refine ⟨?_, accepted_nil_iff⟩
  intro tokens hne
  refine ⟨_, build_eq_some hne, ?_, accepted_iff_derives hne⟩
  intro length start hlength hspan
  exact cellExact_fill hlength (by omega) start hspan

def balanced : Grammar :=
  .ofProductions ⟨"S", ["a", "b"], ["S", "T", "A", "B"]⟩
    [⟨"S", .pair "A" "B"⟩, ⟨"S", .pair "A" "T"⟩, ⟨"T", .pair "S" "B"⟩,
      ⟨"A", .terminal "a"⟩, ⟨"B", .terminal "b"⟩]

theorem recognition_exact_balanced :
    ["a", "a", "b", "b"] ≠ [] ∧ 1 ≤ 3 ∧ 1 + 3 ≤ ["a", "a", "b", "b"].length ∧
      balanced.Derives "T" ["a", "b", "b"] ∧
      ¬ balanced.Derives "S" ["a", "b", "b"] := by
  obtain ⟨chart, hchart, hcells, _⟩ :=
    (recognition_exact balanced).1 ["a", "a", "b", "b"] (by decide)
  obtain ⟨cell, hcell, hmem⟩ := hcells 3 1 (by decide) (by decide)
  have hvalue : (build balanced ["a", "a", "b", "b"]).bind (·.cell 3 1) =
      some (SortedSet.ofList ["T"]) := by
    decide
  have heq : cell = SortedSet.ofList ["T"] := by
    rw [hchart] at hvalue
    exact Option.some.inj (hcell.symm.trans hvalue)
  subst heq
  refine ⟨by decide, by decide, by decide, (hmem "T").mp (by decide), ?_⟩
  intro hderives
  exact absurd ((hmem "S").mpr hderives) (by decide)

end Chart

end ChomskyChart
