import ChomskyChart.Proofs.StartOverride

namespace ChomskyChart.Chart

section Parts

variable {grammar : Grammar} {tokens : List String} {offset size length start : Nat}

theorem span_span (hpart : start + length ≤ size) :
    span (span tokens offset size) start length =
      span tokens (offset + start) length := by
  rw [span, drop_span, take_span (by omega)]

/-- Both cells hold what derives the same tokens, so they are the same cell. -/
theorem cell_span (hlength : 1 ≤ length) (hpart : start + length ≤ size)
    (hspan : offset + size ≤ tokens.length) :
    ∃ cell, (fill grammar (span tokens offset size) (size - 1)).cell length start =
      some cell ∧
      (fill grammar tokens (tokens.length - 1)).cell length (offset + start) =
        some cell := by
  have hsize := length_span hspan
  have hinner :
      CellExact grammar (span tokens offset size) (size - 1) length start :=
    cellExact_fill hlength (by omega) start (by omega)
  have houter :
      CellExact grammar tokens (tokens.length - 1) length (offset + start) :=
    cellExact_fill hlength (by omega) (offset + start) (by omega)
  obtain ⟨inner, hinnerCell, hinnerMem⟩ := hinner
  obtain ⟨outer, houterCell, houterMem⟩ := houter
  have hsame : inner = outer := by
    ext symbol
    rw [hinnerMem, houterMem, span_span hpart]
  subst hsame
  exact ⟨inner, hinnerCell, houterCell⟩

theorem span_ne_nil (hsize : 1 ≤ size) (hspan : offset + size ≤ tokens.length) :
    span tokens offset size ≠ [] := by
  have hlength := length_span hspan
  intro hnil
  rw [hnil, List.length_nil] at hlength
  omega

theorem build_span (hsize : 1 ≤ size) (hspan : offset + size ≤ tokens.length) :
    build grammar (span tokens offset size) =
      some (fill grammar (span tokens offset size) (size - 1)) := by
  rw [build_eq_some (span_ne_nil hsize hspan), length_span hspan]

theorem build_of_span (hsize : 1 ≤ size) (hspan : offset + size ≤ tokens.length) :
    build grammar tokens = some (fill grammar tokens (tokens.length - 1)) := by
  apply build_eq_some
  intro hnil
  rw [hnil, List.length_nil] at hspan
  omega

theorem accepted_span_iff {symbol : String} {cell : Cell} (hlength : 1 ≤ length)
    (hspan : start + length ≤ tokens.length)
    (hcell : (fill grammar tokens (tokens.length - 1)).cell length start =
      some cell) :
    (recognize (grammar.startingAt symbol) (span tokens start length)).accepted =
      true ↔ symbol ∈ cell := by
  obtain ⟨inner, hinner, houter⟩ : ∃ inner,
      (fill grammar (span tokens start length) (length - 1)).cell length 0 =
        some inner ∧
        (fill grammar tokens (tokens.length - 1)).cell length (start + 0) =
          some inner :=
    cell_span hlength (by omega) hspan
  cases hcell.symm.trans houter
  have hsize := length_span hspan
  have hne := span_ne_nil hlength hspan
  have hrules : (grammar.startingAt symbol).rules = grammar.rules := rfl
  rw [recognize_of_ne_nil hne, fill_congr hrules, accepts, decide_eq_true_iff,
    top_fill hne, hsize, hinner]
  rfl

end Parts

/-- The cell of a span tells which start symbols accept the span, and the chart
of the span has the same cells as the chart of the whole, under whichever start
symbols they are made. -/
theorem chart_answers_spans (grammar : Grammar) (tokens : List String) :
    (∀ length start, 1 ≤ length → start + length ≤ tokens.length →
      ∃ chart cell, build grammar tokens = some chart ∧
      chart.cell length start = some cell ∧
        ∀ symbol ∈ grammar.nonterminals, ∃ other,
          grammar.withStart symbol = .ok other ∧
          (symbol ∈ cell ↔
            (recognize other (span tokens start length)).accepted = true)) ∧
    ∀ starts others whole part, grammar.withStarts starts = .ok whole →
      grammar.withStarts others = .ok part → ∀ offset size, 1 ≤ size →
      offset + size ≤ tokens.length →
      ∃ chart inner, build whole tokens = some chart ∧
        build part (span tokens offset size) = some inner ∧
        ∀ length start, 1 ≤ length → start + length ≤ size →
          ∃ cell, inner.cell length start = some cell ∧
            chart.cell length (offset + start) = some cell := by
  apply And.intro
  · intro length start hlength hspan
    obtain ⟨cell, hcell, _⟩ :
        CellExact grammar tokens (tokens.length - 1) length start :=
      cellExact_fill hlength (by omega) start hspan
    refine ⟨_, cell, build_of_span hlength hspan, hcell, ?_⟩
    intro symbol hsymbol
    exact ⟨_, Grammar.withStart_of_mem hsymbol,
      (accepted_span_iff hlength hspan hcell).symm⟩
  · intro starts others whole part hwhole hpart offset size hsize hspan
    rw [build_congr (Grammar.rules_of_withStarts hwhole),
      build_congr (Grammar.rules_of_withStarts hpart)]
    refine ⟨_, _, build_of_span hsize hspan, build_span hsize hspan, ?_⟩
    intro length start hlength hpart
    exact cell_span hlength hpart hspan

theorem chart_answers_spans_balanced :
    (1 ≤ 2 ∧ 1 + 2 ≤ ["a", "a", "b", "b"].length ∧ "S" ∈ balanced.nonterminals ∧
      ∃ other, balanced.withStart "S" = .ok other ∧
        (recognize other ["a", "b"]).accepted = true) ∧
    ∃ whole part, balanced.withStarts ["A", "T"] = .ok whole ∧
      balanced.withStarts ["B"] = .ok part ∧
      1 ≤ 3 ∧ 1 + 3 ≤ ["a", "a", "b", "b"].length ∧
      ∃ chart inner cell, build whole ["a", "a", "b", "b"] = some chart ∧
        build part ["a", "b", "b"] = some inner ∧
        inner.cell 2 0 = some cell ∧ chart.cell 2 1 = some cell := by
  obtain ⟨hspans, hcharts⟩ := chart_answers_spans balanced ["a", "a", "b", "b"]
  obtain ⟨chart, cell, hchart, hcell, hsymbols⟩ :=
    hspans 2 1 (by decide) (by decide)
  obtain ⟨other, hother, haccepted⟩ := hsymbols "S" (by decide)
  have hmem : "S" ∈ cell := by
    have hvalue : (build balanced ["a", "a", "b", "b"]).bind (·.cell 2 1) =
        some (SortedSet.ofList ["S"]) := by
      decide
    rw [hchart] at hvalue
    cases hcell.symm.trans hvalue
    decide
  have hwhole : balanced.withStarts ["A", "T"] = .ok (balanced.startingAt "T") :=
    Grammar.withStarts_of_forall_mem (by decide)
  have hpart : balanced.withStarts ["B"] = .ok (balanced.startingAt "B") :=
    Grammar.withStarts_of_forall_mem (by decide)
  obtain ⟨outer, inner, houter, hinner, hcells⟩ :=
    hcharts _ _ _ _ hwhole hpart 1 3 (by decide) (by decide)
  obtain ⟨shared, hinnerCell, houterCell⟩ := hcells 2 0 (by decide) (by decide)
  exact ⟨⟨by decide, by decide, by decide, other, hother, haccepted.mp hmem⟩,
    _, _, hwhole, hpart, by decide, by decide, outer, inner, shared, houter, hinner,
    hinnerCell, houterCell⟩

end ChomskyChart.Chart
