import ChomskyChart.Proofs.Triangle

namespace ChomskyChart

namespace Grammar

variable {first second : Grammar}

theorem Derives.mono (hwithin : first.Within second) {symbol : String}
    {tokens : List String}
    (hderives : first.Derives symbol tokens) : second.Derives symbol tokens := by
  induction hderives with
  | terminal hterminal => exact .terminal (hwithin _ _ nofun hterminal)
  | pair hpair _ _ ihFirst ihSecond =>
      exact .pair (hwithin _ _ nofun hpair) ihFirst ihSecond

theorem within_of_productions
    (hproductions :
      ∀ production ∈ first.rules.productions, production.alternative ≠ .empty →
      production ∈ second.rules.productions) : first.Within second := by
  intro symbol alternative hne halternative
  have hproduction : ⟨symbol, alternative⟩ ∈ first.rules.productions :=
    mem_productions.mpr halternative
  exact mem_productions.mp (hproductions _ hproduction hne)

end Grammar

namespace Chart

variable {first second : Grammar} {tokens : List String}

theorem cell_subset (hwithin : first.Within second) (hne : tokens ≠ [])
    {length start : Nat} {cell : Cell}
    (hcell : (fill first tokens (tokens.length - 1)).cell length start =
      some cell) :
    ∃ larger, (fill second tokens (tokens.length - 1)).cell length start =
      some larger ∧
      cell ⊆ larger := by
  obtain ⟨hlength, hspan⟩ :=
    (isSome_cell_fill_iff hne).mp (Option.isSome_of_eq_some hcell)
  obtain ⟨larger, hlarger⟩ := exists_cell_fill second hne hlength hspan
  refine ⟨larger, hlarger, ?_⟩
  intro symbol hsymbol
  have hderives := (mem_cell_fill_iff hne hcell).mp hsymbol
  exact (mem_cell_fill_iff hne hlarger).mpr (hderives.mono hwithin)

/-- With more terminals and pairs every cell keeps what it holds, and what is
accepted stays accepted. With the same ones the chart is the same, whatever the
empty alternatives, the symbols that no production needs and the start symbol
are. -/
theorem charts_grow (first second : Grammar) :
    (first.Within second → ∀ tokens, tokens ≠ [] →
      (∃ chart larger, build first tokens = some chart ∧
        build second tokens = some larger ∧
        ∀ length start cell, chart.cell length start = some cell →
          ∃ largerCell, larger.cell length start = some largerCell ∧
          cell ⊆ largerCell) ∧
      (first.start = second.start → (recognize first tokens).accepted = true →
        (recognize second tokens).accepted = true)) ∧
    (first.Within second → second.Within first → ∀ tokens,
      build first tokens = build second tokens) := by
  refine ⟨?_, build_of_within⟩
  intro hwithin tokens hne
  apply And.intro
  · refine ⟨_, _, build_eq_some hne, build_eq_some hne, ?_⟩
    intro length start cell hcell
    exact cell_subset hwithin hne hcell
  · intro hstart haccepted
    rw [accepted_iff_derives hne] at haccepted ⊢
    rw [← hstart]
    exact haccepted.mono hwithin

def shortest : Grammar :=
  .ofProductions ⟨"S", ["a", "b"], ["S", "A", "B"]⟩
    [⟨"S", .pair "A" "B"⟩, ⟨"A", .terminal "a"⟩, ⟨"B", .terminal "b"⟩]

def balancedInside : Grammar :=
  .ofProductions ⟨"U", ["c", "b", "a"], ["U", "B", "A", "T", "S"]⟩
    [⟨"U", .empty⟩, ⟨"B", .terminal "b"⟩, ⟨"A", .terminal "a"⟩,
      ⟨"T", .pair "S" "B"⟩, ⟨"S", .empty⟩, ⟨"S", .pair "A" "T"⟩,
      ⟨"S", .pair "A" "B"⟩]

theorem charts_grow_balanced :
    (shortest.Within balanced ∧ ["a", "b"] ≠ [] ∧ shortest.start = balanced.start ∧
      (recognize shortest ["a", "b"]).accepted = true ∧
      (recognize balanced ["a", "b"]).accepted = true) ∧
    balanced.Within balancedInside ∧ balancedInside.Within balanced ∧
      build balanced ["a", "a", "b", "b"] =
        build balancedInside ["a", "a", "b", "b"] := by
  have hwithin : shortest.Within balanced :=
    Grammar.within_of_productions (by decide)
  have hforth : balanced.Within balancedInside :=
    Grammar.within_of_productions (by decide)
  have hback : balancedInside.Within balanced :=
    Grammar.within_of_productions (by decide)
  have haccepted : (recognize shortest ["a", "b"]).accepted = true := by decide
  obtain ⟨_, haccepts⟩ :=
    (charts_grow shortest balanced).1 hwithin ["a", "b"] (by decide)
  exact ⟨⟨hwithin, by decide, rfl, haccepted, haccepts rfl haccepted⟩, hforth,
    hback, (charts_grow balanced balancedInside).2 hforth hback _⟩

end Chart

end ChomskyChart
