import ChomskyChart.Proofs.Triangle

namespace ChomskyChart

theorem SortedSet.mem_getD_empty {α : Type} [Ord α]
    {found : Option (SortedSet α)} {element : α} :
    element ∈ found.getD ∅ ↔ ∃ set, found = some set ∧ element ∈ set := by
  cases found with
  | none => simp
  | some set => simp

namespace Chart

section Gathering

variable {grammar : Grammar} {chart : Chart} {length start : Nat}
  {splits others : List Nat} {symbol : String}

theorem deriveCell_of_mem_iff (hsplits : ∀ split, split ∈ splits ↔ split ∈ others) :
    chart.deriveCell grammar length start splits =
      chart.deriveCell grammar length start others := by
  ext symbol
  simp only [mem_deriveCell, hsplits]

theorem mem_deriveCell_fill {tokens : List String} (hne : tokens ≠ []) :
    symbol ∈ (fill grammar tokens
      (tokens.length - 1)).deriveCell grammar length start splits ↔
      ∃ split ∈ splits, 1 ≤ split ∧ split < length ∧ ∃ left right,
        (fill grammar tokens (tokens.length - 1)).cell split start = some left ∧
        (fill grammar tokens (tokens.length - 1)).cell (length - split)
          (start + split) = some right ∧
        ∃ first ∈ left, ∃ second ∈ right,
          symbol ∈ grammar.producersOfPair first second := by
  simp only [← gatherCell_eq_deriveCell, mem_gatherCell, SortedSet.mem_getD_empty]
  apply Iff.intro
  · rintro ⟨split, hsplit, first, ⟨left, hleft, hfirst⟩, second,
      ⟨right, hright, hsecond⟩, hpair⟩
    have hbefore := (isSome_cell_fill_iff hne).mp (Option.isSome_of_eq_some hleft)
    have hbehind := (isSome_cell_fill_iff hne).mp (Option.isSome_of_eq_some hright)
    exact ⟨split, hsplit, by omega, by omega, left, right, hleft, hright, first,
      hfirst, second, hsecond, hpair⟩
  · rintro ⟨split, hsplit, _, _, left, right, hleft, hright, first, hfirst, second,
      hsecond, hpair⟩
    exact ⟨split, hsplit, first, ⟨left, hleft, hfirst⟩, second,
      ⟨right, hright, hsecond⟩, hpair⟩

end Gathering

/-- The finished chart gives each of its cells again from the splits of the
span, in any order and with any repeats. From other splits it gives the union
over those that leave something on both sides, gathered as they come. -/
theorem cell_of_splits (grammar : Grammar) {tokens : List String} {chart : Chart}
    (hchart : build grammar tokens = some chart) {length start : Nat}
    (hlong : 2 ≤ length) (hspan : start + length ≤ tokens.length) :
    (∀ splits : List Nat, (∀ split, split ∈ splits ↔ 1 ≤ split ∧ split < length) →
      chart.cell length start =
        some (chart.deriveCell grammar length start splits)) ∧
    ∀ splits : List Nat, (∀ split ∈ splits, split ≤ length) →
      chart.gatherCell grammar length start splits =
        chart.deriveCell grammar length start splits ∧
      ∀ symbol, symbol ∈ chart.deriveCell grammar length start splits ↔
        ∃ split ∈ splits, 1 ≤ split ∧ split < length ∧ ∃ left right,
          chart.cell split start = some left ∧
          chart.cell (length - split) (start + split) = some right ∧
          ∃ first ∈ left, ∃ second ∈ right,
            symbol ∈ grammar.producersOfPair first second := by
  obtain ⟨hne, rfl⟩ := eq_fill_of_build hchart
  apply And.intro
  · intro splits hsplits
    rw [cell_fill_eq_deriveCell hlong (by omega) hspan]
    exact congrArg some
      (deriveCell_of_mem_iff fun split =>
        mem_innerSplits.trans (hsplits split).symm)
  · intro splits _
    exact ⟨gatherCell_eq_deriveCell, fun symbol => mem_deriveCell_fill hne⟩

theorem cell_of_splits_balanced :
    ∃ chart, build balanced ["a", "a", "b", "b"] = some chart ∧ 2 ≤ 4 ∧
      0 + 4 ≤ ["a", "a", "b", "b"].length ∧
      (∀ split, split ∈ [3, 1, 2, 3] ↔ 1 ≤ split ∧ split < 4) ∧
      chart.cell 4 0 = some (chart.deriveCell balanced 4 0 [3, 1, 2, 3]) ∧
      (∀ split ∈ [4, 1, 0, 1], split ≤ 4) ∧
      "S" ∈ chart.gatherCell balanced 4 0 [4, 1, 0, 1] := by
  have hchart : build balanced ["a", "a", "b", "b"] =
      some (fill balanced ["a", "a", "b", "b"] 3) :=
    build_eq_some (by decide)
  have hsplits : ∀ split, split ∈ [3, 1, 2, 3] ↔ 1 ≤ split ∧ split < 4 := by
    intro split
    simp only [List.mem_cons, List.not_mem_nil, or_false]
    omega
  have hbounds : ∀ split ∈ [4, 1, 0, 1], split ≤ 4 := by decide
  obtain ⟨hcell, hunion⟩ := cell_of_splits balanced hchart (by decide : 2 ≤ 4)
    (by decide : 0 + 4 ≤ ["a", "a", "b", "b"].length)
  refine ⟨_, hchart, by decide, by decide, hsplits, hcell _ hsplits, hbounds, ?_⟩
  obtain ⟨hgathered, hmem⟩ := hunion [4, 1, 0, 1] hbounds
  rw [hgathered, hmem]
  exact ⟨1, by decide, by decide, by decide, .ofList ["A"], .ofList ["T"],
    by decide, by decide, "A", by decide, "T", by decide, by decide⟩

end Chart

end ChomskyChart
