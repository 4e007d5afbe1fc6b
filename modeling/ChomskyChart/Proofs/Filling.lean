import ChomskyChart.Chart

namespace ChomskyChart

def Alternative.joins (neighbours : List (Cell × Cell)) : Alternative → Bool
  | .pair left right =>
      neighbours.any fun cells => left ∈ cells.1 && right ∈ cells.2
  | _ => false

theorem Alternative.joins_iff {neighbours : List (Cell × Cell)}
    {alternative : Alternative} :
    alternative.joins neighbours = true ↔
      ∃ cells ∈ neighbours, ∃ left ∈ cells.1, ∃ right ∈ cells.2,
        alternative = .pair left right := by
  cases alternative with
  | pair left right => simp [joins]
  | terminal _ => simp [joins]
  | empty => simp [joins]

namespace Chart

variable {grammar : Grammar} {tokens : List String}

section Deriving

variable {chart : Chart} {length start : Nat} {splits : List Nat} {symbol : String}

/-- The nonterminals with a pair that derives the span cut at one of the given
splits, found among their alternatives. -/
def deriveCell (chart : Chart) (grammar : Grammar) (length start : Nat)
    (splits : List Nat) : Cell :=
  let parts := chart.parts length start splits
  grammar.rules.symbolsWith (·.joins parts)

theorem mem_deriveCell :
    symbol ∈ chart.deriveCell grammar length start splits ↔
      ∃ split ∈ splits, ∃ left ∈ (chart.cell split start).getD ∅,
        ∃ right ∈ (chart.cell (length - split) (start + split)).getD ∅,
          .pair left right ∈ grammar.alternatives symbol := by
  simp only [deriveCell, Rules.mem_symbolsWith, Alternative.joins_iff, parts,
    List.mem_map]
  constructor
  · rintro ⟨_, hpair, _, ⟨split, hsplit, rfl⟩, left, hleft, right, hright, rfl⟩
    exact ⟨split, hsplit, left, hleft, right, hright, hpair⟩
  · rintro ⟨split, hsplit, left, hleft, right, hright, hpair⟩
    exact ⟨_, hpair, _, ⟨split, hsplit, rfl⟩, left, hleft, right, hright, rfl⟩

theorem gatherCell_eq_deriveCell :
    chart.gatherCell grammar length start splits =
      chart.deriveCell grammar length start splits := by
  ext symbol
  simp only [mem_gatherCell, mem_deriveCell, Grammar.producersOfPair,
    Grammar.mem_producersOf]

end Deriving

theorem row_fill_of_le {earlier later length : Nat} (hle : earlier ≤ later)
    (hlength : length ≤ earlier + 1) :
    (fill grammar tokens later).row length =
      (fill grammar tokens earlier).row length := by
  induction later with
  | zero =>
      have hzero : earlier = 0 := by omega
      subst earlier
      rfl
  | succ later ih =>
      by_cases heq : earlier = later + 1
      · subst earlier
        rfl
      · have hearlier : earlier ≤ later := by omega
        rw [row_fill_succ grammar tokens later length (by omega)]
        exact ih hearlier

theorem row_fill_one (count : Nat) :
    (fill grammar tokens count).row 1 = some (firstRow grammar tokens) :=
  row_fill_of_le (Nat.zero_le count) (Nat.le_refl 1)

theorem row_fill_last (count : Nat) :
    (fill grammar tokens (count + 1)).row (count + 2) =
      some ((fill grammar tokens count).deriveRow grammar (count + 2)) := by
  change (fill grammar tokens (count + 1)).rows[count + 1]? = _
  rw [fill, List.getElem?_append_right (by simp)]
  simp

theorem row_fill_add_two {count length : Nat} (hlength : length + 1 ≤ count) :
    (fill grammar tokens count).row (length + 2) =
      some ((fill grammar tokens length).deriveRow grammar (length + 2)) := by
  rw [row_fill_of_le hlength (Nat.le_refl _), row_fill_last]

theorem cell_fill_of_le {earlier later length : Nat} (hle : earlier ≤ later)
    (hlength : length ≤ earlier + 1) (start : Nat) :
    (fill grammar tokens later).cell length start =
      (fill grammar tokens earlier).cell length start := by
  rw [cell, row_fill_of_le hle hlength, cell]

theorem cell_fill_one (count start : Nat) :
    (fill grammar tokens count).cell 1 start =
      tokens[start]?.map grammar.producersOfTerminal := by
  rw [cell, row_fill_one]
  exact List.getElem?_map

theorem gatherCell_congr {first second : Chart} {length start : Nat}
    {splits : List Nat}
    (hleft : ∀ split ∈ splits, first.cell split start = second.cell split start)
    (hright : ∀ split ∈ splits,
      first.cell (length - split) (start + split) =
        second.cell (length - split) (start + split)) :
    first.gatherCell grammar length start splits =
      second.gatherCell grammar length start splits := by
  have hparts : first.parts length start splits =
      second.parts length start splits := by
    apply List.map_congr_left
    intro split hsplit
    rw [hleft split hsplit, hright split hsplit]
  unfold gatherCell
  rw [hparts]

theorem mem_innerSplits {length split : Nat} :
    split ∈ innerSplits length ↔ 1 ≤ split ∧ split < length := by
  rw [innerSplits, List.mem_range'_1]
  omega

/-- From the second row on, the finished chart gives each of its cells again,
although it has rows that were not there when the cell was filled. -/
theorem cell_fill_eq_gatherCell {count length start : Nat} (hlong : 2 ≤ length)
    (hcount : length ≤ count + 1) (hspan : start + length ≤ tokens.length) :
    (fill grammar tokens count).cell length start =
      some ((fill grammar tokens count).gatherCell grammar length start
        (innerSplits length)) := by
  obtain ⟨shorter, rfl⟩ : ∃ shorter, length = shorter + 2 :=
    ⟨length - 2, by omega⟩
  have hstart : start < tokens.length - (shorter + 1) := by omega
  rw [cell, row_fill_add_two (by omega)]
  have hlookup : ((fill grammar tokens shorter).deriveRow grammar
      (shorter + 2))[start]? =
        some ((fill grammar tokens shorter).gatherCell grammar (shorter + 2)
          start (innerSplits (shorter + 2))) := by
    simp [deriveRow, hstart]
  have hstable (part position : Nat) (hpart : part ≤ shorter + 1) :
      (fill grammar tokens shorter).cell part position =
        (fill grammar tokens count).cell part position :=
    (cell_fill_of_le (by omega) hpart position).symm
  refine hlookup.trans (congrArg some (gatherCell_congr ?_ ?_))
  · intro split hsplit
    have hbounds := mem_innerSplits.mp hsplit
    exact hstable split start (by omega)
  · intro split hsplit
    have hbounds := mem_innerSplits.mp hsplit
    exact hstable (shorter + 2 - split) (start + split) (by omega)

theorem cell_fill_eq_deriveCell {count length start : Nat} (hlong : 2 ≤ length)
    (hcount : length ≤ count + 1) (hspan : start + length ≤ tokens.length) :
    (fill grammar tokens count).cell length start =
      some ((fill grammar tokens count).deriveCell grammar length start
        (innerSplits length)) := by
  rw [cell_fill_eq_gatherCell hlong hcount hspan, gatherCell_eq_deriveCell]

end Chart

end ChomskyChart
