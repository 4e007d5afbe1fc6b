import ChomskyChart.Grammar.Basic

namespace ChomskyChart

abbrev Cell := SortedSet String

/-- The cells of a row stand for the spans of one length, by the position where
the span starts. The first row holds the spans of length 1. -/
structure Chart where
  tokens : List String
  rows : List (List Cell)
  deriving DecidableEq

namespace Chart

def row (chart : Chart) : Nat → Option (List Cell)
  | 0 => none
  | length + 1 => chart.rows[length]?

def cell (chart : Chart) (length start : Nat) : Option Cell :=
  (chart.row length).bind (·[start]?)

/-- The cells of the two parts of a span, for every place where it is cut: the
left part has the first `split` tokens of the span, the right part the rest. -/
def parts (chart : Chart) (length start : Nat) (splits : List Nat) :
    List (Cell × Cell) :=
  splits.map fun split =>
    ((chart.cell split start).getD ∅,
      (chart.cell (length - split) (start + split)).getD ∅)

/-- The cell, and in it the producers of every pair that takes its members from
two other cells. -/
def withPairs (grammar : Grammar) (cell : Cell) (parts : Cell × Cell) : Cell :=
  (parts.1.toList.flatMap fun left => parts.2.toList.map (Prod.mk left)).foldl
    (fun known pair => known.insertAll (grammar.producersOfPair pair.1 pair.2))
    cell

def gatherCell (chart : Chart) (grammar : Grammar) (length start : Nat)
    (splits : List Nat) : Cell :=
  (chart.parts length start splits).foldl (withPairs grammar) ∅

def firstRow (grammar : Grammar) (tokens : List String) : List Cell :=
  tokens.map grammar.producersOfTerminal

def innerSplits (length : Nat) : List Nat :=
  List.range' 1 (length - 1)

def deriveRow (chart : Chart) (grammar : Grammar) (length : Nat) : List Cell :=
  (List.range (chart.tokens.length - (length - 1))).map fun start =>
    chart.gatherCell grammar length start (innerSplits length)

/-- The chart once the rows up to that of the spans of length `count + 1` are
filled. -/
def fill (grammar : Grammar) (tokens : List String) : Nat → Chart
  | 0 => ⟨tokens, [firstRow grammar tokens]⟩
  | count + 1 =>
      let chart := fill grammar tokens count
      { chart with rows := chart.rows ++ [chart.deriveRow grammar (count + 2)] }

def build (grammar : Grammar) (tokens : List String) : Option Chart :=
  if tokens = [] then none else some (fill grammar tokens (tokens.length - 1))

def top (chart : Chart) : Cell :=
  (chart.rows.getLast?.bind List.head?).getD ∅

def accepts (chart : Chart) (symbol : String) : Bool :=
  symbol ∈ chart.top

theorem mem_withPairs {grammar : Grammar} {cell : Cell} {parts : Cell × Cell}
    {symbol : String} :
    symbol ∈ withPairs grammar cell parts ↔
      symbol ∈ cell ∨ ∃ left ∈ parts.1, ∃ right ∈ parts.2,
        symbol ∈ grammar.producersOfPair left right := by
  rw [withPairs, SortedSet.mem_foldl_adding
    (fun pair : String × String =>
      symbol ∈ grammar.producersOfPair pair.1 pair.2)
    (fun _ _ => SortedSet.mem_insertAll)]
  apply or_congr_right
  constructor
  · rintro ⟨_, hpair, hproduced⟩
    obtain ⟨left, hleft, hrights⟩ := List.mem_flatMap.mp hpair
    obtain ⟨right, hright, rfl⟩ := List.mem_map.mp hrights
    exact ⟨left, hleft, right, hright, hproduced⟩
  · rintro ⟨left, hleft, right, hright, hproduced⟩
    have hpair : (left, right) ∈ parts.1.toList.flatMap fun left =>
        parts.2.toList.map (Prod.mk left) :=
      List.mem_flatMap.mpr ⟨left, hleft, List.mem_map_of_mem hright⟩
    exact ⟨_, hpair, hproduced⟩

theorem mem_gatherCell {chart : Chart} {grammar : Grammar} {length start : Nat}
    {splits : List Nat} {symbol : String} :
    symbol ∈ chart.gatherCell grammar length start splits ↔
      ∃ split ∈ splits, ∃ left ∈ (chart.cell split start).getD ∅,
        ∃ right ∈ (chart.cell (length - split) (start + split)).getD ∅,
          symbol ∈ grammar.producersOfPair left right := by
  rw [gatherCell, SortedSet.mem_foldl_adding
    (fun parts : Cell × Cell => ∃ left ∈ parts.1, ∃ right ∈ parts.2,
      symbol ∈ grammar.producersOfPair left right)
    (fun _ _ => mem_withPairs), parts]
  simp only [SortedSet.not_mem_empty, false_or, List.mem_map]
  constructor
  · rintro ⟨_, ⟨split, hsplit, rfl⟩, hproduced⟩
    exact ⟨split, hsplit, hproduced⟩
  · rintro ⟨split, hsplit, hproduced⟩
    exact ⟨_, ⟨split, hsplit, rfl⟩, hproduced⟩

@[simp] theorem tokens_fill (grammar : Grammar) (tokens : List String)
    (count : Nat) : (fill grammar tokens count).tokens = tokens := by
  induction count with
  | zero => rfl
  | succ count ih => exact ih

@[simp] theorem length_rows_fill (grammar : Grammar) (tokens : List String)
    (count : Nat) : (fill grammar tokens count).rows.length = count + 1 := by
  induction count with
  | zero => rfl
  | succ count ih => simp [fill, ih]

theorem row_fill_succ (grammar : Grammar) (tokens : List String)
    (count length : Nat) (hlength : length ≤ count + 1) :
    (fill grammar tokens (count + 1)).row length =
      (fill grammar tokens count).row length := by
  cases length with
  | zero => rfl
  | succ length =>
      apply List.getElem?_append_left
      rw [length_rows_fill]
      omega

end Chart

structure Recognition where
  chart : Option Chart
  accepted : Bool
  deriving DecidableEq

def recognize (grammar : Grammar) (tokens : List String) : Recognition :=
  match Chart.build grammar tokens with
  | none => ⟨none, grammar.derivesEmpty⟩
  | some chart => ⟨some chart, chart.accepts grammar.start⟩

end ChomskyChart
