import ChomskyChart.Grammar.Rules
import ChomskyChart.Grammar.Vocabulary

namespace ChomskyChart

/-- A grammar keeps its rules together with their reverse grouping, in which the
producers of an alternative are looked up. -/
structure Grammar where
  start : String
  terminals : List String
  nonterminals : List String
  rules : Rules
  producers : Producers
  producers_eq : producers = Producers.ofRules rules := by rfl
  deriving DecidableEq

namespace Grammar

def ofProductions (vocabulary : Vocabulary)
    (productions : List Production) : Grammar where
  start := vocabulary.start
  terminals := vocabulary.terminals
  nonterminals := vocabulary.nonterminals
  rules := Rules.ofProductions productions
  producers := Producers.ofRules (Rules.ofProductions productions)

/-- The grammar that the declarations make over a vocabulary, in which repeats
do not count. Problems of the vocabulary itself are placed at the origin. -/
def build (vocabulary : Vocabulary) (declarations : List Declaration)
    (origin : Location := .unknown) :
    Except (List (Located GrammarFault)) Grammar :=
  let symbols := vocabulary.distinct
  match symbols.problems declarations origin with
  | [] => .ok (ofProductions symbols (symbols.productionsOf declarations))
  | problems => .error problems

def withStart (grammar : Grammar) (start : String) :
    Except (List (Located GrammarFault)) Grammar :=
  if start ∈ grammar.nonterminals then .ok { grammar with start }
  else .error [⟨.unknown, .startNotNonterminal start⟩]

def alternatives (grammar : Grammar) (symbol : String) : List Alternative :=
  grammar.rules.alternatives symbol

def producersOf (grammar : Grammar) (alternative : Alternative) :
    SortedSet String := grammar.producers.of alternative

def producersOfTerminal (grammar : Grammar) (terminal : String) :
    SortedSet String := grammar.producersOf (.terminal terminal)

def producersOfPair (grammar : Grammar) (left right : String) : SortedSet String :=
  grammar.producersOf (.pair left right)

def nullable (grammar : Grammar) (symbol : String) : Bool :=
  symbol ∈ grammar.producersOf .empty

def derivesEmpty (grammar : Grammar) : Bool :=
  grammar.nullable grammar.start

/-- The nonterminals with an empty alternative that is never used in
recognition: all but the start symbol. -/
def strayEmpty (grammar : Grammar) : List String :=
  (grammar.producersOf .empty).toList.filter (· ≠ grammar.start)

theorem mem_producersOf {grammar : Grammar} {alternative : Alternative}
    {symbol : String} :
    symbol ∈ grammar.producersOf alternative ↔
      alternative ∈ grammar.alternatives symbol := by
  rw [producersOf, grammar.producers_eq]
  exact Producers.mem_producers_iff grammar.rules alternative symbol

theorem nullable_iff {grammar : Grammar} {symbol : String} :
    grammar.nullable symbol = true ↔ .empty ∈ grammar.alternatives symbol := by
  rw [nullable, decide_eq_true_iff, mem_producersOf]

theorem mem_strayEmpty {grammar : Grammar} {symbol : String} :
    symbol ∈ grammar.strayEmpty ↔
      .empty ∈ grammar.alternatives symbol ∧ symbol ≠ grammar.start := by
  rw [strayEmpty, List.mem_filter, ← SortedSet.mem_def, mem_producersOf,
    decide_eq_true_iff]

end Grammar

end ChomskyChart
