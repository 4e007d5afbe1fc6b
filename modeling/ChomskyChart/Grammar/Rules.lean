import ChomskyChart.Grammar.Alternative
import ChomskyChart.Sorted.Map
import ChomskyChart.Sorted.Set

namespace ChomskyChart

abbrev Rules := SortedMap String (List Alternative)

namespace Rules

def alternatives (rules : Rules) (symbol : String) : List Alternative :=
  (rules.get? symbol).getD []

def add (rules : Rules) (production : Production) : Rules :=
  rules.update production.symbol fun known =>
    known.getD [] ++ [production.alternative]

def ofProductions (productions : List Production) : Rules :=
  productions.foldl add ∅

def productions (rules : Rules) : List Production :=
  rules.entries.flatMap fun entry => entry.2.map (Production.mk entry.1)

def symbolsWith (rules : Rules) (test : Alternative → Bool) : SortedSet String :=
  rules.keysWhere (·.any test)

theorem alternatives_add (rules : Rules) (production : Production)
    (symbol : String) :
    (rules.add production).alternatives symbol =
      rules.alternatives symbol ++
        if production.symbol = symbol then [production.alternative] else [] := by
  simp only [alternatives, add, SortedMap.get?_update]
  by_cases hsymbol : symbol = production.symbol
  · simp [hsymbol]
  · simp [hsymbol, Ne.symm hsymbol]

private theorem alternatives_foldl_add (productions : List Production)
    (rules : Rules) (symbol : String) :
    (productions.foldl add rules).alternatives symbol =
      rules.alternatives symbol ++
        (productions.filter (·.symbol = symbol)).map (·.alternative) := by
  induction productions generalizing rules with
  | nil => simp
  | cons head tail ih =>
      rw [List.foldl_cons, ih, alternatives_add, List.append_assoc]
      by_cases hsymbol : head.symbol = symbol <;> simp [hsymbol]

theorem alternatives_ofProductions (productions : List Production)
    (symbol : String) :
    (ofProductions productions).alternatives symbol =
      (productions.filter (·.symbol = symbol)).map (·.alternative) := by
  rw [ofProductions, alternatives_foldl_add]
  rfl

theorem mem_productions_iff (rules : Rules) (production : Production) :
    production ∈ rules.productions ↔
      production.alternative ∈ rules.alternatives production.symbol := by
  simp only [productions, List.mem_flatMap, List.mem_map, alternatives]
  constructor
  · rintro ⟨entry, hentry, alternative, halternative, rfl⟩
    rw [SortedMap.get?_eq_some_iff.mpr hentry]
    exact halternative
  · intro halternative
    cases hget : rules.get? production.symbol with
    | none =>
        rw [hget] at halternative
        cases halternative
    | some known =>
        rw [hget] at halternative
        exact ⟨_, SortedMap.get?_eq_some_iff.mp hget, production.alternative,
          halternative, rfl⟩

theorem mem_symbolsWith {rules : Rules} {test : Alternative → Bool}
    {symbol : String} :
    symbol ∈ rules.symbolsWith test ↔
      ∃ alternative ∈ rules.alternatives symbol, test alternative = true := by
  rw [symbolsWith, SortedMap.mem_keysWhere, alternatives]
  cases rules.get? symbol <;> simp

end Rules

/-- The nonterminals with a given alternative. Terminals are found by
themselves, and pairs by their left member first and then by their right one. -/
structure Producers where
  terminals : SortedMap String (SortedSet String) := ∅
  pairs : SortedMap String (SortedMap String (SortedSet String)) := ∅
  empties : SortedSet String := ∅
  deriving DecidableEq, Repr

namespace Producers

def ofPair (producers : Producers) (left right : String) : SortedSet String :=
  ((producers.pairs.get? left).bind (·.get? right)).getD ∅

def of (producers : Producers) : Alternative → SortedSet String
  | .terminal symbol => (producers.terminals.get? symbol).getD ∅
  | .pair left right => producers.ofPair left right
  | .empty => producers.empties

/-- What an index keeps under its key once the symbol is among what was found
there. -/
def including (symbol : String) (known : Option (SortedSet String)) :
    SortedSet String := (known.getD ∅).insert symbol

def add (producers : Producers) (production : Production) : Producers :=
  match production.alternative with
  | .terminal symbol =>
      { producers with
        terminals :=
          producers.terminals.update symbol (including production.symbol) }
  | .pair left right =>
      { producers with
        pairs := producers.pairs.update left fun rights =>
          (rights.getD ∅).update right (including production.symbol) }
  | .empty =>
      { producers with empties := producers.empties.insert production.symbol }

def ofRules (rules : Rules) : Producers :=
  rules.productions.foldl add {}

theorem ofPair_add (producers : Producers)
    (symbol left right first second : String) :
    (producers.add ⟨symbol, .pair left right⟩).ofPair first second =
      if first = left ∧ second = right
        then (producers.ofPair left right).insert symbol
      else producers.ofPair first second := by
  simp only [ofPair, add, SortedMap.get?_update]
  by_cases hleft : first = left
  · subst hleft
    by_cases hright : second = right
    · cases producers.pairs.get? first <;>
        simp [hright, SortedMap.get?_update, including]
    · cases producers.pairs.get? first <;> simp [hright, SortedMap.get?_update]
  · simp [hleft]

theorem of_add (producers : Producers) (symbol : String)
    (added alternative : Alternative) :
    (producers.add ⟨symbol, added⟩).of alternative =
      if alternative = added then (producers.of added).insert symbol
      else producers.of alternative := by
  cases added with
  | terminal known =>
      cases alternative with
      | terminal asked =>
          by_cases hasked : asked = known
          · simp [of, add, SortedMap.get?_update, including, hasked]
          · simp [of, add, SortedMap.get?_update, hasked]
      | pair first second => simp [of, ofPair, add]
      | empty => simp [of, add]
  | pair left right =>
      cases alternative with
      | terminal asked => simp [of, add]
      | pair first second => simp [of, ofPair_add]
      | empty => simp [of, add]
  | empty =>
      cases alternative with
      | terminal asked => simp [of, add]
      | pair first second => simp [of, ofPair, add]
      | empty => simp [of, add]

theorem mem_of_add (producers : Producers) (production : Production)
    (alternative : Alternative) (symbol : String) :
    symbol ∈ (producers.add production).of alternative ↔
      production = ⟨symbol, alternative⟩ ∨ symbol ∈ producers.of alternative := by
  cases production with
  | mk left added =>
      rw [of_add, Production.mk.injEq]
      by_cases halternative : alternative = added
      · simp [halternative, eq_comm]
      · simp [halternative, Ne.symm halternative]

private theorem mem_of_foldl_add (productions : List Production)
    (producers : Producers) (alternative : Alternative) (symbol : String) :
    symbol ∈ (productions.foldl add producers).of alternative ↔
      ⟨symbol, alternative⟩ ∈ productions ∨ symbol ∈ producers.of alternative := by
  induction productions generalizing producers with
  | nil => simp
  | cons head tail ih =>
      rw [List.foldl_cons, ih, mem_of_add, List.mem_cons]
      grind

theorem not_mem_of_none (alternative : Alternative) (symbol : String) :
    symbol ∉ ({} : Producers).of alternative := by
  cases alternative <;> simp [of, ofPair]

theorem mem_producers_iff (rules : Rules) (alternative : Alternative)
    (symbol : String) :
    symbol ∈ (ofRules rules).of alternative ↔
      alternative ∈ rules.alternatives symbol := by
  rw [ofRules, mem_of_foldl_add, Rules.mem_productions_iff]
  simp [not_mem_of_none]

end Producers

end ChomskyChart
