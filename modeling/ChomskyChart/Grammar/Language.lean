import ChomskyChart.Grammar.Basic
import Mathlib.Computability.ContextFreeGrammar

namespace ChomskyChart

def Alternative.output : Alternative → List (Symbol String String)
  | terminal symbol => [.terminal symbol]
  | pair left right => [.nonterminal left, .nonterminal right]
  | empty => []

def Production.contextFreeRule (production : Production) :
    ContextFreeRule String String :=
  ⟨production.symbol, production.alternative.output⟩

namespace Grammar

def contextFree (grammar : Grammar) : ContextFreeGrammar String where
  NT := String
  initial := grammar.start
  rules := (grammar.rules.productions.map Production.contextFreeRule).toFinset

def language (grammar : Grammar) : Language String :=
  grammar.contextFree.language

theorem mem_contextFree_rules {grammar : Grammar}
    {rule : ContextFreeRule String String} :
    rule ∈ grammar.contextFree.rules ↔
      ∃ alternative ∈ grammar.alternatives rule.input,
        rule.output = alternative.output := by
  change
    rule ∈ (grammar.rules.productions.map Production.contextFreeRule).toFinset ↔ _
  rw [List.mem_toFinset, List.mem_map]
  constructor
  · rintro ⟨production, hproduction, rfl⟩
    exact ⟨production.alternative,
      (Rules.mem_productions_iff grammar.rules production).mp hproduction, rfl⟩
  · rintro ⟨alternative, halternative, houtput⟩
    refine ⟨⟨rule.input, alternative⟩,
      (Rules.mem_productions_iff grammar.rules _).mpr halternative, ?_⟩
    rw [Production.contextFreeRule, ← houtput]

end Grammar

end ChomskyChart
