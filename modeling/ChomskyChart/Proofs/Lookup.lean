import ChomskyChart.Proofs.Redeclaration

namespace ChomskyChart

namespace Producers

structure Filled (producers : Producers) : Prop where
  terminals : producers.terminals.All (· ≠ ∅)
  pairs : producers.pairs.All fun rights => rights ≠ ∅ ∧ rights.All (· ≠ ∅)

theorem including_ne_empty (symbol : String) (known : Option (SortedSet String)) :
    including symbol known ≠ ∅ := by
  intro hempty
  have hmem : symbol ∈ including symbol known := SortedSet.mem_insert.mpr (.inl rfl)
  rw [hempty] at hmem
  exact SortedSet.not_mem_empty symbol hmem

theorem update_ne_empty {ν : Type} (map : SortedMap String ν) (key : String)
    (change : Option ν → ν) : map.update key change ≠ ∅ := by
  intro hempty
  have hget := map.get?_update key key change
  rw [hempty, if_pos rfl] at hget
  cases hget

theorem Filled.add {producers : Producers} (hfilled : producers.Filled)
    (production : Production) : (producers.add production).Filled := by
  unfold Producers.add
  split
  · exact ⟨hfilled.terminals.update (including_ne_empty _ _), hfilled.pairs⟩
  · rename_i left right _
    have hrights : ((producers.pairs.get? left).getD ∅).All (· ≠ ∅) := by
      cases hget : producers.pairs.get? left with
      | none => exact SortedMap.all_empty _
      | some rights => exact (hfilled.pairs left rights hget).2
    exact ⟨hfilled.terminals, hfilled.pairs.update
      ⟨update_ne_empty _ _ _, hrights.update (including_ne_empty _ _)⟩⟩
  · exact ⟨hfilled.terminals, hfilled.pairs⟩

theorem filled_foldl_add (productions : List Production) {producers : Producers}
    (hfilled : producers.Filled) : (productions.foldl add producers).Filled := by
  induction productions generalizing producers with
  | nil => exact hfilled
  | cons production productions ih => exact ih (hfilled.add production)

theorem filled_ofRules (rules : Rules) : (ofRules rules).Filled :=
  filled_foldl_add _ ⟨SortedMap.all_empty _, SortedMap.all_empty _⟩

end Producers

namespace Grammar

theorem filled_producers (grammar : Grammar) : grammar.producers.Filled := by
  rw [grammar.producers_eq]
  exact Producers.filled_ofRules grammar.rules

theorem ext_entries {first second : Grammar} (hstart : first.start = second.start)
    (hterminals : first.terminals = second.terminals)
    (hnonterminals : first.nonterminals = second.nonterminals)
    (hentries : first.rules.entries = second.rules.entries) : first = second := by
  apply ext_rules
  · rw [vocabulary, vocabulary, hstart, hterminals, hnonterminals]
  · cases hfirst : first.rules
    cases hsecond : second.rules
    rw [hfirst, hsecond] at hentries
    cases hentries
    rfl

/-- Looking up the producers of an alternative finds the symbols that have it,
all of them and no others, whatever the start symbol is or was. What is kept for
it is never empty, and two grammars are the same value if their symbols and
rules are the same in the same order. -/
theorem producers_exact :
    (∀ grammar : Grammar,
      (∀ alternative symbol, symbol ∈ grammar.producersOf alternative ↔
        alternative ∈ grammar.alternatives symbol) ∧
      (∀ terminal, grammar.producersOfTerminal terminal =
        grammar.producersOf (.terminal terminal)) ∧
      (∀ left right, grammar.producersOfPair left right =
        grammar.producersOf (.pair left right)) ∧
      (∀ symbol, grammar.nullable symbol = true ↔
        symbol ∈ grammar.producersOf .empty) ∧
      grammar.producers.Filled) ∧
    ∀ first second : Grammar, first = second ↔
      first.start = second.start ∧ first.terminals = second.terminals ∧
        first.nonterminals = second.nonterminals ∧
          first.rules.entries = second.rules.entries := by
  apply And.intro
  · intro grammar
    refine ⟨fun _ _ => mem_producersOf, fun _ => rfl, fun _ _ => rfl, ?_,
      grammar.filled_producers⟩
    intro symbol
    rw [nullable, decide_eq_true_iff]
  · intro first second
    apply Iff.intro
    · intro heq
      rw [heq]
      exact ⟨rfl, rfl, rfl, rfl⟩
    · intro hparts
      obtain ⟨hstart, hterminals, hnonterminals, hentries⟩ := hparts
      exact ext_entries hstart hterminals hnonterminals hentries

end Grammar

end ChomskyChart
