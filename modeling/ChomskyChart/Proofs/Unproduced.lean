import ChomskyChart.Proofs.Reporting
import ChomskyChart.Proofs.Triangle

namespace ChomskyChart

namespace Grammar

/-- The grammars that there are: declared, read, or one of these with another
start symbol. -/
inductive Obtained : Grammar → Prop where
  | built {vocabulary : Vocabulary} {declarations : List Declaration}
      {origin : Location} {grammar : Grammar}
      (hbuilt : build vocabulary declarations origin = .ok grammar) :
      Obtained grammar
  | text {text : String} {grammar : Grammar}
      (hread : Source.grammarOfText text = .ok grammar) : Obtained grammar
  | file {file : String} {contents : Except FileFailure (List UInt8)}
      {grammar : Grammar}
      (hread : Source.grammarOfFile file contents = .ok grammar) : Obtained grammar
  | restarted {grammar other : Grammar} {start : String}
      (hobtained : Obtained grammar)
      (hchanged : grammar.withStart start = .ok other) : Obtained other

variable {grammar : Grammar}

theorem sound_of_read {outcome : Except (List (Located SourceFault)) Draft}
    {file : String}
    (hread : (outcome >>= fun draft => draft.grammar file) = .ok grammar) :
    grammar.Sound := by
  obtain ⟨draft, _, hgrammar⟩ := bind_eq_ok hread
  exact sound_of_build (Draft.build_of_grammar hgrammar)

/-- Up to its start symbol every grammar is one that was built from
declarations. -/
theorem Obtained.exists_sound (hobtained : grammar.Obtained) :
    ∃ built : Grammar, built.Sound ∧ grammar = built.startingAt grammar.start := by
  induction hobtained with
  | built hbuilt => exact ⟨_, sound_of_build hbuilt, rfl⟩
  | text hread => exact ⟨_, sound_of_read hread, rfl⟩
  | file hread => exact ⟨_, sound_of_read hread, rfl⟩
  | restarted _ hchanged ih =>
      obtain ⟨built, hsound, heq⟩ := ih
      rw [exists_of_withStart hchanged, heq]
      exact ⟨built, hsound, rfl⟩

theorem Obtained.not_mem_terminals (hobtained : grammar.Obtained) {token : String}
    (htoken : token = emptyMarker ∨ token ∈ grammar.nonterminals) :
    token ∉ grammar.terminals := by
  obtain ⟨built, hsound, heq⟩ := hobtained.exists_sound
  rw [heq] at htoken ⊢
  rcases htoken with rfl | hnonterminal
  · exact hsound.proper.marker_not_terminal
  · intro hterminal
    exact hsound.proper.disjoint token hterminal hnonterminal

theorem Obtained.mem_terminals (hobtained : grammar.Obtained)
    {symbol token : String}
    (hterminal : .terminal token ∈ grammar.alternatives symbol) :
    token ∈ grammar.terminals := by
  obtain ⟨built, hsound, heq⟩ := hobtained.exists_sound
  rw [heq] at hterminal ⊢
  obtain ⟨_, hshapes⟩ := hsound.declared symbol (.terminal token) hterminal
  cases hshapes with
  | terminal hdeclared _ => exact hdeclared

theorem Derives.exists_producer {symbol : String} {tokens : List String}
    (hderives : grammar.Derives symbol tokens) :
    ∀ token ∈ tokens, ∃ producer,
      .terminal token ∈ grammar.alternatives producer := by
  induction hderives with
  | terminal hterminal =>
      intro token htoken
      cases List.mem_singleton.mp htoken
      exact ⟨_, hterminal⟩
  | pair _ _ _ ihFirst ihSecond =>
      intro token htoken
      rcases List.mem_append.mp htoken with hfirst | hsecond
      · exact ihFirst token hfirst
      · exact ihSecond token hsecond

end Grammar

namespace Chart

variable {grammar : Grammar} {tokens : List String} {position length start : Nat}
  {token : String}

theorem mem_span (htoken : tokens[position]? = some token)
    (hstart : start ≤ position)
    (hend : position < start + length) : token ∈ span tokens start length := by
  apply List.mem_of_getElem? (i := position - start)
  rw [span, List.getElem?_take_of_lt (by omega), List.getElem?_drop,
    Nat.add_sub_cancel' hstart]
  exact htoken

theorem cell_fill_unproduced (htoken : tokens[position]? = some token)
    (hunproduced : ∀ symbol, .terminal token ∉ grammar.alternatives symbol)
    (hstart : start ≤ position) (hend : position < start + length) :
    (fill grammar tokens (tokens.length - 1)).cell length start =
      if start + length ≤ tokens.length then some ∅ else none := by
  have hne : tokens ≠ [] := List.ne_nil_of_mem (List.mem_of_getElem? htoken)
  by_cases hspan : start + length ≤ tokens.length
  · obtain ⟨cell, hcell⟩ := exists_cell_fill grammar hne (by omega) hspan
    rw [hcell, if_pos hspan]
    congr 1
    ext symbol
    rw [mem_cell_fill_iff hne hcell]
    apply iff_of_false
    · intro hderives
      obtain ⟨producer, hproducer⟩ :=
        hderives.exists_producer token (mem_span htoken hstart hend)
      exact hunproduced producer hproducer
    · exact SortedSet.not_mem_empty symbol
  · rw [if_neg hspan]
    by_contra hcell
    exact hspan
      ((isSome_cell_fill_iff hne).mp (Option.isSome_iff_ne_none.mpr hcell)).2

/-- A token that is no terminal, or a terminal that is no alternative, leaves
every cell over it empty, and the word is rejected. Neither the marker of the
empty string nor a nonterminal is a terminal. -/
theorem unproduced_rejected (hobtained : grammar.Obtained) :
    (∀ token, token = emptyMarker ∨ token ∈ grammar.nonterminals →
      token ∉ grammar.terminals) ∧
    ∀ tokens position token, tokens[position]? = some token →
      (token ∉ grammar.terminals ∨
        ∀ symbol, .terminal token ∉ grammar.alternatives symbol) →
      ∃ chart, build grammar tokens = some chart ∧
        (∀ length start, start ≤ position → position < start + length →
          chart.cell length start =
            if start + length ≤ tokens.length then some ∅ else none) ∧
        recognize grammar tokens = ⟨some chart, false⟩ := by
  refine ⟨fun token => hobtained.not_mem_terminals, ?_⟩
  intro tokens position token htoken hcases
  have hunproduced : ∀ symbol, .terminal token ∉ grammar.alternatives symbol := by
    rcases hcases with hundeclared | hunused
    · intro symbol hterminal
      exact hundeclared (hobtained.mem_terminals hterminal)
    · exact hunused
  have hmem : token ∈ tokens := List.mem_of_getElem? htoken
  have hne : tokens ≠ [] := List.ne_nil_of_mem hmem
  have hrejected : (recognize grammar tokens).accepted = false := by
    rw [Bool.eq_false_iff, ne_eq, accepted_iff_derives hne]
    intro hderives
    obtain ⟨producer, hproducer⟩ := hderives.exists_producer token hmem
    exact hunproduced producer hproducer
  refine ⟨_, build_eq_some hne, ?_, ?_⟩
  · intro length start hstart hend
    exact cell_fill_unproduced htoken hunproduced hstart hend
  · rw [recognize_of_ne_nil hne] at hrejected ⊢
    exact congrArg (Recognition.mk _) hrejected

def unused : Grammar :=
  .ofProductions
    ⟨"S", ["a", "b"], ["S"]⟩ [⟨"S", .terminal "a"⟩, ⟨"S", .pair "S" "S"⟩]

theorem unproduced_rejected_samples :
    (∃ grammar : Grammar, grammar.Obtained ∧ ["a", "*", "a"][1]? = some "*" ∧
      "*" ∈ grammar.nonterminals ∧ "*" ∉ grammar.terminals ∧
      ∃ chart, recognize grammar ["a", "*", "a"] = ⟨some chart, false⟩ ∧
        chart.cell 2 0 = some ∅) ∧
    unused.Obtained ∧ ["a", "a", "b"][2]? = some "b" ∧ "b" ∈ unused.terminals ∧
      (∀ symbol, .terminal "b" ∉ unused.alternatives symbol) ∧
      ∃ chart, recognize unused ["a", "a", "b"] = ⟨some chart, false⟩ ∧
        chart.cell 2 1 = some ∅ ∧
        chart.cell 2 0 = some (SortedSet.ofList ["S"]) := by
  have hstarred := Grammar.Obtained.restarted (.built Grammar.build_starred)
    (Grammar.withStart_of_mem (by decide : "*" ∈ _))
  have hread : Source.grammarOfText "S\na b\nS\nS a SS\n" = .ok unused := by decide
  have hnone : unused.producersOf (.terminal "b") = ∅ := by decide
  have hunused : ∀ symbol, .terminal "b" ∉ unused.alternatives symbol := by
    intro symbol hterminal
    have hproducer := Grammar.mem_producersOf.mpr hterminal
    rw [hnone] at hproducer
    exact SortedSet.not_mem_empty symbol hproducer
  obtain ⟨hforeign, hrejects⟩ := unproduced_rejected hstarred
  have hmarker := hforeign "*" (.inl rfl)
  obtain ⟨chart, _, hcells, hrejected⟩ :=
    hrejects ["a", "*", "a"] 1 "*" rfl (.inl hmarker)
  obtain ⟨other, hother, hothers, hunaccepted⟩ :=
    (unproduced_rejected (.text hread)).2 ["a", "a", "b"] 2 "b" rfl (.inr hunused)
  have hvalue : (build unused ["a", "a", "b"]).bind (·.cell 2 0) =
      some (SortedSet.ofList ["S"]) := by
    decide
  rw [hother] at hvalue
  exact ⟨⟨_, hstarred, rfl, by decide, hmarker, chart, hrejected,
      hcells 2 0 (by decide) (by decide)⟩,
    .text hread, rfl, by decide, hunused, other, hunaccepted,
    hothers 2 1 (by decide) (by decide), hvalue⟩

end Chart

end ChomskyChart
