import ChomskyChart.Grammar.Basic

namespace ChomskyChart

inductive Grammar.Derives (grammar : Grammar) : String → List String → Prop where
  | terminal {symbol token : String}
      (hterminal : .terminal token ∈ grammar.alternatives symbol) :
      Derives grammar symbol [token]
  | pair {symbol left right : String} {first second : List String}
      (hpair : .pair left right ∈ grammar.alternatives symbol)
      (hfirst : Derives grammar left first)
      (hsecond : Derives grammar right second) :
      Derives grammar symbol (first ++ second)

namespace Grammar

theorem Derives.ne_nil {grammar : Grammar} {symbol : String} {tokens : List String}
    (hderives : grammar.Derives symbol tokens) : tokens ≠ [] := by
  induction hderives with
  | terminal _ => simp
  | pair _ _ _ ihFirst _ => simp [ihFirst]

theorem derives_singleton_iff {grammar : Grammar} {symbol token : String} :
    grammar.Derives symbol [token] ↔
      .terminal token ∈ grammar.alternatives symbol := by
  constructor
  · intro hderives
    generalize htokens : [token] = tokens at hderives
    cases hderives with
    | terminal hterminal =>
        cases htokens
        exact hterminal
    | pair _ hfirst hsecond =>
        rcases List.append_eq_singleton_iff.mp htokens.symm with
          ⟨hnil, _⟩ | ⟨_, hnil⟩
        · exact absurd hnil hfirst.ne_nil
        · exact absurd hnil hsecond.ne_nil
  · exact Derives.terminal

end Grammar

end ChomskyChart
