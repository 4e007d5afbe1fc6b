import ChomskyChart.Grammar.Vocabulary

namespace ChomskyChart

namespace Vocabulary

structure Proper (vocabulary : Vocabulary) : Prop where
  disjoint : ∀ symbol ∈ vocabulary.terminals, symbol ∉ vocabulary.nonterminals
  marker_not_terminal : emptyMarker ∉ vocabulary.terminals
  start_nonterminal : vocabulary.start ∈ vocabulary.nonterminals

/-- The right sides of normal form, each with the alternative that it stands
for. -/
inductive Shapes (vocabulary : Vocabulary) : List String → Alternative → Prop where
  | empty : Shapes vocabulary [emptyMarker] .empty
  | terminal {symbol : String} (hterminal : symbol ∈ vocabulary.terminals)
      (hmarker : symbol ≠ emptyMarker) :
      Shapes vocabulary [symbol] (.terminal symbol)
  | pair {left right : String} (hleft : left ∈ vocabulary.nonterminals)
      (hright : right ∈ vocabulary.nonterminals) :
      Shapes vocabulary [left, right] (.pair left right)

def Admits (vocabulary : Vocabulary) (declaration : Declaration) : Prop :=
  declaration.symbol ∈ vocabulary.nonterminals ∧
    ∃ alternative, vocabulary.Shapes declaration.rightSide alternative

theorem shape_eq_ok_iff {vocabulary : Vocabulary} {rightSide : List String}
    {alternative : Alternative} :
    vocabulary.shape rightSide = .ok alternative ↔
      vocabulary.Shapes rightSide alternative := by
  constructor
  · intro hshape
    unfold shape at hshape
    split at hshape
    · split at hshape
      · rename_i hmarker
        cases hshape
        exact hmarker ▸ .empty
      · split at hshape
        · rename_i hmarker hterminal
          cases hshape
          exact .terminal hterminal hmarker
        · split at hshape <;> cases hshape
    · split at hshape
      · rename_i hdeclared
        cases hshape
        simp only [List.filter_eq_nil_iff, List.mem_cons,
          decide_eq_true_eq] at hdeclared
        exact .pair (by simpa using hdeclared _ (.inl rfl))
          (by simpa using hdeclared _ (.inr (.inl rfl)))
      · cases hshape
    · cases hshape
  · intro hshapes
    cases hshapes with
    | empty => simp [shape]
    | terminal hterminal hmarker => simp [shape, hterminal, hmarker]
    | pair hleft hright => simp [shape, hleft, hright]

end Vocabulary

end ChomskyChart
