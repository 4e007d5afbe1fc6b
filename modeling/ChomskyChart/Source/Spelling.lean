import ChomskyChart.Layout.Productions

namespace ChomskyChart

namespace Alternative

def wordText : Alternative → String
  | terminal symbol => symbol
  | pair left right => left ++ "," ++ right
  | empty => emptyMarker

end Alternative

namespace Grammar

def headerLines (grammar : Grammar) : List String :=
  [grammar.start, " ".intercalate grammar.terminals,
    " ".intercalate grammar.nonterminals]

def literalLine (symbol : String) (alternatives : List Alternative) : String :=
  " ".intercalate (symbol :: alternatives.map Alternative.wordText)

/-- The grammar with rule lines such as `S -> A B | a`. -/
def arrowText (grammar : Grammar) : String :=
  Text.unlines (grammar.headerLines ++ Layout.productionLines grammar)

/-- The grammar with rule lines such as `S A,B a`. -/
def literalText (grammar : Grammar) : String :=
  Text.unlines (grammar.headerLines ++
    grammar.rules.entries.map fun entry => literalLine entry.1 entry.2)

end Grammar

end ChomskyChart
