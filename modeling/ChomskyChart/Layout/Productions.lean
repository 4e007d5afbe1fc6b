import ChomskyChart.Grammar.Basic
import ChomskyChart.Text.Lines

namespace ChomskyChart.Layout

def symbolSet (symbols : List String) : String :=
  "\x7b" ++ ", ".intercalate symbols ++ "\x7d"

def productionLine (symbol : String) (alternatives : List Alternative) : String :=
  symbol ++ " -> " ++ " | ".intercalate (alternatives.map Alternative.text)

def productionLines (grammar : Grammar) : List String :=
  grammar.rules.entries.map fun entry => productionLine entry.1 entry.2

def grammarText (grammar : Grammar) : String :=
  Text.unlines
    (["G = (" ++ symbolSet grammar.terminals ++ ", " ++
      symbolSet grammar.nonterminals ++ ", P, " ++ grammar.start ++ ")",
      "", "Productions P:"] ++ productionLines grammar)

end ChomskyChart.Layout
