import ChomskyChart.Gather
import ChomskyChart.Grammar.Alternative
import ChomskyChart.Location

namespace ChomskyChart

inductive GrammarFault where
  | undeclaredLeftSide (symbol : String)
  | undefinedTerminal (symbol : String)
  | undefinedNonterminal (symbol : String)
  | unitProduction (symbol : String)
  | malformedAlternative (tokens : List String)
  | terminalNonterminal (symbol : String)
  | reservedTerminal
  | startNotNonterminal (symbol : String)
  deriving DecidableEq, Repr

namespace GrammarFault

def message : GrammarFault → String
  | undeclaredLeftSide symbol =>
      "`" ++ symbol ++ "` has productions but is not a declared nonterminal"
  | undefinedTerminal symbol => "`" ++ symbol ++ "` is not a declared terminal"
  | undefinedNonterminal symbol =>
      "`" ++ symbol ++ "` is not a declared nonterminal"
  | unitProduction symbol =>
      "Unit production to `" ++ symbol ++ "` is not allowed in Chomsky Normal Form"
  | malformedAlternative tokens =>
      "Alternative `" ++ " ".intercalate tokens ++
        "` must be one terminal or exactly two nonterminals"
  | terminalNonterminal symbol =>
      "`" ++ symbol ++ "` is declared as both a terminal and a nonterminal"
  | reservedTerminal =>
      "`" ++ emptyMarker ++
      "` is reserved for the empty string and cannot be a terminal"
  | startNotNonterminal symbol =>
      "Start symbol `" ++ symbol ++ "` is not a declared nonterminal"

instance : ToString GrammarFault := ⟨message⟩

end GrammarFault

structure Declaration where
  symbol : String
  rightSide : List String
  location : Location := .unknown
  deriving DecidableEq, Repr

structure Vocabulary where
  start : String
  terminals : List String
  nonterminals : List String
  deriving DecidableEq, Repr

namespace Vocabulary

def distinct (vocabulary : Vocabulary) : Vocabulary where
  start := vocabulary.start
  terminals := vocabulary.terminals.eraseDups
  nonterminals := vocabulary.nonterminals.eraseDups

def terminalFaults (vocabulary : Vocabulary)
    (terminal : String) : List GrammarFault :=
  (if terminal ∈ vocabulary.nonterminals then [.terminalNonterminal terminal]
    else []) ++ if terminal = emptyMarker then [.reservedTerminal] else []

def startFaults (vocabulary : Vocabulary) (start : String) : List GrammarFault :=
  if start ∈ vocabulary.nonterminals then [] else [.startNotNonterminal start]

def faults (vocabulary : Vocabulary) : List GrammarFault :=
  vocabulary.terminals.flatMap vocabulary.terminalFaults ++
    vocabulary.startFaults vocabulary.start

def leftSideFaults (vocabulary : Vocabulary)
    (symbol : String) : List GrammarFault :=
  if symbol ∈ vocabulary.nonterminals then [] else [.undeclaredLeftSide symbol]

/-- The alternative that a right side stands for. The marker of the empty string
comes before the terminals, and the terminals before the nonterminals. -/
def shape (vocabulary : Vocabulary) :
    List String → Except (List GrammarFault) Alternative
  | [symbol] =>
      if symbol = emptyMarker then .ok .empty
      else if symbol ∈ vocabulary.terminals then .ok (.terminal symbol)
      else if symbol ∈ vocabulary.nonterminals then .error [.unitProduction symbol]
      else .error [.undefinedTerminal symbol]
  | [left, right] =>
      match [left, right].filter (· ∉ vocabulary.nonterminals) with
      | [] => .ok (.pair left right)
      | undeclared => .error (undeclared.map .undefinedNonterminal)
  | tokens => .error [.malformedAlternative tokens]

def productionOf (vocabulary : Vocabulary) (declaration : Declaration) :
    Except (List GrammarFault) Production :=
  match vocabulary.leftSideFaults declaration.symbol,
    vocabulary.shape declaration.rightSide with
  | [], .ok alternative => .ok ⟨declaration.symbol, alternative⟩
  | found, .ok _ => .error found
  | found, .error others => .error (found ++ others)

def productionsOf (vocabulary : Vocabulary)
    (declarations : List Declaration) : List Production :=
  (declarations.filterMap fun declaration =>
    (vocabulary.productionOf declaration).toOption).eraseDups

def declarationFaults (vocabulary : Vocabulary) (declaration : Declaration) :
    List (Located GrammarFault) :=
  ((failure? (vocabulary.productionOf declaration)).getD []).map
    (Located.mk declaration.location)

/-- All that keeps the declarations from being a grammar over the vocabulary:
first the faults of the vocabulary, placed at the given origin, then those of
each declaration, placed at its own location. -/
def problems (vocabulary : Vocabulary) (declarations : List Declaration)
    (origin : Location) :
    List (Located GrammarFault) :=
  vocabulary.faults.map (Located.mk origin) ++
    declarations.flatMap vocabulary.declarationFaults

end Vocabulary

end ChomskyChart
