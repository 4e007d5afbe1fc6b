import ChomskyChart.Grammar.Alternative

namespace ChomskyChart

inductive Level where
  | error
  | warn
  | info
  | debug
  deriving DecidableEq, Repr

namespace Level

def rank : Level → Nat
  | error => 1
  | warn => 2
  | info => 3
  | debug => 4

def name : Level → String
  | error => "ERROR"
  | warn => "WARN"
  | info => "INFO"
  | debug => "DEBUG"

end Level

inductive Event where
  | unreadable (file : String)
  | draftRead (rules terminals nonterminals : Nat)
  | productionAdded (production : Production)
  | strayEmpty (symbol : String)
  | unproduced (token : String)
  | rowFilled (length derivable total : Nat)
  | emptyInput (start : String)
  | decided (start : String) (accepted : Bool) (tokens : List String)
  deriving DecidableEq, Repr

namespace Event

def level : Event → Level
  | unreadable _ => .error
  | draftRead .. => .debug
  | productionAdded _ => .debug
  | strayEmpty _ => .warn
  | unproduced _ => .warn
  | rowFilled .. => .debug
  | emptyInput _ => .debug
  | decided .. => .info

def target : Event → String
  | unreadable _ => "cyk"
  | draftRead .. => "cyk::parser"
  | productionAdded _ => "cyk::grammar"
  | strayEmpty _ => "cyk::grammar"
  | unproduced _ => "cyk::cyk"
  | rowFilled .. => "cyk::cyk"
  | emptyInput _ => "cyk::cyk"
  | decided .. => "cyk::cyk"

def text : Event → String
  | unreadable file => "Could not read a grammar from " ++ file
  | draftRead rules terminals nonterminals =>
      "Building grammar from " ++ toString rules ++ " rules (" ++
      toString terminals ++
        " terminals, " ++ toString nonterminals ++ " nonterminals)"
  | productionAdded production => production.text
  | strayEmpty symbol =>
      "`" ++ symbol ++ "` derives the empty string but is not the start symbol"
  | unproduced token => "No nonterminal produces `" ++ token ++ "`"
  | rowFilled length derivable total =>
      "Filled row " ++ toString length ++ " (" ++ toString derivable ++ " of " ++
        toString total ++ " cells derivable)"
  | emptyInput start =>
      "Empty input, checking whether `" ++ start ++ "` derives the empty string"
  | decided start accepted tokens =>
      "`" ++ start ++ "` " ++ (if accepted then "derives" else "does not derive") ++
      " `" ++ " ".intercalate tokens ++ "`"

end Event

/-- A value with the records of how it came about, in their order. -/
structure Logged (α : Type) where
  value : α
  events : List Event

end ChomskyChart
