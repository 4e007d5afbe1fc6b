import ChomskyChart.Source.Token
import ChomskyChart.Source.Word

namespace ChomskyChart

structure Rule where
  symbol : String
  alternatives : List (List String)
  deriving DecidableEq, Repr

def Source.Token.word? : Token → Except SourceFault String
  | word text => .ok text
  | arrow => .error .unexpectedArrow
  | bar => .error .unexpectedArrow

namespace Vocabulary

open Source (Token)

/-- The symbols of an alternative. Only a single word is resolved; of more words
each is a symbol. -/
def alternativeOf (vocabulary : Vocabulary) (tokens : List Token) :
    Except SourceFault (List String) := do
  match ← tokens.mapM Token.word? with
  | [] => throw .emptyAlternative
  | [word] => vocabulary.resolve word
  | words => return words

def alternativesOf (vocabulary : Vocabulary) :
    List Token → Except SourceFault (List (List String))
  | [] => .error .missingAlternatives
  | [.arrow] => .error .missingAlternatives
  | .arrow :: rest => (rest.splitOn .bar).mapM vocabulary.alternativeOf
  | tokens => tokens.mapM fun token => vocabulary.alternativeOf [token]

def ruleOf (vocabulary : Vocabulary) : List Token → Except SourceFault Rule
  | [] => .error .unexpectedBlankLine
  | .word symbol :: rest => return ⟨symbol, ← vocabulary.alternativesOf rest⟩
  | _ => .error .missingLeftSide

def isArrowForm (vocabulary : Vocabulary) (line : List Char) : Bool :=
  (Text.symbols line)[1]? =
    some Token.arrowText && Token.arrowText ∉ vocabulary.terminals

/-- The tokens of a rule line, in which signs count in arrow form only. -/
def lineTokens (vocabulary : Vocabulary) (line : List Char) : List Token :=
  if vocabulary.isArrowForm line then Token.scan line
  else (Text.symbols line).map .word

def lineRule (vocabulary : Vocabulary) (line : List Char) :
    Except SourceFault Rule := vocabulary.ruleOf (vocabulary.lineTokens line)

end Vocabulary

end ChomskyChart
