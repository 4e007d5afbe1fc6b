import ChomskyChart.Text.Blank

namespace ChomskyChart

inductive TokenMode where
  | characters
  | words
  deriving DecidableEq, Repr

/-- Written in any case, the name of the empty word where characters are tokens. -/
def emptyWord : String := "eps"

def isEmptyWord (word : String) : Bool :=
  word.toList.map Char.toLower = emptyWord.toList

namespace TokenMode

def tokenize : TokenMode → String → List String
  | characters, word =>
      if isEmptyWord word then [] else word.toList.map String.singleton
  | words, word => Text.symbols word.toList

def wordText (mode : TokenMode) (tokens : List String) : String :=
  if tokens = [] then "EPS (empty string)"
  else match mode with
    | characters => String.join tokens
    | words => " ".intercalate tokens

example : characters.tokenize "EpS" = [] ∧
    words.tokenize " the dog " = ["the", "dog"] := by
  decide

end TokenMode

end ChomskyChart
