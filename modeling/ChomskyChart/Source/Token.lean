import ChomskyChart.Text.Blank

/-!
Tokens of a rule line in which arrows and bars are read as signs. A word ends at
a blank or at a bar, so a bar needs no blanks around it while an arrow does.
-/

namespace ChomskyChart.Source

inductive Token where
  | arrow
  | bar
  | word (text : String)
  deriving DecidableEq, Repr

namespace Token

def arrowText : String := "->"

def ofText (text : String) : Token :=
  if text = arrowText then arrow else word text

def text : Token → String
  | arrow => arrowText
  | bar => "|"
  | word text => text

def inWord (c : Char) : Bool :=
  !Text.isBlank c && c != '|'

def scan : List Char → List Token
  | [] => []
  | c :: rest =>
      if c = '|' then bar :: scan rest
      else if Text.isBlank c then scan rest
      else ofText (.ofList (c :: rest.takeWhile inWord)) ::
        scan (rest.dropWhile inWord)
termination_by text => text.length
decreasing_by
  · simp
  · simp
  · exact Nat.lt_succ_of_le (List.dropWhile_suffix inWord).length_le

example : scan "S->A|b -> ".toList = [word "S->A", bar, word "b", arrow] := by cbv

end Token

end ChomskyChart.Source
