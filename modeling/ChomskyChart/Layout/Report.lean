import ChomskyChart.Layout.Grid
import ChomskyChart.Layout.Productions
import ChomskyChart.Word

namespace ChomskyChart.Layout

def verdictRule : String := "===================================="

def verdict (start : String) (tokens : List String) (mode : TokenMode)
    (accepted : Bool) : String :=
  Text.unlines
    [verdictRule,
      "Start Symbol: " ++ start,
      "Word        : " ++ mode.wordText tokens,
      "Result      : " ++ if accepted then "ACCEPTED" else "REJECTED",
      verdictRule]

def working (grammar : Grammar) (chart : Chart) (tokens : List String)
    (mode : TokenMode) : String :=
  "Word: " ++ mode.wordText tokens ++ "\n\n" ++ grammarText grammar ++
    "\nApplying CYK-Algorithm:\n\n" ++ chartText chart ++ "\n"

def report (grammar : Grammar) (recognition : Recognition) (tokens : List String)
    (mode : TokenMode) (quiet : Bool) : String :=
  (match recognition.chart with
    | some chart => if quiet then "" else working grammar chart tokens mode
    | none => "") ++
    verdict grammar.start tokens mode recognition.accepted

end ChomskyChart.Layout
