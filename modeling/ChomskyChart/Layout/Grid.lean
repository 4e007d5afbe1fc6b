import ChomskyChart.Chart
import ChomskyChart.Text.Lines

namespace ChomskyChart.Layout

namespace Grid

def width (rows : List (List String)) : Nat :=
  (rows.flatten.map String.length).foldl max 0

def padded (width : Nat) (text : String) : String :=
  text ++ .ofList (.replicate (width - text.length) ' ')

def border (width cells : Nat) : String :=
  "+" ++ String.join
    (.replicate cells (.ofList (.replicate (width + 2) '-') ++ "+"))

def content (width : Nat) (texts : List String) : String :=
  "|" ++ String.join (texts.map fun text => " " ++ padded width text ++ " |")

/-- The lines of the rows below a row of `above` cells, the closing border
included. -/
def linesBelow (width above : Nat) : List (List String) → List String
  | [] => [border width above]
  | texts :: rest =>
      border width (max above texts.length) :: content width texts ::
        linesBelow width texts.length rest

def lines (rows : List (List String)) : List String :=
  linesBelow (width rows) 0 rows

example : lines [["a", "b"], ["A", "B"], ["S,T"]] =
    ["+-----+-----+", "| a   | b   |", "+-----+-----+", "| A   | B   |",
      "+-----+-----+", "| S,T |", "+-----+"] := by
  decide

end Grid

def cellText (cell : Cell) : String :=
  if cell.isEmpty then "-" else ",".intercalate cell.toList

def chartTexts (chart : Chart) : List (List String) :=
  chart.tokens :: chart.rows.map (·.map cellText)

def chartText (chart : Chart) : String :=
  Text.unlines (Grid.lines (chartTexts chart))

end ChomskyChart.Layout
