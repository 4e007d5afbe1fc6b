import ChomskyChart.Event

namespace ChomskyChart

/-- What is written for a record, given its place among the diagnostics: a line,
or nothing if the record is not shown. Records at different places may differ in
what the logger adds to them, such as the time. -/
abbrev Logger := Nat → Event → String

namespace Logger

/-- The line of a record: a stamp, the level filled up to five characters, and
the target in brackets, then the text, of which later lines are indented by four
blanks. -/
def line (stamp : String) (event : Event) : String :=
  "[" ++ stamp ++ event.level.name ++
    .ofList (.replicate (5 - event.level.name.length) ' ') ++ " " ++
    event.target ++ "] " ++
    "\n    ".intercalate ((event.text.toList.splitOn '\n').map String.ofList) ++
    "\n"

def leveled (least : Option Level) (stamp : Nat → String) : Logger :=
  fun place event =>
    if least.any fun least => event.level.rank ≤ least.rank then
      line (stamp place) event
    else ""

end Logger

end ChomskyChart
