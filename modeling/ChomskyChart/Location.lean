namespace ChomskyChart

structure Location where
  file : String
  line : Nat
  deriving DecidableEq, Repr

namespace Location

def unknown : Location := ⟨"", 0⟩

def fileText (file : String) : String :=
  if file = "" then "<input>" else file

def text (location : Location) : String :=
  if location.line = 0 then fileText location.file
  else fileText location.file ++ ":" ++ toString location.line

example : unknown.text = "<input>" ∧ text ⟨"g.cnf", 7⟩ = "g.cnf:7" := by decide

/-- The steps that a file name names, the root being a step of its own. A step of
one dot counts only where it begins a name that does not start at the root. -/
def steps (file : String) : List String :=
  let pieces := (file.toList.splitOn '/').map String.ofList
  let start :=
    if file.toList.head? = some '/' then ["/"]
    else if pieces.head? = some "." then ["."]
    else []
  start ++ pieces.filter fun piece => piece ≠ "" && piece ≠ "."

example : steps "/a//./b/" = ["/", "a", "b"] := by decide

example : steps "./b/../." = [".", "b", ".."] := by decide

/-- Two spellings of one place: equal lines, and file names of equal steps. -/
def agrees (first second : Location) : Bool :=
  first.line == second.line && steps first.file == steps second.file

end Location

structure Located (Fault : Type) where
  location : Location
  fault : Fault
  deriving DecidableEq, Repr

def Located.display {Fault : Type} [ToString Fault]
    (problem : Located Fault) : String :=
  "\x1b[31;49;1m[" ++ problem.location.text ++ "]\x1b[39;49;1m  " ++
    toString problem.fault ++ "\x1b[0m"

end ChomskyChart
