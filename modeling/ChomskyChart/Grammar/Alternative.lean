namespace ChomskyChart

def emptyMarker : String := "*"

inductive Alternative where
  | terminal (symbol : String)
  | pair (left right : String)
  | empty
  deriving DecidableEq, Repr

namespace Alternative

def text : Alternative → String
  | terminal symbol => symbol
  | pair left right => left ++ " " ++ right
  | empty => emptyMarker

/-- What decides the order of two alternatives: the kind first, then the
symbols. -/
def key : Alternative → Nat × String × String
  | terminal symbol => (0, symbol, "")
  | pair left right => (1, left, right)
  | empty => (2, "", "")

theorem key_injective {first second : Alternative} (hkey : first.key = second.key) :
    first = second := by
  cases first <;> cases second <;> simp_all [key]

def order : Alternative → Alternative → Ordering :=
  compareLex (compareOn (·.key.1))
    (compareLex (compareOn (·.key.2.1)) (compareOn (·.key.2.2)))

instance : Ord Alternative := ⟨order⟩

instance : Std.TransOrd Alternative :=
  inferInstanceAs
    (Std.TransCmp (compareLex (compareOn fun (alternative : Alternative) =>
      alternative.key.1) _))

instance : Std.LawfulEqOrd Alternative where
  compare_self := Std.ReflCmp.compare_self
  eq_of_compare := by
    intro first second hequal
    change order first second = .eq at hequal
    rw [order, compareLex_eq_eq, compareLex_eq_eq] at hequal
    exact key_injective (Prod.ext (Std.LawfulEqOrd.eq_of_compare hequal.1)
      (Prod.ext (Std.LawfulEqOrd.eq_of_compare hequal.2.1)
        (Std.LawfulEqOrd.eq_of_compare hequal.2.2)))

example : compare (terminal "z") (pair "A" "B") = .lt ∧
    compare (pair "A" "C") (pair "A" "B") = .gt := by decide

end Alternative

structure Production where
  symbol : String
  alternative : Alternative
  deriving DecidableEq, Repr

def Production.text (production : Production) : String :=
  production.symbol ++ " -> " ++ production.alternative.text

end ChomskyChart
