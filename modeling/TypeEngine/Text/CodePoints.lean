/-!
# Sets of code points

Character classes are tables of runs. A run is a first code point, a last one and a step: step one
is an interval, and step two is an alternation such as the capitals among paired letters.
-/

namespace TypeEngine.Text

/-- Equally spaced code points from `first` to `last`. -/
structure Run where
  first : Nat
  last : Nat
  step : Nat
deriving DecidableEq, Repr

/-- Whether a code point is on the run. -/
def Run.contains (r : Run) (n : Nat) : Bool :=
  r.first ≤ n && n ≤ r.last && (n - r.first) % r.step == 0

/-- A set of code points, as runs in increasing order. -/
abbrev CodePoints := List Run

/-- Whether a code point is on one of the runs. -/
def CodePoints.contains (table : CodePoints) (n : Nat) : Bool :=
  table.any (·.contains n)

end TypeEngine.Text
