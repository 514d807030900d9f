/-!
# Locations

A location names a context, usually a file or a module, and two positions in it. The engine never
reads a location: it only passes it on into the errors it reports. Positions count lines and
columns from one; line zero means that nobody gave a position.
-/

namespace TypeEngine

/-- A line and a column, both counted from one. -/
structure Position where
  line : UInt32
  column : UInt32
deriving DecidableEq, Repr, Inhabited

namespace Position

/-- Earlier line, or the same line and no later column. -/
def le (p q : Position) : Bool :=
  p.line < q.line || p.line == q.line && p.column ≤ q.column

end Position

/-- A context with a start and an end position in it. -/
structure Location where
  context : String
  start : Position
  stop : Position
deriving DecidableEq, Repr, Inhabited

namespace Location

/-- The location of what no source text mentions. -/
def notProvided : Location :=
  ⟨"", ⟨0, 0⟩, ⟨0, 0⟩⟩

/-- Whether the location points at source text. -/
def isProvided (l : Location) : Bool :=
  0 < l.start.line

end Location

end TypeEngine
