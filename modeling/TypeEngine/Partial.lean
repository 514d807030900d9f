/-!
# Best-effort results

Building a registry never stops at the first problem: it returns the best value it could make and
all the errors it met on the way. The caller decides whether an error is fatal.
-/

namespace TypeEngine

/-- A value together with the errors collected while it was made. -/
structure Partial (ε α : Type) where
  value : α
  errors : List ε
deriving DecidableEq, Repr

namespace Partial

variable {ε α β : Type}

/-- A value that met no error. -/
def complete (value : α) : Partial ε α :=
  ⟨value, []⟩

/-- Whether at least one error was collected. -/
def isPartial (p : Partial ε α) : Bool :=
  !p.errors.isEmpty

/-- Change the value and keep the errors. -/
def map (f : α → β) (p : Partial ε α) : Partial ε β :=
  ⟨f p.value, p.errors⟩

/-- The value if there was no error, and all the errors otherwise. -/
def toExcept (p : Partial ε α) : Except (List ε) α :=
  if p.errors.isEmpty then .ok p.value else .error p.errors

end Partial

end TypeEngine
