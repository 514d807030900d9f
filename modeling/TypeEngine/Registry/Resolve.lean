import TypeEngine.Outcome
import TypeEngine.Registry.Basic

/-!
# Resolving names

`Registry.resolve` replaces a reference by the type it stands for. It follows references, and
references to references, each in the catalog that declares it, until it reaches a type that is
no reference. Labels on the way stay around the result, and the attributes of every second name
on the way join those of the result. A case label resolves to the union that declares it.

The walk keeps the chain of names it has followed. A name that is already on the chain is a cyclic
alias. So the chain never repeats, and `resolveWithin` needs no more fuel than there are references
times the labels in front of them: running out of fuel means that a name repeats, and is reported
as such.
-/

namespace TypeEngine

/-- Put a name on a chain of names, unless it is already there. -/
def enterAlias (chain : List String) (name : String) : Except TypeError (List String) :=
  if name ∈ chain then .error (.cyclicAlias chain name) else .ok (chain ++ [name])

namespace Catalog

/-- The catalog that declares a name and the type it has there, or the error that nothing does. -/
def getOwned (C : Catalog) (name : String) : Except TypeError (Catalog × Ty) :=
  match C.find? name with
  | some found => .ok found
  | none => .error (.typeNotFound name)

/-- Resolve with bounded fuel, having followed the names on `chain`. -/
def resolveWithin : Nat → Catalog → List String → Ty → Except TypeError (Catalog × Ty)
  | 0, _, chain, ty => .error (.cyclicAlias chain ty.display)
  | n + 1, C, chain, ty =>
    match ty with
    | .reference name => do
      let chain ← enterAlias chain name
      let (owner, target) ← C.getOwned name
      resolveWithin n owner chain target
    | .typeAlias name attributes => do
      let chain ← enterAlias chain name
      let (owner, target) ← C.getOwned name
      let (owner, resolved) ← resolveWithin n owner chain target
      return (owner, resolved.addAttributes attributes)
    | .labeled label inner => do
      let (owner, resolved) ← resolveWithin n C chain inner
      return (owner, .labeled label resolved)
    | .constructor _ union _ => C.getOwned union
    | ty => return (C, ty)

end Catalog

namespace Registry

/-- The type that `ty` stands for, and the catalog in which its names are to be read. -/
def resolveOwned (R : Registry) (ty : Ty) : Except TypeError (Catalog × Ty) :=
  R.resolveWithin (R.walkFuel ty) [] ty

/-- The type that `ty` stands for. -/
def resolve (R : Registry) (ty : Ty) : Except TypeError Ty :=
  (R.resolveOwned ty).map (·.2)

end Registry

end TypeEngine
