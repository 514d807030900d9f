import TypeEngine.Registry.Resolve
import TypeEngine.Ty.Equality

/-!
# Solving

`Registry.solve` brings a type into canonical form. Names are expanded in the catalog that
declares them, the head of a parametric type becomes the declared type constructor, and the
wrappers of implemented traits go away. Traits, methods, intersections and case labels stay as
they are.

Unions are nominal. Inside a case of a union, a reference to a union stays a reference, so a
recursive union has a finite canonical form. Any other name that comes back while it is being
expanded is a cyclic alias.
-/

namespace TypeEngine

/-- Whether the type is a union. -/
def Ty.isUnion : Ty → Bool
  | .union .. => true
  | _ => false

/-- Where a type is being solved: the catalog of its names, the fuel for each walk along names, the
names whose expansion is under way, and whether a union case encloses it. -/
structure Expansion where
  catalog : Catalog
  walk : Nat
  expanding : List String
  inUnion : Bool

namespace Expansion

/-- Whether a reference stays as it is: it names a union from inside a union case. -/
def keepsName (s : Expansion) (ty : Ty) : Except TypeError Bool :=
  if s.inUnion then do
    let (_, resolved) ← s.catalog.resolveWithin s.walk [] ty
    return resolved.inner.isUnion
  else
    return false

/-- The type that a reference stands for, to be solved in its own catalog. -/
def expand (s : Expansion) (name : String) (ty : Ty) : Except TypeError (Expansion × Ty) := do
  let expanding ← enterAlias s.expanding name
  let (owner, resolved) ← s.catalog.resolveWithin s.walk [] ty
  return (⟨owner, s.walk, expanding, s.inUnion⟩, resolved)

/-- The same place inside a union case. -/
def enterUnion (s : Expansion) : Expansion :=
  ⟨s.catalog, s.walk, s.expanding, true⟩

end Expansion

mutual

/-- Solve a type with bounded fuel. -/
def solveWithin : Nat → Expansion → Ty → Outcome Ty
  | 0, _, _ => .outOfFuel
  | n + 1, s, ty =>
    match ty with
    | .reference name | .typeAlias name _ => do
      if ← s.keepsName ty then
        return .reference name
      else
        let (s, resolved) ← s.expand name ty
        solveWithin n s resolved
    | .parametric head params attributes => do
      let head ← solveHeadWithin n s head
      let params ← params.mapM (solveWithin n s)
      return .parametric head params (head.attributes.union attributes)
    | .function arguments scope attributes => do
      return .function (← arguments.mapM (solveWithin n s)) scope attributes
    | .tuple elements attributes => do
      return .tuple (← elements.mapM (solveWithin n s)) attributes
    | .union cases attributes => do
      let cases ← cases.mapM fun c => do
        return ⟨c.label, ← c.params.mapM (solveWithin n s.enterUnion)⟩
      return .union cases attributes
    | .impl _ implementation => solveWithin n s implementation
    | .labeled label ty => do
      return .labeled label (← solveWithin n s ty)
    | .annotated directives ty => do
      return .annotated directives (← solveWithin n s ty)
    | ty => return ty

/-- Solve the head of a parametric type. A head that solves to a parametric type gives way to the
head of that type, until it stays the same. -/
def solveHeadWithin : Nat → Expansion → Ty → Outcome Ty
  | 0, _, _ => .outOfFuel
  | n + 1, s, head => do
    match ← solveWithin n s head with
    | .parametric solved _ _ =>
      if solved.same head then
        return solved
      else
        solveHeadWithin n s solved
    | solved => return solved

end

namespace Registry

/-- The canonical form of a type. -/
def solve (R : Registry) (ty : Ty) : Outcome Ty :=
  solveWithin (R.descentFuel ty) ⟨R.toCatalog, R.walkFuel ty, [], false⟩ ty

/-- What a head of a parametric type stands for, itself no parametric type. -/
def solvedHead (R : Registry) (head : Ty) : Outcome Ty := do
  match ← R.solve head with
  | .parametric solved _ _ => return solved
  | solved => return solved

/-- The name of the family that a head belongs to. Parametric types of different families have
nothing in common. -/
def family (R : Registry) (head : Ty) : Outcome String := do
  match ← R.solvedHead head with
  | .concrete name _ => return name
  | .trait trait => return trait.name
  | solved => return solved.representation

end Registry

end TypeEngine
