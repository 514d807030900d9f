import TypeEngine.Catalog

/-!
# Registries

A registry is a catalog whose weight is known. The weight bounds every search through the catalog,
and catalogs share their parts: a tower of modules, each importing the one below it twice, has few
parts and a weight that doubles at every step. So the weight is not counted but kept. `make` adds
up the weights that the parent and the modules bring along, and `weight_eq` says that the sum is
the weight of the catalog. There is one registry for each catalog (`ext`).
-/

namespace TypeEngine

/-- A catalog with its weight. -/
structure Registry extends Catalog where
  weight : Nat
  weight_eq : weight = toCatalog.weight

namespace Registry

/-- A registry is given by its catalog. -/
theorem ext {R S : Registry} (h : R.toCatalog = S.toCatalog) : R = S := by
  obtain ⟨C, _, rfl⟩ := R
  obtain ⟨D, _, rfl⟩ := S
  cases h
  rfl

/-- The weights of modules, added up. -/
def weightModules : List (String × Registry) → Nat
  | [] => 0
  | (_, R) :: modules => R.weight + weightModules modules

theorem weightModules_eq (modules : List (String × Registry)) :
    weightModules modules
      = Catalog.weightImports (modules.map fun (key, R) => (key, R.toCatalog)) := by
  induction modules with
  | nil => rfl
  | cons m modules ih =>
    rw [weightModules, List.map_cons, Catalog.weightImports, m.2.weight_eq, ih]

/-- The weight of the parent, if there is one. -/
def weightOver : Option Registry → Nat
  | none => 0
  | some R => R.weight

theorem weightOver_eq (parent : Option Registry) :
    weightOver parent = Catalog.weightParent (parent.map (·.toCatalog)) := by
  cases parent with
  | none => rfl
  | some R => exact R.weight_eq

/-- The registry of the given types, over a parent and beside modules. -/
def make (parent : Option Registry) (entries : List (String × Ty))
    (modules : List (String × Registry)) : Registry :=
  ⟨⟨parent.map (·.toCatalog), entries, modules.map fun (key, R) => (key, R.toCatalog)⟩,
    weightAll (entries.map (·.2)) + weightOver parent + weightModules modules, by
    rw [Catalog.weight, weightOver_eq, weightModules_eq]⟩

instance : Inhabited Registry := ⟨make none [] []⟩

/-! ## Fuel -/

/-- The nodes in reach of a registry and of the given types. -/
def reach (R : Registry) (types : List Ty) : Nat :=
  R.weight + weightAll types + 4

/-- Fuel for a walk along names: every name in reach, with all the labels in front of it. -/
def walkFuel (R : Registry) (ty : Ty) : Nat :=
  R.reach [ty] * R.reach [ty]

/-- Fuel for a descent into a type whose names are expanded on the way: every name in reach, with
all the nodes below it, and the same once more for the heads of parametric types. -/
def descentFuel (R : Registry) (ty : Ty) : Nat :=
  R.walkFuel ty * R.reach [ty]

/-- Fuel for a descent into two types at once: every pair of places in reach. -/
def pairFuel (R : Registry) (a b : Ty) : Nat :=
  (R.reach [a, b] * R.reach [a, b]) * (R.reach [a, b] * R.reach [a, b])

end Registry

end TypeEngine
