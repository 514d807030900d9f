import TypeEngine.Error
import TypeEngine.Ty.Weight

/-!
# Catalogs

A catalog is an ordered list of named types with an optional parent and with imported modules. A
name is looked up among the catalog's own types first. A name of the form `Key.Rest` whose key is
an imported module belongs to that module, and is looked up as `Rest` there and nowhere else. Any
other name is looked up in the parent.

Names inside a type are local to the catalog that declares it, so a look-up also returns that
catalog (`find?`).
-/

namespace TypeEngine

/-- Named types in registration order, over a parent and beside imported modules. -/
structure Catalog where
  parent : Option Catalog
  entries : List (String × Ty)
  imports : List (String × Catalog)

instance : Inhabited Catalog := ⟨⟨none, [], []⟩⟩

/-- The parts of a name before and after its first point. -/
def splitQualified (name : String) : Option (String × String) :=
  match name.toList.dropWhile (· != '.') with
  | [] => none
  | _ :: rest => some (String.ofList (name.toList.takeWhile (· != '.')), String.ofList rest)

namespace Catalog

mutual

/-- The catalog that declares a name, and the type it has there. -/
def find? : Catalog → String → Option (Catalog × Ty)
  | ⟨parent, entries, imports⟩, name =>
    match entries.lookup name with
    | some ty => some (⟨parent, entries, imports⟩, ty)
    | none =>
      match splitQualified name with
      | none => findParent? parent name
      | some (key, rest) =>
        match findImport? imports key rest with
        | some found => found
        | none => findParent? parent name

/-- Look up in the module with this key, if there is one. -/
def findImport? : List (String × Catalog) → String → String → Option (Option (Catalog × Ty))
  | [], _, _ => none
  | (key, C) :: imports, key', rest =>
    if key = key' then some (C.find? rest) else findImport? imports key' rest

/-- Look up in the parent, if there is one. -/
def findParent? : Option Catalog → String → Option (Catalog × Ty)
  | none, _ => none
  | some C, name => C.find? name

end

/-- The type of a name. -/
def get? (C : Catalog) (name : String) : Option Ty :=
  (C.find? name).map (·.2)

/-- The type of a name, or the error that nothing declares it. -/
def get (C : Catalog) (name : String) : Except TypeError Ty :=
  match C.get? name with
  | some ty => .ok ty
  | none => .error (.typeNotFound name)

/-- Whether a name is declared. -/
def contains (C : Catalog) (name : String) : Bool :=
  (C.get? name).isSome

/-- A reference to a declared name. -/
def reference (C : Catalog) (name : String) : Except TypeError Ty :=
  (C.get name).map fun _ => .reference name

/-- The number of types that the catalog itself declares. -/
def size (C : Catalog) : Nat :=
  C.entries.length

/-- The names that the catalog itself declares, in registration order. -/
def names (C : Catalog) : List String :=
  C.entries.map (·.1)

/-! ## Weight -/

mutual

/-- The nodes of all types in reach: own types, those of the parent and of the imports. A module
that is imported twice counts twice. -/
def weight : Catalog → Nat
  | ⟨parent, entries, imports⟩ =>
    weightAll (entries.map (·.2)) + weightParent parent + weightImports imports

def weightParent : Option Catalog → Nat
  | none => 0
  | some C => C.weight

def weightImports : List (String × Catalog) → Nat
  | [] => 0
  | (_, C) :: imports => C.weight + weightImports imports

end

end Catalog

end TypeEngine
