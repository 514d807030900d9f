import TypeEngine.Solving

/-!
# Unification

`Registry.unify` checks an expected type against an actual one and gives the most specific type
that fits both. It is directional: the kind of the expected type chooses the rule. A parameter on
either side takes the other type. Functions, tuples and parametric types unify argument by
argument, and a failure inside is reported on the enclosing types. Wherever a trait is expected, a
caller's `Checker` decides which types have it.

Each rule is a definition of its own over the recursive call `go`, and `unifyWithin` closes the
loop on fuel.
-/

namespace TypeEngine

/-- Which types have which traits. -/
abbrev Checker := Trait → Ty → Bool

/-- What unification depends on besides the two types. -/
structure Setting where
  types : Registry
  implements : Checker
  location : Location

namespace Setting

variable (s : Setting)

/-- The error that two types do not fit together. -/
def clash {α : Type} (a b : Ty) : Outcome α :=
  .error (.incompatible s.location a b)

/-- Unify two lists of arguments of the types `a` and `b`. -/
def unifyAll (go : Ty → Ty → Outcome Ty) (a b : Ty) (left right : List Ty) :
    Outcome (List Ty) :=
  if left.length = right.length then
    (left.zip right).mapM fun (l, r) => (go l r).mapError fun _ => .incompatible s.location a b
  else
    s.clash a b

/-- A concrete type accepts itself. -/
def unifyConcrete (a b : Ty) : Outcome Ty := do
  let left ← s.types.resolve a
  let right ← s.types.resolve b
  if right.inner.isParameter then
    return left
  else if right.inner.same left.inner then
    return right
  else
    s.clash a b

/-- A trait applied to parameters accepts itself and every type that has the trait. -/
def unifyBound (trait : Trait) (a b right : Ty) : Outcome Ty :=
  if a.same right then
    .ok a
  else if s.implements trait right then
    .ok (.impl trait right)
  else
    s.clash a b

/-- Functions, tuples and parametric types of one family unify argument by argument. -/
def unifyStructure (go : Ty → Ty → Outcome Ty) (a b right : Ty) : Outcome Ty :=
  match a, right with
  | .function arguments scope attributes, .function arguments' _ attributes' => do
    let arguments ← s.unifyAll go a b arguments arguments'
    return .function arguments scope (attributes.union attributes')
  | .tuple elements attributes, .tuple elements' attributes' => do
    let elements ← s.unifyAll go a b elements elements'
    return .tuple elements (attributes.union attributes')
  | .parametric head params attributes, .parametric head' params' attributes' => do
    let family ← s.types.family head
    let family' ← s.types.family head'
    if family = family' then
      let params ← s.unifyAll go a b params params'
      return .parametric head params (attributes.union attributes')
    else
      s.clash a b
  | _, _ => s.clash a b

/-- The trait that a parametric type applies, if its head is one. -/
def boundTrait (a : Ty) : Outcome (Option Trait) :=
  match a with
  | .parametric head _ _ => do
    match ← s.types.solvedHead head with
    | .trait trait => return some trait
    | _ => return none
  | _ => return none

/-- Compound types: a trait bound asks the checker, everything else goes by structure. -/
def unifyCompound (go : Ty → Ty → Outcome Ty) (a b : Ty) : Outcome Ty := do
  let resolved ← s.types.resolve b
  let right := resolved.inner
  if right.isParameter then
    return a
  else
    match ← s.boundTrait a with
    | some trait => s.unifyBound trait a b right
    | none => s.unifyStructure go a b right

/-- A union accepts itself and its own case labels. -/
def unifyUnion (cases : List Case) (a b : Ty) : Outcome Ty :=
  if a.same b then
    .ok a
  else
    match b with
    | .constructor label _ _ =>
      if cases.any (·.label == label) then .ok a else unifyResolved
    | _ => unifyResolved
where
  unifyResolved : Outcome Ty := do
    let resolved ← s.types.resolve b
    if resolved.inner.isParameter || resolved.inner.same a then
      return a
    else
      s.clash a b

/-- Whether a constituent of an intersection names a trait that `right` has. -/
def hasTraitNamed (right : Ty) (param : Ty) : Bool :=
  match param with
  | .reference name =>
    match (s.types.get? name).map Ty.inner with
    | some (.trait trait) => s.implements trait right
    | _ => false
  | _ => false

/-- An intersection accepts itself and every type that has all its traits. -/
def unifyIntersection (params : List Ty) (a b : Ty) : Outcome Ty := do
  let resolved ← s.types.resolve b
  let right := resolved.inner
  if right.isParameter || right.same a || params.all (s.hasTraitNamed right) then
    return a
  else
    s.clash a b

/-- A trait accepts itself. -/
def unifyTrait (a b : Ty) : Outcome Ty := do
  let resolved ← s.types.resolve b
  if a.same resolved.inner then
    return a
  else
    s.clash a b

/-- Methods unify as the functions they stand for. -/
def unifyMethod (go : Ty → Ty → Outcome Ty) (method : Method) (a b : Ty) : Outcome Ty :=
  if a.same b then
    .ok a
  else
    match b with
    | .method other => go method.toFunction other.toFunction
    | b => go method.toFunction b

/-- A value of an implemented trait accepts what its implementation accepts; for other types that
have the trait, only the trait is kept. -/
def unifyImpl (go : Ty → Ty → Outcome Ty) (trait : Trait) (implementation a b : Ty) :
    Outcome Ty :=
  if a.same b then
    .ok a
  else
    match b with
    | .fixedTrait fixed => if fixed.name = trait.name then .ok b else unifyResolved
    | .trait other => if other.same trait then .ok (.fixedTrait other) else unifyResolved
    | _ => unifyResolved
where
  unifyResolved : Outcome Ty := do
    let resolved ← s.types.resolve b
    match go implementation resolved with
    | .ok unified => return .impl trait unified
    | .error _ => if s.implements trait resolved then return .fixedTrait trait else s.clash a b
    | .outOfFuel => .outOfFuel

/-- A proven trait accepts the trait by name and every type that has it. -/
def unifyFixedTrait (fixed : Trait) (a b : Ty) : Outcome Ty :=
  if a.same b then
    .ok a
  else
    match b with
    | .trait other => if other.name = fixed.name then .ok a else unifyResolved
    | .impl other _ => if other.name = fixed.name then .ok a else unifyResolved
    | _ => unifyResolved
where
  unifyResolved : Outcome Ty := do
    let resolved ← s.types.resolve b
    if s.implements fixed resolved then
      return a
    else
      s.clash a b

/-- A number type accepts the number types that it can represent. -/
def unifyNumeric (go : Ty → Ty → Outcome Ty) (kind : Numeric) (a b : Ty) : Outcome Ty := do
  let resolved ← s.types.resolve b
  match resolved.inner with
  | .parameter .. => return a
  | .numeric other _ => if kind.canRepresent other then return a else s.clash a b
  | .impl _ implementation => do
    let _ ← go a implementation
    return a
  | _ => s.clash a b

/-- Unify with bounded fuel; the expected type `a` chooses the rule. -/
def unifyWithin : Nat → Ty → Ty → Outcome Ty
  | 0, _, _ => .outOfFuel
  | n + 1, a, b =>
    match a with
    | .parameter .. => s.types.resolve b
    | .reference .. | .typeAlias .. | .constructor .. => do
      let resolved ← s.types.resolve a
      unifyWithin n resolved b
    | .labeled _ inner | .annotated _ inner => unifyWithin n inner b
    | .concrete .. => s.unifyConcrete a b
    | .parametric .. | .function .. | .tuple .. => s.unifyCompound (unifyWithin n) a b
    | .union cases _ => s.unifyUnion cases a b
    | .intersection params _ => s.unifyIntersection params a b
    | .trait _ => s.unifyTrait a b
    | .method method => unifyMethod (unifyWithin n) method a b
    | .impl trait implementation => s.unifyImpl (unifyWithin n) trait implementation a b
    | .fixedTrait fixed => s.unifyFixedTrait fixed a b
    | .numeric kind _ => s.unifyNumeric (unifyWithin n) kind a b

/-- Unify, with fuel for every pair of nodes in reach. -/
def unify (a b : Ty) : Outcome Ty :=
  s.unifyWithin (s.types.pairFuel a b) a b

end Setting

/-- **The most specific type that fits both the expected type `a` and the actual type `b`.** -/
def Registry.unify (R : Registry) (location : Location) (a b : Ty) (implements : Checker) :
    Outcome Ty :=
  Setting.unify ⟨R, implements, location⟩ a b

end TypeEngine
