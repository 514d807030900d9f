import TypeEngine.Table
import TypeEngine.Unification

/-!
# Substitution

Matching a pattern against a type binds the pattern's parameters; substituting puts the bindings
into other types. `Bindings` keeps what was bound, and for each key whose bindings clashed the
error, which every later look-up of that key reports.

A key that is bound twice keeps the unification of both bindings, so repeated number types widen.
Traits are bound too: a pattern that asks for a trait binds the type that was found to have it,
under the text of the trait applied to its parameter.

Matching changes the bindings also when it fails: what was bound before the failure stays bound.
-/

namespace TypeEngine

/-- Bound parameters, and the keys whose bindings clashed. -/
structure Bindings where
  mappings : Table Ty
  errors : Table TypeError
deriving DecidableEq

namespace Bindings

/-- Nothing bound yet. -/
def empty : Bindings :=
  ⟨∅, ∅⟩

instance : EmptyCollection Bindings := ⟨empty⟩

instance : Inhabited Bindings := ⟨empty⟩

/-- Whether some key clashed. -/
def hasErrors (σ : Bindings) : Bool :=
  0 < σ.errors.size

/-- What a key is bound to. The clash of a key comes before its binding. -/
def get (σ : Bindings) (location : Location) (key : String) (context : Ty) :
    Except TypeError Ty :=
  match σ.errors.get? key with
  | some e => .error e
  | none =>
    match σ.mappings.get? key with
    | some ty => .ok ty
    | none => .error (.substitutionNotFound location key context)

/-- Bind a key. -/
def bind (σ : Bindings) (key : String) (ty : Ty) : Bindings :=
  ⟨σ.mappings.insert key ty, σ.errors⟩

/-- Remember that the bindings of a key clashed. -/
def remember (σ : Bindings) (key : String) (e : TypeError) : Bindings :=
  ⟨σ.mappings, σ.errors.insert key e⟩

end Bindings

/-- Pair two lists of the same length. -/
def zipExact (left right : List Ty) : Option (List (Ty × Ty)) :=
  if left.length = right.length then some (left.zip right) else none

/-- Pair the parameters of two lists of cases with the same labels. -/
def zipCases : List Case → List Case → Option (List (Ty × Ty))
  | [], [] => some []
  | c :: cs, d :: ds =>
    if c.label = d.label then do
      let pairs ← zipExact c.params d.params
      let rest ← zipCases cs ds
      return pairs ++ rest
    else
      none
  | _, _ => none

namespace Setting

variable (s : Setting)

/-! ## Binding -/

/-- Bind a key once more: the binding becomes the unification of the old and the new type, tried
in this order and then the other way round. -/
def addMapping (key : String) (ty : Ty) (σ : Bindings) : Outcome Bool × Bindings :=
  match σ.mappings.get? key with
  | none => (.ok true, σ.bind key ty)
  | some existing =>
    match (s.unify existing ty).orElse fun _ => s.unify ty existing with
    | .ok unified => (.ok true, σ.bind key unified)
    | .error e => (.error e, σ.remember key e)
    | .outOfFuel => (.outOfFuel, σ)

/-- Match pairs one after another, up to the first failure. -/
def extractPairs (go : Ty → Ty → Bindings → Outcome Bool × Bindings) :
    List (Ty × Ty) → Bindings → Outcome Bool × Bindings
  | [], σ => (.ok true, σ)
  | (pattern, ty) :: pairs, σ =>
    match go pattern ty σ with
    | (.ok _, σ) => extractPairs go pairs σ
    | stopped => stopped

/-- Whether `actual` is itself an application of the trait. -/
def appliesTrait (trait : Trait) (actual : Ty) : Outcome Bool :=
  match actual with
  | .parametric head _ _ =>
    match s.types.family head with
    | .ok family => .ok (family == trait.name)
    | .error _ => .ok false
    | .outOfFuel => .outOfFuel
  | _ => .ok false

/-- The arguments that a compound pattern and a type of the same structure pair up. -/
def argumentPairs (pattern actual : Ty) : Outcome (Option (List (Ty × Ty))) :=
  match pattern, actual with
  | .function left _ _, .function right _ _ => .ok (zipExact left right)
  | .tuple left _, .tuple right _ => .ok (zipExact left right)
  | .intersection left _, .intersection right _ => .ok (zipExact left right)
  | .union left _, .union right _ => .ok (zipCases left right)
  | .parametric head left _, .parametric head' right _ => do
    let family ← s.types.family head
    let family' ← s.types.family head'
    return if family = family' then zipExact left right else none
  | _, _ => .ok none

/-- What a compound pattern does with a type: nothing, bind a witness of a trait, or match pairs
of arguments. -/
inductive Plan where
  | skip
  | witness (trait : Trait) (actual : Ty)
  | pairs (pairs : List (Ty × Ty))

/-- How to match a compound pattern. -/
def plan (pattern ty : Ty) : Outcome Plan := do
  let resolved ← s.types.resolve ty
  let actual := resolved.inner
  if actual.isParameter then
    return .skip
  else
    match ← s.boundTrait pattern with
    | some trait =>
      if ← s.appliesTrait trait actual then
        byStructure actual
      else if s.implements trait actual then
        return .witness trait actual
      else
        s.clash pattern ty
    | none => byStructure actual
where
  byStructure (actual : Ty) : Outcome Plan := do
    match ← s.argumentPairs pattern actual with
    | some pairs => return .pairs pairs
    | none => s.clash pattern ty

/-- Match a compound pattern. -/
def extractCompound (go : Ty → Ty → Bindings → Outcome Bool × Bindings) (pattern ty : Ty)
    (σ : Bindings) : Outcome Bool × Bindings :=
  match s.plan pattern ty with
  | .ok .skip => (.ok false, σ)
  | .ok (.witness trait actual) => s.addMapping pattern.representation (.impl trait actual) σ
  | .ok (.pairs pairs) => extractPairs go pairs σ
  | .error e => (.error e, σ)
  | .outOfFuel => (.outOfFuel, σ)

/-- Match a pattern that asks for a type with a trait: bind the proven trait, or the type with
the fact that it has the trait. -/
def extractImpl (trait : Trait) (pattern ty : Ty) (σ : Bindings) : Outcome Bool × Bindings :=
  match s.types.resolve ty with
  | .error e => (.error e, σ)
  | .ok resolved =>
    let proven :=
      match resolved.inner with
      | .fixedTrait fixed => s.implements trait (.trait fixed)
      | _ => false
    if proven then
      s.addMapping trait.mappingKey resolved σ
    else if s.implements trait resolved.inner then
      s.addMapping trait.mappingKey (.impl trait resolved.inner) σ
    else
      (s.clash pattern ty, σ)

/-- Match a proven trait: it binds itself when the type has the trait. -/
def extractFixedTrait (fixed : Trait) (pattern ty : Ty) (σ : Bindings) :
    Outcome Bool × Bindings :=
  match s.types.resolve ty with
  | .error e => (.error e, σ)
  | .ok resolved =>
    if s.implements fixed resolved.inner then
      s.addMapping fixed.mappingKey pattern σ
    else
      (s.clash pattern ty, σ)

/-- Match with bounded fuel. -/
def extractWithin : Nat → Ty → Ty → Bindings → Outcome Bool × Bindings
  | 0, _, _, σ => (.outOfFuel, σ)
  | n + 1, pattern, ty, σ =>
    match pattern with
    | .parameter name _ => s.addMapping name ty σ
    | .reference .. | .typeAlias .. | .constructor .. =>
      match s.types.resolve pattern with
      | .ok resolved => extractWithin n resolved ty σ
      | .error e => (.error e, σ)
    | .labeled _ inner | .annotated _ inner => extractWithin n inner ty σ
    | .parametric .. | .function .. | .tuple .. | .union .. | .intersection .. =>
      s.extractCompound (extractWithin n) pattern ty σ
    | .impl trait _ => s.extractImpl trait pattern ty σ
    | .fixedTrait fixed => s.extractFixedTrait fixed pattern ty σ
    | .concrete .. | .trait _ | .method _ | .numeric .. => (.ok false, σ)

/-- **Match a pattern against a type, binding the pattern's parameters.** The answer says whether
anything was matched. -/
def extract (pattern ty : Ty) (σ : Bindings) : Outcome Bool × Bindings :=
  s.extractWithin (s.types.pairFuel pattern ty) pattern ty σ

/-! ## Substituting -/

/-- The witness that is bound to a trait applied to parameters. -/
def witness? (σ : Bindings) (context ty : Ty) : Outcome (Option Ty) := do
  match ← s.boundTrait ty with
  | some _ => return (σ.get s.location ty.representation context).toOption
  | none => return none

/-- Substitute with bounded fuel; `context` is the type that errors speak of. -/
def substituteWithin (σ : Bindings) (context : Ty) : Nat → Ty → Outcome Ty
  | 0, _ => .outOfFuel
  | n + 1, ty =>
    match ty with
    | .parameter name _ => σ.get s.location name context
    | .reference .. | .typeAlias .. | .constructor .. => do
      let resolved ← s.types.resolve ty
      substituteWithin σ context n resolved
    | .labeled label inner => do
      return .labeled label (← substituteWithin σ context n inner)
    | .annotated directives inner => do
      return .annotated directives (← substituteWithin σ context n inner)
    | .parametric head params attributes => do
      match ← s.witness? σ context ty with
      | some found => return found
      | none =>
        let params ← params.mapM (substituteWithin σ context n)
        return .parametric head params attributes
    | .function arguments scope attributes => do
      return .function (← arguments.mapM (substituteWithin σ context n)) scope attributes
    | .tuple elements attributes => do
      return .tuple (← elements.mapM (substituteWithin σ context n)) attributes
    | .intersection params attributes => do
      return .intersection (← params.mapM (substituteWithin σ context n)) attributes
    | .union cases attributes => do
      let cases ← cases.mapM fun c => do
        return ⟨c.label, ← c.params.mapM (substituteWithin σ context n)⟩
      return .union cases attributes
    | .impl trait _ => σ.get s.location trait.mappingKey context
    | ty => return ty

/-- **Put the bindings into a type.** -/
def substitute (σ : Bindings) (ty context : Ty) : Outcome Ty :=
  s.substituteWithin σ context (s.types.descentFuel ty) ty

end Setting

/-! ## Runs -/

/-- A call on one set of bindings. -/
inductive BindingCall where
  | extract (location : Location) (pattern ty : Ty)
  | addMapping (location : Location) (key : String) (ty : Ty)
  | get (location : Location) (key : String) (context : Ty)
  | substitute (location : Location) (ty context : Ty)

/-- What a call answers. -/
inductive BindingAnswer where
  | matched (result : Outcome Bool)
  | type (result : Outcome Ty)
deriving DecidableEq

/-- Make one call. -/
def BindingCall.run (types : Registry) (implements : Checker) (σ : Bindings) :
    BindingCall → BindingAnswer × Bindings
  | .extract location pattern ty =>
    let (result, σ) := Setting.extract ⟨types, implements, location⟩ pattern ty σ
    (.matched result, σ)
  | .addMapping location key ty =>
    let (result, σ) := Setting.addMapping ⟨types, implements, location⟩ key ty σ
    (.matched result, σ)
  | .get location key context => (.type (.ofExcept (σ.get location key context)), σ)
  | .substitute location ty context =>
    (.type (Setting.substitute ⟨types, implements, location⟩ σ ty context), σ)

/-- Make calls one after another, with the answer and the bindings after each. -/
def runBindings (types : Registry) (implements : Checker) (σ : Bindings) :
    List BindingCall → List (BindingAnswer × Bindings)
  | [] => []
  | call :: calls =>
    let (answer, σ) := call.run types implements σ
    (answer, σ) :: runBindings types implements σ calls

end TypeEngine
