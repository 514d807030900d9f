import TypeEngine.Naming
import TypeEngine.Registry.Basic

/-!
# Drafting a type

A registration makes its type step by step, and it may mention names that are registered later or
never. A draft therefore collects, beside the type, the checks that can only be made when the
registry is complete, and the case labels that have to be registered together with the type.

`Drafting` is the monad of these steps. A step reads what is registered so far, and the first
error ends the draft: nothing of it is kept then.
-/

namespace TypeEngine

/-- The types in reach, by name. -/
abbrev Lookup := String → Option Ty

/-- A condition on the complete registry: the error if it fails. -/
abbrev Check := Lookup → Option TypeError

/-- The registration under way: its name, its attributes, and what was registered before it. -/
structure Item where
  name : String
  attributes : Attributes
  lookup : Lookup

/-- The checks and case labels that a registration has collected. -/
structure Draft where
  checks : List Check
  constructors : List (String × Ty)

/-- The steps of making a registered type. -/
abbrev Drafting := ReaderT Item (StateT Draft (Except TypeError))

/-- Makes the type of a registration. -/
abbrev Factory := Drafting Ty

/-! ## Checks -/

namespace Check

/-- The name is declared. -/
def declared (name : String) : Check := fun types =>
  if (types name).isSome then none else some (.typeNotFound name)

/-- The name, if it is declared, is a parametric type with as many parameters. -/
def applies (name : String) (params : List Ty) : Check := fun types =>
  match (types name).map Ty.inner with
  | none => none
  | some (.parametric head expected attributes) =>
    if expected.length = params.length then
      none
    else
      some ((((TypeError.ofCode .parameterCount).attach
        "type" (Ty.parametric head expected attributes).representation).attach
        "number" (Nat.repr expected.length)).attach
        "configuredType" (Ty.parametric head params ∅).representation)
  | some _ => some (.ofType .notParametrized name)

/-- The name is a trait. -/
def isTrait (name : String) : Check := fun types =>
  match (types name).map Ty.inner with
  | some (.trait _) => none
  | _ => some (.named .notATrait name)

/-- The name is declared if and only if `present` says so. -/
def presence (name : String) (present : Bool) (code : ErrorCode) : Check := fun types =>
  if (types name).isSome = present then none else some (.ofType code name)

end Check

/-! ## Steps -/

namespace Drafting

/-- A type registered so far, or a case label of this draft. -/
def get? (name : String) : Drafting (Option Ty) := do
  let item ← read
  let draft ← get
  return (item.lookup name).or (draft.constructors.lookup name)

/-- Whether a new case label would repeat a name. -/
def isTaken (name : String) : Drafting Bool := do
  let item ← read
  return name == item.name || (← get? name).isSome

/-- Add a check to be made on the complete registry. -/
def require (check : Check) : Drafting Unit :=
  modify fun draft => ⟨draft.checks ++ [check], draft.constructors⟩

/-- The concrete type of the registered name. -/
def concrete : Factory := do
  let item ← read
  return .concrete item.name item.attributes

/-- A reference to a name, which has to be declared in the end. -/
def reference (name : String) : Factory := do
  require (.declared name)
  return .reference name

/-- A type parameter. -/
def parameter (name : String) : Factory := do
  Naming.checkParameterName name
  return .parameter name .written

/-- A number type. -/
def numeric (kind : Numeric) : Factory := do
  let item ← read
  return .numeric kind item.attributes

/-- A name applied to parameters. The registered name itself declares a new parametric type; any
other name has to be one in the end. -/
def parametric (name : String) (params : List Ty) : Factory := do
  let item ← read
  if name = item.name then
    if params.isEmpty then
      throw (.ofType .missingParameters name)
    else
      return .parametric (.concrete item.name item.attributes) params item.attributes
  else
    let head ← reference name
    require (.applies name params)
    return .parametric head params item.attributes

/-- A function type: at least one parameter, and a result. -/
def function (arguments : List Ty) : Factory := do
  let item ← read
  if arguments.length < 2 then
    throw (.ofCode .functionTooShort)
  else
    return .function arguments .topLevel item.attributes

/-- A tuple type. -/
def tuple (elements : List Ty) : Factory := do
  let item ← read
  return .tuple elements item.attributes

/-- Declare a case label of the registered union. -/
def declareCase (label : String) : Drafting Unit := do
  let item ← read
  Naming.checkTypeName label
  if ← isTaken label then
    throw (.ofType .alreadyRegistered label)
  else
    modify fun draft => ⟨draft.checks, draft.constructors ++
      [(label, .constructor label item.name item.attributes)]⟩

/-- A union of declared cases. -/
def union (cases : List Case) : Factory := do
  let item ← read
  return .union cases item.attributes

/-- The names of an intersection, each of which has to be a trait in the end. -/
def traitNames : List String → Drafting (List Ty)
  | [] => return []
  | name :: names => do
    Naming.checkTypeName name
    require (.isTrait name)
    return .reference name :: (← traitNames names)

/-- An intersection of traits. -/
def intersection (names : List String) : Factory := do
  let item ← read
  return .intersection (← traitNames names) item.attributes

/-- A method to declare: its name, whether it has a default, and its arguments. -/
structure MethodDraft where
  name : String
  hasDefault : Bool
  arguments : Drafting (List Ty)

/-- Declare methods after those already `declared`. No two may share name and arity. -/
def methods (declared : List Method) : List MethodDraft → Drafting (List Method)
  | [] => return declared
  | m :: ms => do
    let item ← read
    Naming.checkFunctionName m.name
    let arguments ← m.arguments
    let method : Method :=
      ⟨item.name, m.name, arguments, m.hasDefault, .ofList [.traitMethod]⟩
    if declared.any (·.key == method.key) then
      throw (((TypeError.ofCode .duplicateMethod).attach "name" method.key).attach
        "trait" item.name)
    else
      methods (declared ++ [method]) ms

/-- A trait over one parameter. -/
def trait (param : String) (ms : List MethodDraft) : Factory := do
  let item ← read
  Naming.checkParameterName param
  return .trait ⟨item.name, param, ← methods [] ms, item.attributes⟩

end Drafting

end TypeEngine
