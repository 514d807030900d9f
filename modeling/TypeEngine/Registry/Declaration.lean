import TypeEngine.Registry.Builder

/-!
# Declarations

Type declarations as data: what a registration is called, and an expression that says how its type
is made. `Expr.draft` runs an expression as steps of a draft, its arguments from left to right.
-/

namespace TypeEngine

/-- How the type of a registration is made. -/
inductive Expr where
  /-- The concrete type of the registered name. -/
  | concrete
  | reference (name : String)
  | parameter (name : String)
  | numeric (kind : Numeric)
  | parametric (name : String) (arguments : List Expr)
  | function (arguments : List Expr)
  | tuple (arguments : List Expr)
  | union (cases : List (CaseOf Expr))
  | intersection (traits : List String)
  | labeled (label : String) (body : Expr)
  /-- A given type, taken as it is. -/
  | raw (ty : Ty)
  /-- A copy of a type registered before. -/
  | existing (name : String)
  /-- One of two expressions, by whether a name is taken. -/
  | ifTaken (name : String) (yes no : Expr)
  /-- An expression under the condition that a name is, or is not, declared in the end. -/
  | require (name : String) (present : Bool) (code : ErrorCode) (body : Expr)

mutual

/-- Make the type of an expression. -/
def Expr.draft : Expr → Factory
  | .concrete => Drafting.concrete
  | .reference name => Drafting.reference name
  | .parameter name => Drafting.parameter name
  | .numeric kind => Drafting.numeric kind
  | .parametric name arguments => do Drafting.parametric name (← draftAll arguments)
  | .function arguments => do Drafting.function (← draftAll arguments)
  | .tuple arguments => do Drafting.tuple (← draftAll arguments)
  | .union cases => do Drafting.union (← draftCases cases)
  | .intersection traits => Drafting.intersection traits
  | .labeled label body => do return .labeled label (← body.draft)
  | .raw ty => return ty
  | .existing name => do
    match ← Drafting.get? name with
    | some ty => return ty
    | none => throw (.typeNotFound name)
  | .ifTaken name yes no => do
    if ← Drafting.isTaken name then yes.draft else no.draft
  | .require name present code body => do
    Drafting.require (.presence name present code)
    body.draft

def draftAll : List Expr → Drafting (List Ty)
  | [] => return []
  | e :: es => do
    let ty ← e.draft
    return ty :: (← draftAll es)

def draftCases : List (CaseOf Expr) → Drafting (List Case)
  | [] => return []
  | ⟨label, params⟩ :: cases => do
    Drafting.declareCase label
    let params ← draftAll params
    return ⟨label, params⟩ :: (← draftCases cases)

end

/-- A method of a declared trait. -/
structure MethodExpr where
  name : String
  hasDefault : Bool
  arguments : List Expr

/-- A registration: a type made by an expression, or a trait. -/
inductive Declaration where
  | type (name : String) (attributes : Attributes) (directives : List Directive) (body : Expr)
  | trait (name : String) (attributes : Attributes) (param : String) (methods : List MethodExpr)

namespace Declaration

/-- A concrete type. -/
def concrete (name : String) : Declaration :=
  .type name ∅ [] .concrete

/-- A new parametric type. -/
def parametric (name : String) (arguments : List Expr) : Declaration :=
  .type name ∅ [] (.parametric name arguments)

/-- A union type. -/
def union (name : String) (cases : List (CaseOf Expr)) : Declaration :=
  .type name ∅ [] (.union cases)

/-- The registration that a declaration stands for. -/
def registration : Declaration → Registration
  | .type name attributes directives body => ⟨name, attributes, directives, body.draft⟩
  | .trait name attributes param methods =>
    ⟨name, attributes, [], Drafting.trait param
      (methods.map fun m => ⟨m.name, m.hasDefault, draftAll m.arguments⟩)⟩

end Declaration

/-- Register declarations in order, with the result of each. -/
def Builder.declareAll (b : Builder) (declarations : List Declaration) :
    List (Except TypeError Ty) × Builder :=
  b.registerAll (declarations.map Declaration.registration)

end TypeEngine
