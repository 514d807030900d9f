import TypeEngine.Ty.Basic

/-!
# Which rule a type follows

Each engine treats the types of one kind alike. The tables below name the treatment, for tools
that inspect a type without running an engine.
-/

namespace TypeEngine

/-- How a type unifies when it is the expected one. -/
inductive UnificationRule where
  | equality
  | parameter
  | reference
  | inner
  | constructor
  | compound
  | union
  | intersection
  | trait
  | method
  | impl
  | fixedTrait
  | numeric
deriving DecidableEq, Repr

/-- How a type takes part in substitution, as a pattern and as a subject. -/
inductive SubstitutionRule where
  | identity
  | parameter
  | reference
  | inner
  | compound
  | impl
  | fixedTrait
deriving DecidableEq, Repr

/-- How a type is solved. -/
inductive SolvingRule where
  | passThrough
  | reference
  | parametric
  | compound
  | impl
  | inner
deriving DecidableEq, Repr

/-- The binary form that a type is written in: one per kind of type. -/
inductive StorageForm where
  | parameter
  | concrete
  | reference
  | typeAlias
  | parametric
  | function
  | tuple
  | union
  | intersection
  | trait
  | method
  | impl
  | fixedTrait
  | constructor
  | labeled
  | annotated
  | numeric
deriving DecidableEq, Repr

/-! ## Names -/

/-- The name of a rule of unification. -/
def UnificationRule.name : UnificationRule → String
  | .equality => "Default"
  | .parameter => "Parameter"
  | .reference => "Alias"
  | .inner => "Inner"
  | .constructor => "TypeConstructor"
  | .compound => "Compound"
  | .union => "Union"
  | .intersection => "Intersection"
  | .trait => "Trait"
  | .method => "Method"
  | .impl => "Impl"
  | .fixedTrait => "FixedTrait"
  | .numeric => "Numeric"

/-- The name of a rule of substitution. -/
def SubstitutionRule.name : SubstitutionRule → String
  | .identity => "Identity"
  | .parameter => "Parameter"
  | .reference => "Alias"
  | .inner => "Inner"
  | .compound => "Compound"
  | .impl => "Impl"
  | .fixedTrait => "FixedTrait"

/-- The name of a rule of solving. -/
def SolvingRule.name : SolvingRule → String
  | .passThrough => "PassThrough"
  | .reference => "Alias"
  | .parametric => "Parametric"
  | .compound => "Compound"
  | .impl => "Impl"
  | .inner => "Inner"

/-- The name of a binary form. -/
def StorageForm.name : StorageForm → String
  | .parameter => "Parameter"
  | .concrete => "Concrete"
  | .reference => "Alias"
  | .typeAlias => "TypeAlias"
  | .parametric => "ParametricType"
  | .function => "FunctionType"
  | .tuple => "TupleType"
  | .union => "UnionType"
  | .intersection => "IntersectionType"
  | .trait => "TraitType"
  | .method => "MethodType"
  | .impl => "ImplType"
  | .fixedTrait => "FixedTraitType"
  | .constructor => "ConstructorType"
  | .labeled => "Labeled"
  | .annotated => "Annotated"
  | .numeric => "NumericType"

/-! ## Tables -/

namespace Ty

/-- The rule of unification that a type follows. -/
def unificationRule : Ty → UnificationRule
  | .parameter .. => .parameter
  | .concrete .. => .equality
  | .reference _ | .typeAlias .. => .reference
  | .parametric .. | .function .. | .tuple .. => .compound
  | .union .. => .union
  | .intersection .. => .intersection
  | .trait _ => .trait
  | .method _ => .method
  | .impl .. => .impl
  | .fixedTrait _ => .fixedTrait
  | .constructor .. => .constructor
  | .labeled .. | .annotated .. => .inner
  | .numeric .. => .numeric

/-- The rule of substitution that a type follows. -/
def substitutionRule : Ty → SubstitutionRule
  | .parameter .. => .parameter
  | .reference _ | .typeAlias .. | .constructor .. => .reference
  | .parametric .. | .function .. | .tuple .. | .union .. | .intersection .. => .compound
  | .impl .. => .impl
  | .fixedTrait _ => .fixedTrait
  | .labeled .. | .annotated .. => .inner
  | .concrete .. | .trait _ | .method _ | .numeric .. => .identity

/-- The rule of solving that a type follows. -/
def solvingRule : Ty → SolvingRule
  | .reference _ | .typeAlias .. => .reference
  | .parametric .. => .parametric
  | .function .. | .tuple .. | .union .. => .compound
  | .impl .. => .impl
  | .labeled .. | .annotated .. => .inner
  | _ => .passThrough

/-- The binary form of a type. -/
def storageForm : Ty → StorageForm
  | .parameter .. => .parameter
  | .concrete .. => .concrete
  | .reference _ => .reference
  | .typeAlias .. => .typeAlias
  | .parametric .. => .parametric
  | .function .. => .function
  | .tuple .. => .tuple
  | .union .. => .union
  | .intersection .. => .intersection
  | .trait _ => .trait
  | .method _ => .method
  | .impl .. => .impl
  | .fixedTrait _ => .fixedTrait
  | .constructor .. => .constructor
  | .labeled .. => .labeled
  | .annotated .. => .annotated
  | .numeric .. => .numeric

end Ty

end TypeEngine
