import TypeEngine.Ty.Basic

/-!
# The parts of a type

Projections that the engines share: what lies under the labels and directives, the immediate
subterms, the attributes a type shows, and the function that a method signature stands for.
-/

namespace TypeEngine

namespace MethodOf

variable {α : Type}

/-- The number of parameters: the last argument is the result. -/
def arity (m : MethodOf α) : Nat :=
  m.arguments.length - 1

/-- The `name/arity` key by which a trait tells its methods apart. -/
def key (m : MethodOf α) : String :=
  m.name ++ "/" ++ Nat.repr m.arity

/-- The method as a function type, scoped to its trait. -/
def toFunction (m : Method) : Ty :=
  .function m.arguments (.trait m.traitName) m.attributes

end MethodOf

namespace TraitOf

variable {α : Type}

/-- The first method with this name and arity. -/
def method? (t : TraitOf α) (name : String) (arity : Nat) : Option (MethodOf α) :=
  t.methods.find? fun m => m.name == name && m.arity == arity

/-- The key under which bindings keep the witness of the trait. -/
def mappingKey (t : TraitOf α) : String :=
  "(" ++ t.name ++ " " ++ t.param ++ ")"

/-- The trait applied to its own parameter. -/
def toParametric (t : Trait) : Ty :=
  .parametric (.trait t) [.parameter t.param .written] t.attributes

end TraitOf

namespace Ty

/-- Whether the type is a type variable. -/
def isParameter : Ty → Bool
  | .parameter .. => true
  | _ => false

/-- The type under all leading labels and directives. -/
def inner : Ty → Ty
  | .labeled _ ty => ty.inner
  | .annotated _ ty => ty.inner
  | ty => ty

/-- Whether the type has structure that is printed in parentheses. -/
def isCompound : Ty → Bool
  | .parametric .. | .function .. | .tuple .. | .intersection .. => true
  | .impl _ implementation => implementation.isCompound
  | .annotated _ ty => ty.isCompound
  | _ => false

/-- The immediate subterms. -/
def terms : Ty → List Ty
  | .parametric head params _ => head :: params
  | .function arguments _ _ => arguments
  | .tuple elements _ => elements
  | .union cases _ => cases.flatMap (·.params)
  | .intersection params _ => params
  | .trait t | .fixedTrait t => t.methods.flatMap (·.arguments)
  | .method m => m.arguments
  | .impl _ implementation => implementation.terms
  | .labeled _ ty | .annotated _ ty => [ty]
  | _ => []

/-- The attributes a type shows; wrappers show those of the type inside. -/
def attributes : Ty → Attributes
  | .concrete _ attributes | .typeAlias _ attributes | .parametric _ _ attributes
  | .function _ _ attributes | .tuple _ attributes | .union _ attributes
  | .intersection _ attributes | .constructor _ _ attributes | .numeric _ attributes => attributes
  | .trait t | .fixedTrait t => t.attributes
  | .method m => m.attributes
  | .impl _ implementation => implementation.attributes
  | .labeled _ ty | .annotated _ ty => ty.attributes
  | .parameter .. | .reference _ => ∅

/-- The type with its attributes replaced. Parameters and references have none to replace. -/
def withAttributes (attributes : Attributes) : Ty → Ty
  | .concrete name _ => .concrete name attributes
  | .typeAlias name _ => .typeAlias name attributes
  | .parametric head params _ => .parametric head params attributes
  | .function arguments scope _ => .function arguments scope attributes
  | .tuple elements _ => .tuple elements attributes
  | .union cases _ => .union cases attributes
  | .intersection params _ => .intersection params attributes
  | .constructor label owner _ => .constructor label owner attributes
  | .numeric kind _ => .numeric kind attributes
  | .trait t => .trait ⟨t.name, t.param, t.methods, attributes⟩
  | .fixedTrait t => .fixedTrait ⟨t.name, t.param, t.methods, attributes⟩
  | .method m => .method ⟨m.traitName, m.name, m.arguments, m.hasDefault, attributes⟩
  | .impl t implementation => .impl t (implementation.withAttributes attributes)
  | .labeled label ty => .labeled label (ty.withAttributes attributes)
  | .annotated directives ty => .annotated directives (ty.withAttributes attributes)
  | .parameter name origin => .parameter name origin
  | .reference name => .reference name

/-- The type with `attributes` added to those it shows. -/
def addAttributes (attributes : Attributes) (ty : Ty) : Ty :=
  ty.withAttributes (ty.attributes.union attributes)

/-- The directives on a type, if it has them at the top. -/
def directives : Ty → List Directive
  | .annotated directives _ => directives
  | _ => []

/-! ## Fresh parameters -/

/-- The `n`-th parameter made up by the compiler. -/
def freshParameter (n : Nat) : Ty :=
  .parameter ("@" ++ Nat.repr n) .synthesized

end Ty

end TypeEngine
