import TypeEngine.Attribute
import TypeEngine.Directive
import TypeEngine.Numeric

/-!
# Types

`Ty` is the closed family of types that the engine works on. Union cases, trait methods and traits
hold types in turn; their shapes `CaseOf`, `MethodOf` and `TraitOf` are declared over any element
type first, and `Ty` closes the loop.

Every traversal of `Ty` is structural: one function per shape, each with a lemma that turns the
list versions into `List.map`. `Ty.induct` is the induction principle that goes with them: each
list of subterms gives its hypothesis in the form `∀ t ∈ ts, motive t`.
-/

namespace TypeEngine

/-- Whether a type parameter was written in the source or made up by the compiler. -/
inductive Origin where
  | written
  | synthesized
deriving DecidableEq, Repr, Inhabited

/-- Where a function type was declared: at the top level, or as a method of a trait. -/
inductive Scope where
  | topLevel
  | trait (name : String)
deriving DecidableEq, Repr, Inhabited

/-- One case of a union: a label applied to positional parameters. -/
structure CaseOf (α : Type) where
  label : String
  params : List α
deriving DecidableEq, Inhabited

/-- A method signature: parameter types followed by the result type. -/
structure MethodOf (α : Type) where
  traitName : String
  name : String
  arguments : List α
  hasDefault : Bool
  attributes : Attributes
deriving DecidableEq, Inhabited

/-- A named list of method signatures over one type parameter. -/
structure TraitOf (α : Type) where
  name : String
  param : String
  methods : List (MethodOf α)
  attributes : Attributes
deriving DecidableEq, Inhabited

/-- A type. -/
inductive Ty where
  /-- An unbound type variable. -/
  | parameter (name : String) (origin : Origin)
  /-- An atomic named type. -/
  | concrete (name : String) (attributes : Attributes)
  /-- A reference to a registered type. -/
  | reference (name : String)
  /-- A registered second name for a registered type; its attributes join those of the target. -/
  | typeAlias (name : String) (attributes : Attributes)
  /-- A head applied to positional arguments. -/
  | parametric (head : Ty) (params : List Ty) (attributes : Attributes)
  /-- Parameter types followed by the result type. -/
  | function (arguments : List Ty) (scope : Scope) (attributes : Attributes)
  | tuple (elements : List Ty) (attributes : Attributes)
  /-- A sum of labelled cases. -/
  | union (cases : List (CaseOf Ty)) (attributes : Attributes)
  /-- All of several traits at once. -/
  | intersection (params : List Ty) (attributes : Attributes)
  | trait (trait : TraitOf Ty)
  | method (method : MethodOf Ty)
  /-- `implementation`, together with the fact that it has the trait. -/
  | impl (trait : TraitOf Ty) (implementation : Ty)
  /-- A trait that is known to hold of a type which no longer matters. -/
  | fixedTrait (trait : TraitOf Ty)
  /-- A union case label, standing for the union that declares it. -/
  | constructor (label : String) (union : String) (attributes : Attributes)
  | labeled (label : String) (ty : Ty)
  | annotated (directives : List Directive) (ty : Ty)
  | numeric (kind : Numeric) (attributes : Attributes)

abbrev Case := CaseOf Ty

abbrev Method := MethodOf Ty

abbrev Trait := TraitOf Ty

instance : Inhabited Ty := ⟨.tuple [] ∅⟩

/-! ## Shapes are functors -/

namespace CaseOf

variable {α β : Type}

/-- Apply a function to every parameter. -/
def map (f : α → β) (c : CaseOf α) : CaseOf β :=
  ⟨c.label, c.params.map f⟩

end CaseOf

namespace MethodOf

variable {α β : Type}

/-- Apply a function to every argument and another one to the attributes. -/
def map (f : α → β) (g : Attributes → Attributes) (m : MethodOf α) : MethodOf β :=
  ⟨m.traitName, m.name, m.arguments.map f, m.hasDefault, g m.attributes⟩

end MethodOf

namespace TraitOf

variable {α β : Type}

/-- Apply a function to every argument of every method and another one to all attributes. -/
def map (f : α → β) (g : Attributes → Attributes) (t : TraitOf α) : TraitOf β :=
  ⟨t.name, t.param, t.methods.map (·.map f g), g t.attributes⟩

end TraitOf

/-! ## Induction -/

/-- Induction over types, with one hypothesis per list of subterms. -/
@[elab_as_elim, induction_eliminator]
theorem Ty.induct {motive : Ty → Prop}
    (parameter : ∀ name origin, motive (.parameter name origin))
    (concrete : ∀ name attributes, motive (.concrete name attributes))
    (reference : ∀ name, motive (.reference name))
    (typeAlias : ∀ name attributes, motive (.typeAlias name attributes))
    (parametric : ∀ head params attributes, motive head → (∀ t ∈ params, motive t) →
      motive (.parametric head params attributes))
    (function : ∀ arguments scope attributes, (∀ t ∈ arguments, motive t) →
      motive (.function arguments scope attributes))
    (tuple : ∀ elements attributes, (∀ t ∈ elements, motive t) →
      motive (.tuple elements attributes))
    (union : ∀ cases attributes, (∀ c ∈ cases, ∀ t ∈ c.params, motive t) →
      motive (.union cases attributes))
    (intersection : ∀ params attributes, (∀ t ∈ params, motive t) →
      motive (.intersection params attributes))
    (trait : ∀ trait : Trait, (∀ m ∈ trait.methods, ∀ t ∈ m.arguments, motive t) →
      motive (.trait trait))
    (method : ∀ method : Method, (∀ t ∈ method.arguments, motive t) → motive (.method method))
    (impl : ∀ (trait : Trait) implementation,
      (∀ m ∈ trait.methods, ∀ t ∈ m.arguments, motive t) → motive implementation →
      motive (.impl trait implementation))
    (fixedTrait : ∀ trait : Trait, (∀ m ∈ trait.methods, ∀ t ∈ m.arguments, motive t) →
      motive (.fixedTrait trait))
    (constructor : ∀ label union attributes, motive (.constructor label union attributes))
    (labeled : ∀ label ty, motive ty → motive (.labeled label ty))
    (annotated : ∀ directives ty, motive ty → motive (.annotated directives ty))
    (numeric : ∀ kind attributes, motive (.numeric kind attributes))
    (ty : Ty) : motive ty := by
  refine @Ty.rec motive
    (fun ts => ∀ t ∈ ts, motive t)
    (fun cs => ∀ c ∈ cs, ∀ t ∈ c.params, motive t)
    (fun t => ∀ m ∈ t.methods, ∀ a ∈ m.arguments, motive a)
    (fun m => ∀ t ∈ m.arguments, motive t)
    (fun c => ∀ t ∈ c.params, motive t)
    (fun ms => ∀ m ∈ ms, ∀ t ∈ m.arguments, motive t)
    parameter concrete reference typeAlias parametric function tuple union intersection trait method
    impl fixedTrait constructor labeled annotated numeric
    ?_ ?_ ?_ ?_ ?_ ?_ ?_ ?_ ?_ ty
  all_goals grind

end TypeEngine
