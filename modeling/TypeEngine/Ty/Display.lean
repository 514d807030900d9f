import TypeEngine.Ty.Shape

/-!
# The text of a type

`Ty.display` is the written form of a type, and `Ty.representation` is the form it has inside
another type or an error message: a compound type stands in parentheses. A value of an implemented
trait and an annotated type print what they hold, and add no parentheses of their own.
-/

namespace TypeEngine

/-- Parentheses around a text that stands for a compound type. -/
def Ty.enclose (ty : Ty) (text : String) : String :=
  match ty with
  | .annotated .. | .impl .. => text
  | _ => if ty.isCompound then "(" ++ text ++ ")" else text

/-- A text after each directive, all on one line. -/
def displayDirectives (directives : List Directive) : String :=
  String.join (directives.map fun d => d.display ++ " ")

/-- The method's name and its signature. -/
def displaySignature (name : String) (arguments : List String) : String :=
  name ++ " :: " ++ " -> ".intercalate arguments

/-- The trait's head and one line per method. -/
def displayTraitWith (name param : String) (methods : List String) : String :=
  "trait " ++ name ++ " " ++ param ++ " =" ++ String.join (methods.map ("\n    " ++ ·))

mutual

/-- The written form of a type. -/
def Ty.display : Ty → String
  | .parameter name _ | .concrete name _ | .reference name | .typeAlias name _
  | .constructor name _ _ => name
  | .parametric head params _ =>
    match head with
    | .trait trait => trait.name ++ " " ++ " ".intercalate (representAll params)
    | head => head.enclose head.display ++ " " ++ " ".intercalate (representAll params)
  | .function arguments _ _ => " -> ".intercalate (representAll arguments)
  | .tuple elements _ => ", ".intercalate (representAll elements)
  | .union cases _ => "\n|".intercalate (displayCases cases)
  | .intersection params _ => " & ".intercalate (representAll params)
  | .trait trait => displayTrait trait
  | .fixedTrait trait => displayTrait trait
  | .method method => displayMethod method
  | .impl _ implementation => implementation.enclose implementation.display
  | .labeled label ty => label ++ ": " ++ ty.enclose ty.display
  | .annotated directives ty => displayDirectives directives ++ ty.enclose ty.display
  | .numeric kind _ => kind.display

def representAll : List Ty → List String
  | [] => []
  | t :: ts => t.enclose t.display :: representAll ts

def displayCases : List Case → List String
  | [] => []
  | ⟨label, params⟩ :: cs => " ".intercalate (label :: representAll params) :: displayCases cs

def displayMethod : Method → String
  | ⟨_, name, arguments, _, _⟩ => displaySignature name (representAll arguments)

def displayMethods : List Method → List String
  | [] => []
  | m :: ms => displayMethod m :: displayMethods ms

def displayTrait : Trait → String
  | ⟨name, param, methods, _⟩ => displayTraitWith name param (displayMethods methods)

end

/-- The form of a type inside other texts. -/
def Ty.representation (ty : Ty) : String :=
  ty.enclose ty.display

/-- The written form of a method. -/
def MethodOf.display (m : Method) : String :=
  displayMethod m

/-- The written form of a trait. -/
def TraitOf.display (t : Trait) : String :=
  displayTrait t

@[simp] theorem representAll_eq (ts : List Ty) :
    representAll ts = ts.map Ty.representation := by
  induction ts <;> simp_all [representAll, Ty.representation]

end TypeEngine
