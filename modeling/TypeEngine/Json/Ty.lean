import TypeEngine.Json.Values

/-!
# JSON form of types

A type is an object with one field, named for the kind of type, whose content is an object of the
parts. Attributes are written with the type, so the form loses nothing.

Writing follows the structure of the type. Reading goes down the document with fuel for each of
its nodes, which is as deep as any type in it can nest.
-/

namespace TypeEngine

/-! ## Writing -/

mutual

/-- The JSON form of a type. -/
def Ty.toJson : Ty → Json
  | .parameter name origin =>
    .tagged "Parameter" (.obj [("name", .str name), ("visibility", origin.toJson)])
  | .concrete name attributes =>
    .tagged "Concrete" (.obj [("name", .str name), ("attributes", attributes.toJson)])
  | .reference name => .tagged "Alias" (.obj [("name", .str name)])
  | .typeAlias name attributes =>
    .tagged "TypeAlias" (.obj [("name", .str name), ("attributes", attributes.toJson)])
  | .parametric head params attributes =>
    .tagged "Parametric" (.obj [("head", head.toJson), ("params", .arr (jsonAll params)),
      ("attributes", attributes.toJson)])
  | .function arguments scope attributes =>
    .tagged "Function" (.obj [("arguments", .arr (jsonAll arguments)), ("scope", scope.toJson),
      ("attributes", attributes.toJson)])
  | .tuple elements attributes =>
    .tagged "Tuple" (.obj [("elements", .arr (jsonAll elements)),
      ("attributes", attributes.toJson)])
  | .union cases attributes =>
    .tagged "Union" (.obj [("cases", .arr (jsonCases cases)), ("attributes", attributes.toJson)])
  | .intersection params attributes =>
    .tagged "Intersection" (.obj [("params", .arr (jsonAll params)),
      ("attributes", attributes.toJson)])
  | .trait trait => .tagged "Trait" (jsonTrait trait)
  | .method method => .tagged "Method" (jsonMethod method)
  | .impl trait implementation =>
    .tagged "Impl" (.obj [("trait_type", jsonTrait trait),
      ("implementation", implementation.toJson)])
  | .fixedTrait trait => .tagged "FixedTrait" (jsonTrait trait)
  | .constructor label union attributes =>
    .tagged "TypeConstructor" (.obj [("name", .str label), ("alias", .str union),
      ("attributes", attributes.toJson)])
  | .labeled label ty => .tagged "Labeled" (.obj [("label", .str label), ("ty", ty.toJson)])
  | .annotated directives ty =>
    .tagged "Annotated" (.obj [("annotations", .arr (directives.map Directive.toJson)),
      ("ty", ty.toJson)])
  | .numeric kind attributes =>
    .tagged "Numeric" (.obj [("kind", kind.toJson), ("attributes", attributes.toJson)])

def jsonAll : List Ty → List Json
  | [] => []
  | t :: ts => t.toJson :: jsonAll ts

def jsonCases : List Case → List Json
  | [] => []
  | ⟨label, params⟩ :: cs =>
    .obj [("label", .str label), ("params", .arr (jsonAll params))] :: jsonCases cs

def jsonMethod : Method → Json
  | ⟨traitName, name, arguments, hasDefault, attributes⟩ =>
    .obj [("trait_name", .str traitName), ("name", .str name),
      ("arguments", .arr (jsonAll arguments)), ("default_impl", .bool hasDefault),
      ("attributes", attributes.toJson)]

def jsonMethods : List Method → List Json
  | [] => []
  | m :: ms => jsonMethod m :: jsonMethods ms

def jsonTrait : Trait → Json
  | ⟨name, param, methods, attributes⟩ =>
    .obj [("name", .str name), ("param", .str param), ("methods", .arr (jsonMethods methods)),
      ("attributes", attributes.toJson)]

end

/-- The JSON form of a method. -/
def MethodOf.toJson (m : Method) : Json :=
  jsonMethod m

@[simp] theorem jsonAll_eq (ts : List Ty) : jsonAll ts = ts.map Ty.toJson := by
  induction ts <;> simp_all [jsonAll]

/-! ## Reading -/

namespace Json

/-- Read a text field. -/
def text? (json : Json) (key : String) : Option String := do
  (← json.field? key).str?

/-- Read the attributes of a structure. -/
def attributes? (json : Json) : Option Attributes := do
  Attributes.ofJson? (← json.field? "attributes")

/-- Read an array field, each element by `go`. -/
def list? {α : Type} (go : Json → Option α) (json : Json) (key : String) : Option (List α) := do
  (← (← json.field? key).arr?).mapM go

/-- Read a union case whose parameters are read by `go`. -/
def case? (go : Json → Option Ty) (json : Json) : Option Case := do
  return ⟨← json.text? "label", ← json.list? go "params"⟩

/-- Read a method whose arguments are read by `go`. -/
def method? (go : Json → Option Ty) (json : Json) : Option Method := do
  let traitName ← json.text? "trait_name"
  let name ← json.text? "name"
  let arguments ← json.list? go "arguments"
  let hasDefault ← (← json.field? "default_impl").bool?
  return ⟨traitName, name, arguments, hasDefault, ← json.attributes?⟩

/-- Read a trait whose methods' arguments are read by `go`. -/
def trait? (go : Json → Option Ty) (json : Json) : Option Trait := do
  let name ← json.text? "name"
  let param ← json.text? "param"
  let methods ← json.list? (method? go) "methods"
  return ⟨name, param, methods, ← json.attributes?⟩

/-- Read the content of a type of the kind `tag`, its subterms by `go`. -/
def content? (go : Json → Option Ty) (tag : String) (json : Json) : Option Ty :=
  match tag with
  | "Parameter" => do
    return .parameter (← json.text? "name") (← Origin.ofJson? (← json.field? "visibility"))
  | "Concrete" => do return .concrete (← json.text? "name") (← json.attributes?)
  | "Alias" => do return .reference (← json.text? "name")
  | "TypeAlias" => do return .typeAlias (← json.text? "name") (← json.attributes?)
  | "Parametric" => do
    return .parametric (← go (← json.field? "head")) (← json.list? go "params")
      (← json.attributes?)
  | "Function" => do
    return .function (← json.list? go "arguments") (← Scope.ofJson? (← json.field? "scope"))
      (← json.attributes?)
  | "Tuple" => do return .tuple (← json.list? go "elements") (← json.attributes?)
  | "Union" => do return .union (← json.list? (case? go) "cases") (← json.attributes?)
  | "Intersection" => do return .intersection (← json.list? go "params") (← json.attributes?)
  | "Trait" => do return .trait (← json.trait? go)
  | "Method" => do return .method (← json.method? go)
  | "Impl" => do
    return .impl (← (← json.field? "trait_type").trait? go) (← go (← json.field? "implementation"))
  | "FixedTrait" => do return .fixedTrait (← json.trait? go)
  | "TypeConstructor" => do
    return .constructor (← json.text? "name") (← json.text? "alias") (← json.attributes?)
  | "Labeled" => do return .labeled (← json.text? "label") (← go (← json.field? "ty"))
  | "Annotated" => do
    return .annotated (← json.list? Directive.ofJson? "annotations") (← go (← json.field? "ty"))
  | "Numeric" => do
    return .numeric (← Numeric.ofJson? (← json.field? "kind")) (← json.attributes?)
  | _ => none

/-- Read a type that nests at most as deep as the fuel. -/
def tyWithin : Nat → Json → Option Ty
  | 0, _ => none
  | n + 1, json => do
    let (tag, content) ← json.tagged?
    content? (tyWithin n) tag content

end Json

/-- **Read a type.** -/
def Ty.ofJson? (json : Json) : Option Ty :=
  json.tyWithin json.size

/-- Read a trait. -/
def TraitOf.ofJson? (json : Json) : Option Trait :=
  json.trait? Ty.ofJson?

end TypeEngine
