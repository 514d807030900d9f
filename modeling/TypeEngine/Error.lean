import TypeEngine.Location
import TypeEngine.Text.Replace
import TypeEngine.Ty.Display

/-!
# Errors

An error is a cause, an optional location and named arguments in the order they were attached.
The cause fixes a code name and a message template, in which `{key}` stands for the argument of
that key. `TypeError.message` fills the arguments in one after another, each into the text that
the ones before it left.
-/

namespace TypeEngine

/-- What went wrong. -/
inductive ErrorCode where
  /-- A name has a character that names may not have. -/
  | invalidName
  /-- A type that takes no parameters was given some. -/
  | notParametrized
  /-- A parametric type was declared without parameters. -/
  | missingParameters
  /-- A parametric type was given the wrong number of parameters. -/
  | parameterCount
  | typeNotFound
  | alreadyRegistered
  | typeNameCase
  | parameterNameCase
  | functionNameSpaces
  /-- A function type has fewer than two arguments. -/
  | functionTooShort
  /-- An intersection has a constituent that is no trait. -/
  | notATrait
  | incompatibleTypes
  /-- A type parameter has no binding. -/
  | substitutionNotFound
  | duplicateMethod
  | cyclicAlias
deriving DecidableEq, Repr, Inhabited

namespace ErrorCode

/-- Every code. -/
def all : List ErrorCode :=
  [.invalidName, .notParametrized, .missingParameters, .parameterCount, .typeNotFound,
    .alreadyRegistered, .typeNameCase, .parameterNameCase, .functionNameSpaces,
    .functionTooShort, .notATrait, .incompatibleTypes, .substitutionNotFound, .duplicateMethod,
    .cyclicAlias]

/-- The stable identifier that users see. -/
def name : ErrorCode → String
  | .invalidName => "InvalidName"
  | .notParametrized => "NoParametrizedType"
  | .missingParameters => "ParametricTypeWithoutParameters"
  | .parameterCount => "InvalidNumberOfParameters"
  | .typeNotFound => "TypeNotFound"
  | .alreadyRegistered => "TypeAlreadyRegistered"
  | .typeNameCase => "TypeNameShouldStartWithUpperCase"
  | .parameterNameCase => "TypeParamNameShouldStartWithLowerCase"
  | .functionNameSpaces => "FunctionNameShouldntHaveSpaces"
  | .functionTooShort => "InvalidFunctionType"
  | .notATrait => "IntersectionTypeShouldBeTraits"
  | .incompatibleTypes => "IncompatibleTypes"
  | .substitutionNotFound => "SubstitutionNotFound"
  | .duplicateMethod => "DuplicateTraitMethod"
  | .cyclicAlias => "CyclicAlias"

/-- The code with this identifier. -/
def ofName? (text : String) : Option ErrorCode :=
  all.find? fun code => code.name == text

/-- The place of an argument in a template: its key between braces. -/
def slot (key : String) : String :=
  "\x7b" ++ key ++ "\x7d"

/-- The message template. -/
def description : ErrorCode → String
  | .invalidName => "Name should contains [a-zA-Z0-9_]: " ++ slot "name"
  | .notParametrized => "Type '" ++ slot "type" ++ "' is not parametrized"
  | .missingParameters => "Parametric Type '" ++ slot "type" ++ "' without parameters"
  | .parameterCount =>
    "Type '" ++ slot "type" ++ "' requires " ++ slot "number" ++ " parameters: '"
      ++ slot "configuredType" ++ "'"
  | .typeNotFound => "Type '" ++ slot "type" ++ "' not found"
  | .alreadyRegistered => "Type '" ++ slot "type" ++ "' already registered"
  | .typeNameCase => "Type name should start with a Uppercase letter: '" ++ slot "name" ++ "'"
  | .parameterNameCase => "Type param should start with a lowercase letter: '" ++ slot "name" ++ "'"
  | .functionNameSpaces => "Function names shouldn't have spaces: '" ++ slot "name" ++ "'"
  | .functionTooShort => "Functions should have at least one argument and a return type"
  | .notATrait => "Intersection type should be Traits: '" ++ slot "name" ++ "'"
  | .incompatibleTypes => "Type " ++ slot "type1" ++ " is not compatible with " ++ slot "type2"
  | .substitutionNotFound =>
    "Substitution for param '" ++ slot "param" ++ "' not found in '" ++ slot "type" ++ "'"
  | .duplicateMethod =>
    "Duplicate trait method '" ++ slot "name" ++ "' in trait '" ++ slot "trait" ++ "'"
  | .cyclicAlias =>
    "Type '" ++ slot "type" ++ "' is defined by a cyclic alias chain: " ++ slot "chain"

end ErrorCode

/-- A cause, where it was met, and the arguments of its message. -/
structure TypeError where
  code : ErrorCode
  location : Option Location
  arguments : List (String × String)
deriving DecidableEq, Repr, Inhabited

namespace TypeError

/-- An error without location and arguments. -/
def ofCode (code : ErrorCode) : TypeError :=
  ⟨code, none, []⟩

/-- An error at a location, without arguments. -/
def atLocation (code : ErrorCode) (location : Location) : TypeError :=
  ⟨code, some location, []⟩

/-- Attach an argument at the end, dropping the one its key had. -/
def attach (e : TypeError) (key value : String) : TypeError :=
  ⟨e.code, e.location, e.arguments.filter (fun p => p.1 != key) ++ [(key, value)]⟩

/-- The value of an argument. -/
def argument? (e : TypeError) (key : String) : Option String :=
  e.arguments.lookup key

/-- The template with every argument filled in, in the order of the arguments. -/
def message (e : TypeError) : String :=
  e.arguments.foldl (fun text p => Text.replaceAll (ErrorCode.slot p.1) p.2 text)
    e.code.description

/-- The code name and the message. -/
def display (e : TypeError) : String :=
  e.code.name ++ ": " ++ e.message

/-! ## The errors that several parts of the engine report -/

/-- Two types that do not fit together. -/
def incompatible (location : Location) (a b : Ty) : TypeError :=
  ((atLocation .incompatibleTypes location).attach "type1" a.representation).attach
    "type2" b.representation

/-- A name that no registry in reach declares. -/
def typeNotFound (name : String) : TypeError :=
  (ofCode .typeNotFound).attach "type" name

/-- A name that leads back to itself through `chain`. -/
def cyclicAlias (chain : List String) (name : String) : TypeError :=
  ((ofCode .cyclicAlias).attach "type" name).attach "chain"
    (" -> ".intercalate (chain ++ [name]))

/-- A type parameter of `context` that nothing is bound to. -/
def substitutionNotFound (location : Location) (param : String) (context : Ty) : TypeError :=
  ((atLocation .substitutionNotFound location).attach "param" param).attach
    "type" context.representation

/-- A code with the offending name under the key `name`. -/
def named (code : ErrorCode) (name : String) : TypeError :=
  (ofCode code).attach "name" name

/-- A code with the offending type's name under the key `type`. -/
def ofType (code : ErrorCode) (name : String) : TypeError :=
  (ofCode code).attach "type" name

end TypeError

end TypeEngine
