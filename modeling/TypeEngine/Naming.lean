import TypeEngine.Error
import TypeEngine.Text.Alphanumeric
import TypeEngine.Text.Blank
import TypeEngine.Text.Lowercase
import TypeEngine.Text.Uppercase

/-!
# Naming rules

Type names start with an uppercase character, parameter names with a lowercase one, and both go on
with letters, numerals and underscores. Function names may hold anything but white space. The
names that the compiler gives to declarations start with `Decl__` and follow the rule of function
names after it, except that something has to follow.
-/

namespace TypeEngine.Naming

open Text

/-- What the names of declarations start with. -/
def declarationMark : List Char :=
  "Decl__".toList

/-- A character that may follow the first one of a name. -/
def isNameChar (c : Char) : Bool :=
  isAlphanumeric c || c == '_'

/-- The rule for all characters but the first. -/
def checkRest (name : String) (rest : List Char) : Except TypeError Unit :=
  if rest.all isNameChar then .ok () else .error (.named .invalidName name)

/-- The rule for a name that starts with a character of a given case. -/
def checkCased (starts : Char → Bool) (code : ErrorCode) (name : String) :
    Except TypeError Unit :=
  match name.toList with
  | [] => .error (.named .invalidName name)
  | c :: rest => if starts c then checkRest name rest else .error (.named code name)

/-- The rule for type names. -/
def checkTypeName (name : String) : Except TypeError Unit :=
  if declarationMark.isPrefixOf name.toList then
    let declared := name.toList.drop declarationMark.length
    if declared.isEmpty || declared.any isBlank then
      .error (.named .invalidName name)
    else
      .ok ()
  else
    checkCased isUppercase .typeNameCase name

/-- The rule for type parameter names. -/
def checkParameterName (name : String) : Except TypeError Unit :=
  checkCased isLowercase .parameterNameCase name

/-- The rule for function names. -/
def checkFunctionName (name : String) : Except TypeError Unit :=
  if name.toList.any isBlank then .error (.named .functionNameSpaces name) else .ok ()

end TypeEngine.Naming
