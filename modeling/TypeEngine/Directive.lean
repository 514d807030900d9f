/-!
# Directives

A directive is a compiler or documentation marker on a type, such as `@native` or
`@deprecated(since=2 by=Age)`. Its arguments are ordered and keys may repeat; the first pair of a
key is the one that counts.
-/

namespace TypeEngine

/-- A named marker with ordered arguments. -/
structure Directive where
  name : String
  arguments : List (String × String)
deriving DecidableEq, Repr, Inhabited

namespace Directive

/-- The value of the first argument with this key. -/
def argument? (d : Directive) (key : String) : Option String :=
  d.arguments.lookup key

/-- The written form: the name alone, or the name and its arguments in parentheses. -/
def display (d : Directive) : String :=
  if d.arguments.isEmpty then
    "@" ++ d.name
  else
    "@" ++ d.name ++ "(" ++ " ".intercalate (d.arguments.map fun (k, v) => k ++ "=" ++ v) ++ ")"

end Directive

end TypeEngine
