/-!
# Replacing a text inside a text

`replaceAll pattern value s` puts `value` in the place of every occurrence of `pattern` in `s`.
Occurrences are found from left to right and do not overlap, and what was put in is not searched
again. A pattern without characters occurs nowhere.
-/

namespace TypeEngine.Text

/-- Replace on character lists; `skip` characters still belong to the last occurrence. -/
def replaceFrom (pattern value : List Char) : (skip : Nat) → List Char → List Char
  | _, [] => []
  | skip + 1, _ :: cs => replaceFrom pattern value skip cs
  | 0, c :: cs =>
    if !pattern.isEmpty && pattern.isPrefixOf (c :: cs) then
      value ++ replaceFrom pattern value (pattern.length - 1) cs
    else
      c :: replaceFrom pattern value 0 cs

/-- Put `value` in the place of every occurrence of `pattern`. -/
def replaceAll (pattern value s : String) : String :=
  String.ofList (replaceFrom pattern.toList value.toList 0 s.toList)

end TypeEngine.Text
