/-!
# JSON values

The values of JSON documents whose numbers are integers. Objects keep their fields in order; of
two fields with one key the first counts.
-/

namespace TypeEngine

/-- A JSON value with integer numbers. -/
inductive Json where
  | null
  | bool (value : Bool)
  | num (value : Int)
  | str (value : String)
  | arr (values : List Json)
  | obj (fields : List (String × Json))

namespace Json

instance : Inhabited Json := ⟨.null⟩

/-- The field of an object. Of several fields with this key the first one counts. A strict reader
refuses such an object; no statement here is about one. -/
def field? (key : String) : Json → Option Json
  | .obj fields => fields.lookup key
  | _ => none

/-- The tag and the content of an object with one field. -/
def tagged? : Json → Option (String × Json)
  | .obj [(tag, content)] => some (tag, content)
  | _ => none

/-- An object with one field. -/
def tagged (tag : String) (content : Json) : Json :=
  .obj [(tag, content)]

/-- The text of a string value. -/
def str? : Json → Option String
  | .str value => some value
  | _ => none

/-- The value of a boolean. -/
def bool? : Json → Option Bool
  | .bool value => some value
  | _ => none

/-- The elements of an array. -/
def arr? : Json → Option (List Json)
  | .arr values => some values
  | _ => none

/-- The fields of an object. -/
def obj? : Json → Option (List (String × Json))
  | .obj fields => some fields
  | _ => none

/-- A number that fits in 32 bits without sign. -/
def uint32? : Json → Option UInt32
  | .num value => if 0 ≤ value ∧ value < 4294967296 then some value.toNat.toUInt32 else none
  | _ => none

/-! ## Size -/

mutual

/-- The number of nodes of a value. -/
def size : Json → Nat
  | .arr values => sizeAll values + 1
  | .obj fields => sizeFields fields + 1
  | .null | .bool _ | .num _ | .str _ => 1

def sizeAll : List Json → Nat
  | [] => 0
  | v :: vs => v.size + sizeAll vs

def sizeFields : List (String × Json) → Nat
  | [] => 0
  | (_, v) :: fields => v.size + sizeFields fields

end

end Json

end TypeEngine
