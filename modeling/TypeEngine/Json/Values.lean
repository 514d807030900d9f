import TypeEngine.Attribute
import TypeEngine.Directive
import TypeEngine.Json.Basic
import TypeEngine.Location
import TypeEngine.Numeric
import TypeEngine.Ty.Basic

/-!
# JSON forms of the small values

Flags and kinds are written by name, a choice with content as an object whose only field is the
name of the choice, and a structure as an object with all its fields. Reading ignores fields that
it does not know, and accepts the members of a set in any order.
-/

namespace TypeEngine

/-! ## Numeric kinds, origins and scopes -/

namespace Numeric

/-- The JSON form of a kind. -/
def toJson (kind : Numeric) : Json :=
  .str kind.name

/-- Read a kind. -/
def ofJson? (json : Json) : Option Numeric := do
  ofName? (← json.str?)

end Numeric

namespace Origin

/-- The JSON form of an origin. -/
def toJson : Origin → Json
  | .written => .str "Public"
  | .synthesized => .str "Internal"

/-- Read an origin. -/
def ofJson? : Json → Option Origin
  | .str "Public" => some .written
  | .str "Internal" => some .synthesized
  | _ => none

end Origin

namespace Scope

/-- The JSON form of a scope. -/
def toJson : Scope → Json
  | .topLevel => .str "Module"
  | .trait name => .tagged "Trait" (.str name)

/-- Read a scope. -/
def ofJson? : Json → Option Scope
  | .str "Module" => some .topLevel
  | .obj [("Trait", .str name)] => some (.trait name)
  | _ => none

end Scope

/-! ## Attributes -/

/-- A table of texts as an object. -/
def Table.toJson (t : Table String) : Json :=
  .obj (t.entries.map fun (key, value) => (key, .str value))

/-- Read a table of texts. -/
def Table.ofJson? (json : Json) : Option (Table String) := do
  let fields ← json.obj?
  let pairs ← fields.mapM fun (key, value) => do return (key, ← value.str?)
  return .ofList pairs

namespace Attribute

/-- The JSON form of an attribute. -/
def toJson : Attribute → Json
  | .native => .str "Native"
  | .exported => .str "Public"
  | .internal => .str "Internal"
  | .impure => .str "Impure"
  | .constant => .str "Constant"
  | .traitMethod => .str "TraitMethod"
  | .name names => .tagged "Name" names.toJson

/-- Read an attribute. -/
def ofJson? : Json → Option Attribute
  | .str "Native" => some .native
  | .str "Public" => some .exported
  | .str "Internal" => some .internal
  | .str "Impure" => some .impure
  | .str "Constant" => some .constant
  | .str "TraitMethod" => some .traitMethod
  | .obj [("Name", content)] => do return .name (← Table.ofJson? content)
  | _ => none

end Attribute

namespace Attributes

/-- The JSON form of a set of attributes: its members in order. -/
def toJson (s : Attributes) : Json :=
  .arr (s.toList.map Attribute.toJson)

/-- Read a set of attributes. -/
def ofJson? (json : Json) : Option Attributes := do
  let members ← (← json.arr?).mapM Attribute.ofJson?
  return .ofList members

end Attributes

/-! ## Directives -/

namespace Directive

/-- A pair of texts as an array of two. -/
def pairToJson (pair : String × String) : Json :=
  .arr [.str pair.1, .str pair.2]

/-- Read a pair of texts. -/
def pairOfJson? : Json → Option (String × String)
  | .arr [.str first, .str second] => some (first, second)
  | _ => none

/-- The JSON form of a directive. -/
def toJson (d : Directive) : Json :=
  .obj [("name", .str d.name), ("arguments", .arr (d.arguments.map pairToJson))]

/-- Read a directive. -/
def ofJson? (json : Json) : Option Directive := do
  let name ← (← json.field? "name").str?
  let arguments ← (← (← json.field? "arguments").arr?).mapM pairOfJson?
  return ⟨name, arguments⟩

end Directive

/-! ## Locations -/

namespace Position

/-- The JSON form of a position. -/
def toJson (p : Position) : Json :=
  .obj [("line", .num p.line.toNat), ("column", .num p.column.toNat)]

/-- Read a position. -/
def ofJson? (json : Json) : Option Position := do
  let line ← (← json.field? "line").uint32?
  let column ← (← json.field? "column").uint32?
  return ⟨line, column⟩

end Position

namespace Location

/-- The JSON form of a location. -/
def toJson (l : Location) : Json :=
  .obj [("context", .str l.context), ("start", l.start.toJson), ("end", l.stop.toJson)]

/-- Read a location. -/
def ofJson? (json : Json) : Option Location := do
  let context ← (← json.field? "context").str?
  let start ← Position.ofJson? (← json.field? "start")
  let stop ← Position.ofJson? (← json.field? "end")
  return ⟨context, start, stop⟩

end Location

end TypeEngine
