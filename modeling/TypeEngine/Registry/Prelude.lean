import TypeEngine.Registry.Declaration

/-!
# The prelude

The types that every module starts from: unit, characters and texts, truth values and orderings,
lists, the number types, and the traits of arithmetic, bit and comparison operators.
-/

namespace TypeEngine.Prelude

/-- An attribute that names a symbol in the intermediate representation. -/
def irName (name : String) : Attributes :=
  .ofList [.name (.ofList [("ir", name)])]

/-- A trait of binary operators on one type, all with a default. -/
def operators (name ir : String) (symbols : List String) : Declaration :=
  .trait name (irName ir) "a"
    (symbols.map fun symbol => ⟨symbol, true, [.parameter "a", .parameter "a", .parameter "a"]⟩)

/-- The declarations of the prelude, in order. -/
def declarations : List Declaration :=
  [.concrete "Unit",
    .concrete "Char",
    .concrete "String",
    .union "Bool" [⟨"True", []⟩, ⟨"False", []⟩],
    .union "Ordering" [⟨"Less", []⟩, ⟨"Equal", []⟩, ⟨"Greater", []⟩],
    .parametric "List" [.parameter "a"]]
  ++ Numeric.all.map (fun kind => .type kind.name (irName "num") [] (.numeric kind))
  ++ [operators "Num" "prelude::num" ["(+)", "(-)", "(*)", "(/)", "(%)", "(**)"],
    operators "Bitwise" "prelude::bit" ["(&)", "(|)", "(^)", "(>>)", "(<<)"],
    .trait "Comparable" ∅ "a"
      [⟨"compare", false, [.parameter "a", .parameter "a", .reference "Ordering"]⟩]]

/-- The prelude registry. -/
def registry : Built :=
  (Builder.new.declareAll declarations).2.build

end TypeEngine.Prelude
