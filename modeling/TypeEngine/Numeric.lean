/-!
# Numeric kinds

The built-in number types: five integer widths and three widths of fractions. A wider kind holds
every value of a narrower kind of its own category, and never one of the other category.
-/

namespace TypeEngine

/-- A built-in number type. -/
inductive Numeric where
  | byte
  | short
  | int
  | long
  | bigInt
  | float
  | double
  | bigDecimal
deriving DecidableEq, Repr, Inhabited

namespace Numeric

/-- Every kind: integers by width, then fractions by width. -/
def all : List Numeric :=
  [.byte, .short, .int, .long, .bigInt, .float, .double, .bigDecimal]

/-- The kind's name, under which the prelude registers it. -/
def name : Numeric → String
  | .byte => "Byte"
  | .short => "Short"
  | .int => "Int"
  | .long => "Long"
  | .bigInt => "BigInt"
  | .float => "Float"
  | .double => "Double"
  | .bigDecimal => "BigDecimal"

/-- Width in bits. -/
def size : Numeric → Nat
  | .byte => 8
  | .short => 16
  | .int => 32
  | .long => 64
  | .bigInt => 128
  | .float => 32
  | .double => 64
  | .bigDecimal => 128

/-- Whether the kind holds whole numbers only. -/
def isInteger : Numeric → Bool
  | .byte | .short | .int | .long | .bigInt => true
  | .float | .double | .bigDecimal => false

/-- The kind called `text`, if there is one. -/
def ofName? (text : String) : Option Numeric :=
  all.find? fun kind => kind.name == text

/-- `a` holds every value of `b`: they are of one category and `b` is not wider. -/
def canRepresent (a b : Numeric) : Bool :=
  a.isInteger == b.isInteger && b.size ≤ a.size

/-- The text of a kind inside a type. -/
def display (kind : Numeric) : String :=
  "numeric<" ++ kind.name ++ ">"

end Numeric

end TypeEngine
