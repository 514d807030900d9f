import TypeEngine.Error
import TypeEngine.LineIndex

/-!
# Diagnostics

What a report on an error shows over a source text: a header, the place it points at, the part of
the line it underlines, a label there, and a hint.

The span of an error is its location in byte offsets, or the whole text if it has none. It is
clamped to the text and covers at least one unit where the text allows. The display then counts
these numbers in characters, and breaks lines at every Unicode line terminator. A span that starts
or ends beyond the last character cannot be placed: such a report is its header alone, and one
that ends just beyond has no label.

The display itself is not part of this library. That it breaks lines at these characters, that it
draws a frame only where it can place the span, and where in the frame it places the label, are
assumptions about it (`isLineEnd`, `lineLengthsFrom`, `Diagnostic.ofError`). What is proved about
reports rests on them.
-/

namespace TypeEngine

/-! ## Lines of a source text -/

/-- Whether a character ends a line. -/
def isLineEnd (c : Char) : Bool :=
  c == '\n' || c == '\r' || c == '\x0b' || c == '\x0c' || c == '\u0085' || c == '\u2028'
    || c == '\u2029'

/-- The lengths of the lines with their terminators, when `pending` characters of the first one
came before. -/
def lineLengthsFrom (pending : Nat) : List Char → List Nat
  | [] => if pending = 0 then [] else [pending]
  | '\r' :: '\n' :: cs => (pending + 2) :: lineLengthsFrom 0 cs
  | c :: cs =>
    if isLineEnd c then (pending + 1) :: lineLengthsFrom 0 cs else lineLengthsFrom (pending + 1) cs

/-- The lengths of the lines of a text; an empty text has one empty line. -/
def lineLengths (text : String) : List Nat :=
  match lineLengthsFrom 0 text.toList with
  | [] => [0]
  | lengths => lengths

/-- The line and the column of a character offset, counted from the line `line`. What lies after
the last line belongs to it. -/
def locate (line : Nat) : List Nat → Nat → Nat × Nat
  | [], offset => (line, offset + 1)
  | [_], offset => (line, offset + 1)
  | length :: rest, offset =>
    if offset < length then (line, offset + 1) else locate (line + 1) rest (offset - length)

/-! ## Spans -/

/-- A range of offsets, the end not included. -/
structure Span where
  start : Nat
  stop : Nat
deriving DecidableEq, Repr

/-- The byte offsets of a location in a text; the whole text if no location is provided. -/
def Span.ofLocation (location : Option Location) (source : String) : Span :=
  match location with
  | some l =>
    if l.isProvided then
      let index := LineIndex.ofText source
      ⟨(index.offset l.start).toNat, (index.offset l.stop).toNat⟩
    else
      ⟨0, source.utf8ByteSize⟩
  | none => ⟨0, source.utf8ByteSize⟩

/-- Move a span inside a text of the given length, and make an empty one cover one unit. -/
def Span.clamp (length : Nat) (span : Span) : Span :=
  let start := min span.start length
  let stop := max (min span.stop length) start
  if start = stop then ⟨start, min (stop + 1) length⟩ else ⟨start, stop⟩

/-! ## Texts -/

namespace TypeError

/-- What the report says at the underlined place. -/
def label (e : TypeError) : String :=
  match e.code with
  | .incompatibleTypes =>
    "expected " ++ (e.argument? "type1").getD "?" ++ ", found " ++ (e.argument? "type2").getD "?"
  | .typeNotFound => "unknown type"
  | .substitutionNotFound => "unbound type parameter"
  | .cyclicAlias => "alias refers back to itself"
  | _ => e.message

/-- A hint on how to mend the error. -/
def help? (e : TypeError) : Option String :=
  match e.code with
  | .typeNotFound =>
    some ("register '" ++ (e.argument? "type").getD ""
      ++ "' or import the module that declares it")
  | .parameterCount => some ("apply exactly " ++ (e.argument? "number").getD "?" ++ " parameters")
  | .cyclicAlias => some "make one of the types in the chain concrete"
  | .alreadyRegistered =>
    some ("'" ++ (e.argument? "type").getD ""
      ++ "' is already declared here or in a parent registry; pick another name")
  | .typeNameCase => some "capitalize the first letter of the type name"
  | .parameterNameCase => some "type parameters start with a lowercase letter"
  | _ => none

/-- The first line of the report. -/
def header (e : TypeError) : String :=
  "[" ++ e.code.name ++ "] Error: " ++ e.message

end TypeError

/-- The text before the first line feed. -/
def firstLine (text : String) : String :=
  String.ofList (text.toList.takeWhile (· != '\n'))

/-! ## Reports -/

/-- What a report shows. The place is a line and a column, the underline a column and a width. -/
structure Diagnostic where
  header : String
  place : Option (Nat × Nat)
  underline : Option (Nat × Nat)
  label : Option String
  help : Option String
deriving DecidableEq, Repr

namespace Diagnostic

/-- The line and column of a place as text. -/
def placeText (d : Diagnostic) : Option String :=
  d.place.map fun (line, column) => Nat.repr line ++ ":" ++ Nat.repr column

/-- The report on an error over a source text. -/
def ofError (e : TypeError) (source : String) : Diagnostic :=
  let span := (Span.ofLocation e.location source).clamp source.utf8ByteSize
  let length := source.length
  if length < span.start || (span.start < span.stop && length < span.stop - 1) then
    ⟨e.header, none, none, none, none⟩
  else
    let lines := lineLengths source
    let first := locate 1 lines span.start
    let last := locate 1 lines (span.stop - 1)
    let label := if length < span.stop then none else some e.label
    let underline :=
      if label.isSome && span.start < span.stop && first.1 = last.1 then
        some (first.2, span.stop - span.start)
      else
        none
    ⟨e.header, some first, underline, label, e.help?.map firstLine⟩

/-- The reports on all errors, in order. -/
def ofErrors (errors : List TypeError) (source : String) : List Diagnostic :=
  errors.map (ofError · source)

end Diagnostic

end TypeEngine
