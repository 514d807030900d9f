import TypeEngine.Location

/-!
# Line index

A `LineIndex` turns byte offsets of a text into positions and back. It keeps the offset at which
each line starts, the first one at zero and one more after every line feed, and the length of the
text. Offsets count bytes of the text's UTF-8 form and are 32 bits wide.

`position` accepts any offset, also one past the end: it counts columns from the last line start
at or before it. `offset` never leaves the text: line zero is the start, a line after the last
one is the end, and a column past the end is the end.
-/

namespace TypeEngine

/-- The line starts of a text and its length, in bytes. -/
structure LineIndex where
  lineStarts : List UInt32
  length : UInt32
deriving DecidableEq, Repr

namespace LineIndex

/-- The offsets just after each line feed, for a text that begins at `offset`. -/
def startsAfter (offset : Nat) : List Char → List Nat
  | [] => []
  | c :: cs =>
    if c = '\n' then
      (offset + c.utf8Size) :: startsAfter (offset + c.utf8Size) cs
    else
      startsAfter (offset + c.utf8Size) cs

/-- The index of a text. -/
def ofText (text : String) : LineIndex :=
  ⟨(0 :: startsAfter 0 text.toList).map Nat.toUInt32, text.utf8ByteSize.toUInt32⟩

/-- The number of lines; a text without line feeds has one. -/
def lineCount (index : LineIndex) : Nat :=
  index.lineStarts.length

/-- The position of a byte offset: the last line that starts at or before it. -/
def position (index : LineIndex) (offset : UInt32) : Position :=
  let before := index.lineStarts.takeWhile (· ≤ offset)
  ⟨(before.length - 1).toUInt32 + 1, offset - before.getLastD 0 + 1⟩

/-- The byte offset of a position, kept inside the text. -/
def offset (index : LineIndex) (position : Position) : UInt32 :=
  if position.line = 0 then
    0
  else
    match index.lineStarts[position.line.toNat - 1]? with
    | none => index.length
    | some start =>
      let column := if position.column = 0 then 0 else position.column - 1
      min (start + column) index.length

end LineIndex

end TypeEngine
