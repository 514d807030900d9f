import TypeEngine.Text.CodePoints

/-!
# White space

The Unicode property `White_Space`: the space characters, tab, the line separators and the next
line control. The zero-width characters are not among them.
-/

namespace TypeEngine.Text

/-- The code points with the property `White_Space`. -/
def blankCodePoints : CodePoints :=
  [⟨0x9, 0xd, 1⟩, ⟨0x20, 0x20, 1⟩, ⟨0x85, 0x85, 1⟩, ⟨0xa0, 0xa0, 1⟩, ⟨0x1680, 0x1680, 1⟩,
    ⟨0x2000, 0x200a, 1⟩, ⟨0x2028, 0x2029, 1⟩, ⟨0x202f, 0x202f, 1⟩, ⟨0x205f, 0x205f, 1⟩,
    ⟨0x3000, 0x3000, 1⟩]

/-- Whether a character is white space. -/
def isBlank (c : Char) : Bool :=
  blankCodePoints.contains c.toNat

end TypeEngine.Text
