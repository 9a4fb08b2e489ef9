/-!
Places in a text.
-/

namespace Forwarding

/-- A line and a column, both counted from one; columns count characters. -/
structure Position where
  line : Nat
  column : Nat
  deriving Repr, DecidableEq

namespace Position

/-- The place of the first character. -/
def first : Position := ⟨1, 1⟩

/-- The place after one character: only a line feed begins a new line. -/
def step (position : Position) (c : Char) : Position :=
  if c == '\n' then ⟨position.line + 1, 1⟩ else ⟨position.line, position.column + 1⟩

/-- The place after some text. -/
def advance (position : Position) (text : List Char) : Position :=
  text.foldl step position

end Position

end Forwarding
