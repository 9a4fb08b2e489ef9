import Forwarding.Source.Path
import Forwarding.Source.Position
/-!
Places in files.
-/

namespace Forwarding

/-- A place in a file. Line zero stands for the file as a whole. -/
structure Location where
  file : String
  line : Nat
  column : Nat
  deriving Repr, DecidableEq

namespace Location

/-- The file as a whole. -/
def ofFile (file : String) : Location :=
  ⟨file, 0, 0⟩

/-- A place of a text in a file. -/
def ofPosition (file : String) (position : Position) : Location :=
  ⟨file, position.line, position.column⟩

/-- The text of a location. -/
def render (l : Location) : String :=
  if l.line = 0 then l.file else l.file ++ ":" ++ toString l.line ++ ":" ++ toString l.column

/-- The order of locations: by path, then by line, then by column. -/
def compare (a b : Location) : Ordering :=
  match Path.compare a.file b.file with
  | .eq =>
    match Ord.compare a.line b.line with
    | .eq => Ord.compare a.column b.column
    | other => other
  | other => other

end Location

end Forwarding
