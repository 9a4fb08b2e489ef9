import Forwarding.Config
import Forwarding.Json
/-!
Configurations given as JSON. A configuration is a record in which every field may be missing, or
the list of the first of its fields; a source root has both of its fields. Fields of other names do
not count.
-/

namespace Forwarding

namespace Json

/-- The text that a value is. -/
def text? : Json → Option String
  | text value => some value
  | _ => none

/-- The value of a field; of several fields of one name the last one counts. -/
def field? (name : String) (fields : List (String × Json)) : Option Json :=
  fields.reverse.lookup name

end Json

/-- A source root from JSON. -/
def SourceRoot.ofJson? : Json → Option SourceRoot
  | .record fields => do
    return ⟨← (← Json.field? "path" fields).text?, ← (← Json.field? "module" fields).text?⟩
  | .list [path, module] => do return ⟨← path.text?, ← module.text?⟩
  | _ => none

namespace Config

/-- Source roots from JSON. -/
def rootsOfJson? : Json → Option (List SourceRoot)
  | .list elements => elements.mapM SourceRoot.ofJson?
  | _ => none

/-- A part of a configuration: its standard value when it is missing. -/
def part? {α : Type} (decode : Json → Option α) (standard : α) : Option Json → Option α
  | none => some standard
  | some value => decode value

/-- A configuration from its parts. -/
def ofParts? (roots outDir mark constructor indexFile : Option Json) : Option Config := do
  let standard : Config := {}
  return {
    roots := ← part? rootsOfJson? standard.roots roots
    outDir := ← part? Json.text? standard.outDir outDir
    conventions := {
      mark := ← part? Json.text? standard.conventions.mark mark
      constructor := ← part? Json.text? standard.conventions.constructor constructor }
    indexFile := ← part? Json.text? standard.indexFile indexFile }

/-- A configuration from JSON. -/
def ofJson? : Json → Option Config
  | .record fields =>
    let field := (Json.field? · fields)
    ofParts? (field "roots") (field "out_dir") (field "attribute") (field "constructor")
      (field "index_file")
  | .list parts =>
    if parts.length ≤ 5 then ofParts? parts[0]? parts[1]? parts[2]? parts[3]? parts[4]? else none
  | _ => none

end Config

end Forwarding
