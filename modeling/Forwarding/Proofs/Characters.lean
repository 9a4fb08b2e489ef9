import Forwarding.Plan
/-!
Texts that are known by their characters. A literal stands for the text of its characters, and the
two are compared without building any bytes. What is read of such a text can therefore be computed
from the characters, where the text itself would first have to be decoded.
-/

namespace Forwarding

/-- A text that is put together from literals has some characters. -/
inductive HasChars : String → List Char → Prop
  | literal {chars : List Char} : HasChars (String.ofList chars) chars
  | append {a b : String} {first second : List Char} :
      HasChars a first → HasChars b second → HasChars (a ++ b) (first ++ second)

variable {chars : List Char}

theorem HasChars.toList_eq {text : String} (given : HasChars text chars) : text.toList = chars := by
  induction given with
  | literal => exact String.toList_ofList
  | append _ _ ih ih' => rw [String.toList_append, ih, ih']

theorem Grammar.parseText_of_hasChars {α : Type} {p : Grammar → Parser α} (text : String)
    (given : HasChars text chars) : parseText p text = parseChars p chars := by
  rw [parseText, given.toList_eq]

theorem Grammar.parseFile_of_hasChars (text : String) (given : HasChars text chars) :
    parseFile text = parseChars file (withoutPreamble chars) := by
  rw [parseFile, given.toList_eq]

namespace Scan

variable {c : Conventions}

/-- What is found in a unit whose text has been read. -/
def findingsOfRead (c : Conventions) (unit : SourceUnit) :
    Except Grammar.ParseError (List Item) → List Finding
  | .error error => [.error (.scan (unit.location error.place) (.malformed error))]
  | .ok items => findingsOfItems c unit unit.modulePath (blocksOf items) items

theorem findings_eq (c : Conventions) (unit : SourceUnit) :
    findings c unit = findingsOfRead c unit (Grammar.parseFile unit.text) := by
  -- not by its equation: the proof of that would try to read a text that is not known
  delta findings
  cases Grammar.parseFile unit.text <;> rfl

theorem findings_of_hasChars (unit : SourceUnit) (given : HasChars unit.text chars) :
    findings c unit =
      findingsOfRead c unit (Grammar.parseChars Grammar.file (Grammar.withoutPreamble chars)) := by
  rw [findings_eq, Grammar.parseFile_of_hasChars unit.text given]

theorem scan_of_hasChars (unit : SourceUnit) (given : HasChars unit.text chars) :
    scan c unit =
      (findingsOfRead c unit
        (Grammar.parseChars Grammar.file (Grammar.withoutPreamble chars))).mapM id :=
  congrArg (List.mapM id) (findings_of_hasChars unit given)

theorem collect_singleton (unit : SourceUnit) : collect c [unit] = scan c unit := by
  rw [collect, List.mapM_cons, List.mapM_nil]
  cases scan c unit with
  | error failure => rfl
  | ok definitions => exact congrArg Except.ok (List.append_nil definitions)

end Scan

theorem Plan.ofUnits_of_hasChars {c : Conventions} (unit : SourceUnit)
    (given : HasChars unit.text chars) :
    ofUnits c [unit] = (do
      let resolutions ← resolve (← (Scan.findingsOfRead c unit
        (Grammar.parseChars Grammar.file (Grammar.withoutPreamble chars))).mapM id)
      let artifacts ← Artifact.ofResolutions resolutions
      return ⟨1, resolutions, artifacts⟩) := by
  rw [ofUnits, Scan.collect_singleton, Scan.scan_of_hasChars unit given]
  rfl

end Forwarding
