import Forwarding.Grammar.Text
/-!
The arguments of the merge attribute: the logical name of a group, and the priority of the
definition in it.
-/

namespace Forwarding

/-- A priority. Among the definitions of one name the greatest priority wins. -/
abbrev Priority := Int64

/-- What a merge attribute says. -/
structure Annotation where
  /-- The logical name, exactly as the string literal gives it. -/
  name : String
  priority : Priority
  deriving Repr, DecidableEq

namespace Annotation

open Grammar Grammar.Parser

/-- One argument of the attribute. -/
inductive Argument where
  /-- The value of a name, with the place of its literal. -/
  | name (value : String) (start : Position)
  | priority (value : Priority)
  deriving Repr, DecidableEq

/-- The priority that a literal gives, if it lies in the range of 64 bits. -/
def priorityOf (negative : Bool) (magnitude : Nat) : Except Complaint Priority :=
  if negative then
    if magnitude ≤ Nat.pow 2 63 then .ok (Int64.ofInt (-magnitude)) else .error .numberTooSmall
  else if magnitude < Nat.pow 2 63 then .ok (Int64.ofNat magnitude) else .error .numberTooLarge

/-- Reads one argument. A minus sign is applied to a value that has been read already. -/
def argument : Parser Argument := do
  let start ← place
  let name ← identifier
  if name == "name" then
    let _ ← operator "="
    let start ← place
    let (_, said) ← stringLiteral
    return .name said start
  else if name == "priority" then
    let _ ← operator "="
    let minus ← operator? "-"
    let start ← place
    let (negative, spelling) ← integerLiteral
    let magnitude := ((Literal.integer? spelling).map (·.1)).getD 0
    match priorityOf negative magnitude with
    | .ok value => return .priority (if minus.isSome then -value else value)
    | .error complaint => failAt start complaint
  else failAt start (.unknownArgument name)

/-- Collects arguments. A second name is reported at its literal, a second priority and a missing
name at the end. -/
def collect : Option (String × Position) → Option Priority → List Argument →
    Parser (Option (String × Position) × Option Priority)
  | name, priority, [] => return (name, priority)
  | name, priority, .name value start :: rest =>
    if name.isSome then failAt start .duplicateName else collect (some (value, start)) priority rest
  | name, priority, .priority value :: rest =>
    if priority.isSome then fail .duplicatePriority else collect name (some value) rest

/-- Reads the arguments of a merge attribute. The priority is zero when none is given. -/
def arguments : Parser Annotation := do
  let (arguments, _) ← punctuated "," atEnd argument
  match ← collect none none arguments with
  | (none, _) => fail .missingName
  | (some (name, start), priority) =>
    if isIdentifierText name then return ⟨name, priority.getD 0⟩
    else failAt start (.notATypeName name)

/-- Reads the arguments of a merge attribute from their text. -/
def ofText (text : String) : Except ParseError Annotation :=
  parseText (fun _ => arguments) text

/-- An attribute as it would be written with a list of arguments. -/
def shown (a : Attribute) : String :=
  let path := "::".intercalate a.names
  (if a.isInner then "#!" else "#") ++ "[" ++ (if a.isGlobal then "::" else "") ++ path ++ "(...)]"

/-- Reads the arguments of a merge attribute. -/
def ofAttribute (a : Attribute) : Except ParseError Annotation :=
  match a.body with
  | .nothing => .error ⟨a.pathStart, false, .argumentsMissing (shown a)⟩
  | .value sign _ => .error ⟨sign, false, .argumentsNotParenthesized (shown a)⟩
  | .list _ body stop => parseLexemes (fun _ => arguments) body stop

end Annotation

end Forwarding
