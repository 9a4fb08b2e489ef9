import Forwarding.Definition
/-!
Why a generation pass fails. Every failure ends the whole pass.
-/

namespace Forwarding

/-- Why the file system refuses an operation. -/
inductive FileError where
  | notFound
  | alreadyExists
  | notADirectory
  | isADirectory
  | notEmpty
  /-- Any other refusal, by its number and what it says. -/
  | other (code : Nat) (text : String)
  deriving Repr, DecidableEq

namespace FileError

/-- The number of an error. -/
def code : FileError → Nat
  | notFound => 2
  | alreadyExists => 17
  | notADirectory => 20
  | isADirectory => 21
  | notEmpty => 39
  | other code _ => code

/-- What an error says. -/
def text : FileError → String
  | notFound => "No such file or directory"
  | alreadyExists => "File exists"
  | notADirectory => "Not a directory"
  | isADirectory => "Is a directory"
  | notEmpty => "Directory not empty"
  | other _ text => text

/-- The text of an error with its number. -/
def message (e : FileError) : String :=
  e.text ++ " (os error " ++ toString e.code ++ ")"

end FileError

/-- Why a source cannot be read. -/
inductive Unreadable where
  | missingRoot
  | invalidEncoding
  | refused (error : FileError)
  deriving Repr, DecidableEq

/-- The text of the cause. -/
def Unreadable.message : Unreadable → String
  | missingRoot => "source root does not exist"
  | invalidEncoding => "stream did not contain valid UTF-8"
  | refused error => error.message

/-- Why a declaration that carries the merge attribute cannot be forwarded to. -/
inductive Defect where
  | unreadable (cause : Unreadable)
  | malformed (error : Grammar.ParseError)
  | invalidAttribute (mark : String) (error : Grammar.ParseError)
  | repeatedAttribute (mark type : String)
  | notAStruct (mark item : String)
  | privateType (type : String)
  | tupleStruct (type : String)
  | missingConstructor (type constructor : String)
  | ambiguousConstructor (type constructor : String)
  | constructorReceiver (type constructor : String)
  | asyncConstructor (type constructor : String)
  | genericConstructor (type constructor : String)
  | constructorReturn (type constructor : String)
  | implNotGeneric (type constructor : String)
  | patternParameter (type constructor : String) (index : Nat)
  | selfParameter (type constructor : String) (index : Nat)
  | reservedProperty (type property : String)
  | nameCollision (name : String)
  deriving Repr, DecidableEq

namespace Defect

/-- A constructor with its type, as messages name it. -/
def qualified (type constructor : String) : String :=
  "`" ++ type ++ "::" ++ constructor ++ "`"

/-- An attribute, as messages name it. -/
def attributeText (mark : String) : String :=
  "`#[" ++ mark ++ "]`"

/-- The text of a defect. -/
def message : Defect → String
  | unreadable cause => "cannot read source: " ++ cause.message
  | malformed error => "cannot parse source: " ++ error.message
  | invalidAttribute mark error =>
    "invalid " ++ attributeText mark ++ " arguments: " ++ error.message
  | repeatedAttribute mark type =>
    attributeText mark ++ " appears more than once on `" ++ type ++ "`"
  | notAStruct mark item =>
    attributeText mark ++ " can only be applied to structs, found " ++ item
  | privateType type =>
    "`" ++ type ++ "` must be declared `pub` or `pub(crate)` to be forwarded to"
  | tupleStruct type =>
    "`" ++ type ++ "` is a tuple struct; positional fields cannot be forwarded as properties"
  | missingConstructor type constructor =>
    "`" ++ type ++ "` has no non-private `" ++ constructor
      ++ "` constructor in an inherent impl of the same module"
  | ambiguousConstructor type constructor =>
    qualified type constructor ++ " is declared in more than one impl block"
  | constructorReceiver type constructor =>
    qualified type constructor ++ " takes `self` and cannot construct the type"
  | asyncConstructor type constructor => qualified type constructor ++ " is async"
  | genericConstructor type constructor =>
    qualified type constructor ++ " declares its own generic parameters"
  | constructorReturn type constructor => qualified type constructor ++ " must return `Self`"
  | implNotGeneric type constructor =>
    "the impl declaring " ++ qualified type constructor
      ++ " does not cover every instantiation of `" ++ type ++ "`"
  | patternParameter type constructor index =>
    "parameter " ++ toString index ++ " of " ++ qualified type constructor
      ++ " must bind a plain identifier"
  | selfParameter type constructor index =>
    "parameter " ++ toString index ++ " of " ++ qualified type constructor ++ " mentions `Self`"
  | reservedProperty type property =>
    "property `" ++ property ++ "` of `" ++ type ++ "` collides with a generated accessor"
  | nameCollision name =>
    "`" ++ name
      ++ "` names both this crate-root struct and the forwarding type generated next to it"

end Defect

/-- The first way in which a definition does not fit the winner of its group. -/
inductive Mismatch where
  | parameterCount (expected found : Nat)
  | parameter (index : Nat) (expected found : String)
  | genericCount (expected found : Nat)
  | genericParameter (index : Nat) (expected found : String)
  deriving Repr, DecidableEq

/-- The text of a mismatch. -/
def Mismatch.message : Mismatch → String
  | parameterCount expected found =>
    "constructor takes " ++ toString found ++ " parameter(s) but the winning definition takes "
      ++ toString expected
  | parameter index expected found =>
    "parameter " ++ toString index ++ ": `" ++ found ++ "` is not assignable to `" ++ expected
      ++ "`"
  | genericCount expected found =>
    "declares " ++ toString found
      ++ " generic parameter(s) but the winning definition declares " ++ toString expected
  | genericParameter index expected found =>
    "generic parameter " ++ toString index ++ ": `" ++ found ++ "` is not compatible with `"
      ++ expected ++ "`"

/-- Why output cannot be emitted. -/
inductive EmissionCause where
  | noOutputDirectory
  /-- A recorded text does not parse in its place. -/
  | unrenderable (fragment : String) (error : Grammar.ParseError)
  | file (error : FileError)
  deriving Repr, DecidableEq

/-- The text of a cause. -/
def EmissionCause.message : EmissionCause → String
  | noOutputDirectory => "no output directory configured"
  | unrenderable fragment error =>
    "cannot render `" ++ fragment ++ "`: " ++ error.message
  | file error => error.message

/-- The failure of a pass. -/
inductive Failure where
  | scan (location : Location) (defect : Defect)
  | duplicatePriority (name : String) (priority : Priority) (first second : Location)
  | signatureMismatch (name : String) (winner offending : Location) (mismatch : Mismatch)
  | emission (group : Option String) (path : String) (cause : EmissionCause)
  deriving Repr, DecidableEq

namespace Failure

/-- The kind of a failure, as reported to a build. -/
def kind : Failure → String
  | scan .. => "scan"
  | duplicatePriority .. => "duplicate-priority"
  | signatureMismatch .. => "signature-mismatch"
  | emission .. => "emission"

/-- The group that a failure concerns, if the failing stage knows it. -/
def group : Failure → Option String
  | scan .. => none
  | duplicatePriority name .. => some name
  | signatureMismatch name .. => some name
  | emission group .. => group

/-- The places of the declarations that a failure concerns. -/
def locations : Failure → List Location
  | scan location _ => [location]
  | duplicatePriority _ _ first second => [first, second]
  | signatureMismatch _ winner offending _ => [winner, offending]
  | emission .. => []

/-- The text of a failure. -/
def message : Failure → String
  | scan location defect => "scan error at " ++ location.render ++ ": " ++ defect.message
  | duplicatePriority name priority first second =>
    "duplicate priority " ++ toString priority.toInt ++ " in group `" ++ name ++ "`: "
      ++ first.render ++ " and " ++ second.render
  | signatureMismatch name winner offending mismatch =>
    "signature mismatch in group `" ++ name ++ "`: " ++ mismatch.message ++ " (winner at "
      ++ winner.render ++ ", offending definition at " ++ offending.render ++ ")"
  | emission _ path cause => "failed to emit " ++ path ++ ": " ++ cause.message

end Failure

end Forwarding
