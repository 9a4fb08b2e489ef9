import Forwarding.Grammar.Expectation
/-!
Why a text does not parse: a place, a complaint, and whether the text ended there.
-/

namespace Forwarding.Grammar

/-- Modes of a constant bound that only some places admit. -/
inductive Constness where
  | always
  | maybe
  deriving Repr, DecidableEq

/-- What is wrong at a place. -/
inductive Complaint where
  /-- None of some alternatives stands here. -/
  | expected (alternatives : List Expectation)
  /-- A keyword stands where an identifier has to. -/
  | keyword (word : String)
  /-- Something is left over, inside a group or at the end of the text. -/
  | leftover (inside : Option Delimiter)
  /-- The text does not lex. -/
  | unlexed
  | objectWithoutTrait
  | implWithoutTrait
  | captureNotAllowed
  | constNotAllowed (constness : Constness)
  | binderBeforeMaybe
  | chainedComparison
  | castFollowedBy (what : String)
  | labelWithoutParentheses
  | missingSemicolon
  | lateReceiver
  | secondReceiver
  | attributeInAttribute
  | attributesOnRange
  | openRangeInSlice
  | numberTooLarge
  | numberTooSmall
  | duplicateName
  | duplicatePriority
  | missingName
  | notATypeName (text : String)
  | unknownArgument (name : String)
  /-- An attribute, shown as it stands, has no list of arguments. -/
  | argumentsMissing (shown : String)
  /-- An attribute, shown as it stands, has a value and no list of arguments. -/
  | argumentsNotParenthesized (shown : String)
  /-- The nesting exceeds the bound that the size of the text sets. -/
  | nesting
  deriving Repr, DecidableEq

namespace Complaint

/-- The alternatives as a phrase. -/
def choice : List Expectation → String
  | [] => "unexpected token"
  | [a] => "expected " ++ a.label
  | [a, b] => "expected " ++ a.label ++ " or " ++ b.label
  | alternatives => "expected one of: " ++ ", ".intercalate (alternatives.map Expectation.label)

/-- The wording of a complaint. -/
def message : Complaint → String
  | expected alternatives => choice alternatives
  | keyword word => "expected identifier, found keyword `" ++ word ++ "`"
  | leftover none => "unexpected token"
  | leftover (some delimiter) =>
    "unexpected token, expected `" ++ String.singleton delimiter.closing ++ "`"
  | unlexed => "cannot parse string into token stream"
  | objectWithoutTrait => "at least one trait is required for an object type"
  | implWithoutTrait => "at least one trait must be specified"
  | captureNotAllowed => "`use<...>` precise capturing syntax is not allowed here"
  | constNotAllowed .always => "`const` is not allowed here"
  | constNotAllowed .maybe => "`~const` is not allowed here"
  | binderBeforeMaybe => "`for<...>` binder not allowed with `?` trait polarity modifier"
  | chainedComparison => "comparison operators cannot be chained"
  | castFollowedBy what => "casts cannot be followed by " ++ what
  | labelWithoutParentheses => "parentheses required"
  | missingSemicolon => "unexpected token, expected `;`"
  | lateReceiver => "unexpected method receiver"
  | secondReceiver => "unexpected second method receiver"
  | attributeInAttribute => "unexpected attribute inside of attribute"
  | attributesOnRange =>
    "attributes are not allowed on range expressions starting with `..`"
  | openRangeInSlice => "range pattern is not allowed unparenthesized inside slice pattern"
  | numberTooLarge => "number too large to fit in target type"
  | numberTooSmall => "number too small to fit in target type"
  | duplicateName => "duplicate `name` argument"
  | duplicatePriority => "duplicate `priority` argument"
  | missingName => "missing `name = \"...\"` argument"
  | notATypeName text => "`" ++ text ++ "` is not a valid type name"
  | unknownArgument name => "unknown argument: " ++ name
  | argumentsMissing shown =>
    "expected attribute arguments in parentheses: " ++ shown
  | argumentsNotParenthesized shown => "expected parentheses: " ++ shown
  | nesting => "nesting too deep"

end Complaint

/-- A complaint at a place. -/
structure ParseError where
  place : Position
  /-- Whether the text, or the group that is being read, ends at this place. -/
  atEnd : Bool
  complaint : Complaint
  deriving Repr, DecidableEq

/-- The text of an error. -/
def ParseError.message (error : ParseError) : String :=
  match error.atEnd, error.complaint with
  | true, .expected [] => "unexpected end of input"
  | true, complaint => "unexpected end of input, " ++ complaint.message
  | false, complaint => complaint.message

end Forwarding.Grammar
