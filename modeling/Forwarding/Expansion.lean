import Forwarding.Scan.Finding
import Forwarding.Text.Quoted
/-!
Expansion of the merge attribute where it stands. The declaration is kept as it is when the
attribute could be scanned there; otherwise it is replaced by an invocation that stops the build
with the message of the scan.
-/

namespace Forwarding

namespace Expansion

/-- One of the two texts of an expansion. -/
inductive Part where
  | arguments
  | declaration
  deriving Repr, DecidableEq

/-- Why a declaration is replaced. -/
inductive Refusal where
  | unparsed (error : Grammar.ParseError)
  | unfit (defect : Defect)
  deriving Repr, DecidableEq

/-- The text of a refusal. -/
def Refusal.message : Refusal → String
  | unparsed error => error.message
  | unfit defect => defect.message

/-- How a declaration is called that is no struct. -/
def phrase : Item → String
  | .struct _ => "a struct"
  | .implementation _ => "an impl block"
  | .module .. => "a module"
  | .other kind _ _ => kind.phrase?.getD "an unsupported item"

/-- Why a declaration cannot carry the attribute. -/
def defect? (mark : String) : Item → Option Defect
  | .struct struct =>
    if !struct.visibility.isExported then some (.privateType struct.name)
    else if struct.fields.isPositional then some (.tupleStruct struct.name)
    else none
  | item => some (.notAStruct mark (phrase item))

/-- Parses the lexemes of a text. -/
def parse {α : Type} (p : Grammar → Grammar.Parser α) (lexemes : List Lexeme) :
    Except Refusal α :=
  match Grammar.parseLexemes p lexemes Position.first with
  | .ok value => .ok value
  | .error error => .error (.unparsed error)

/-- The declaration as it is kept. The arguments are read before it. -/
def kept (mark : String) (arguments declaration : List Lexeme) : Except Refusal Tree := do
  let _ ← parse (fun _ => Annotation.arguments) arguments
  let item ← parse Grammar.item declaration
  match defect? mark item with
  | some defect => throw (.unfit defect)
  | none => return item.tree

/-- An invocation that stops the build with a message. -/
def stop (message : String) : Tree :=
  .seq [.operator "::", .word "core", .operator "::", .word "compile_error", .operator "!",
    .group .brace [.token (.literal (Text.quoteLiteral message))]]

/-- What a declaration with the attribute becomes. The first text that does not lex is named. -/
def expand (arguments declaration : String) : Except Part Tree :=
  match Lexer.lex arguments.toList, Lexer.lex declaration.toList with
  | .error _, _ => .error .arguments
  | _, .error _ => .error .declaration
  | .ok arguments, .ok declaration =>
    match kept ({} : Conventions).mark arguments declaration with
    | .ok tree => .ok tree
    | .error refusal => .ok (stop refusal.message)

end Expansion

end Forwarding
