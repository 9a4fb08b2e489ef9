import Forwarding.Grammar.Expression
/-!
Statements.
-/

namespace Forwarding.Grammar

open Forwarding.Grammar.Parser

/-- A statement, and whether a semicolon has to follow it before another one. -/
structure Statement where
  tree : Tree
  needsSemicolon : Bool
  deriving Repr

/-- Whether a declaration begins here. -/
def beginsItem : Parser Bool := do
  let rest := (← get).rest
  let here (text : String) := sees rest (.word text)
  let second := sees (skipOne rest)
  let third := sees (skipOne (skipOne rest))
  return here "pub"
    || (here "crate" && !second (.operator "::"))
    || here "extern" || here "use"
    || (here "static" && (second (.word "mut") || (second .identifier
      && !(second (.word "async") && (third (.word "move") || third (.operator "|"))))))
    || (here "const" && !(second (.group .brace) || second (.word "static")
      || (second (.word "async")
        && !(third (.word "unsafe") || third (.word "extern") || third (.word "fn")))
      || second (.word "move") || second (.operator "|")))
    || (here "unsafe" && !second (.group .brace))
    || (here "async"
      && (second (.word "unsafe") || second (.word "extern") || second (.word "fn")))
    || here "fn" || here "mod" || here "type" || here "struct" || here "enum"
    || (here "union" && second .identifier)
    || (here "auto" && second (.word "trait"))
    || here "trait"
    || (here "default" && (second (.word "unsafe") || second (.word "impl")))
    || here "impl" || here "macro"

/-- How a statement that begins with a macro's path is read. -/
inductive MacroStatement where
  /-- A declaration by a macro. -/
  | item
  /-- An invocation with braces, which is a statement of its own. -/
  | braced
  /-- Anything else. -/
  | none
  deriving Repr, DecidableEq

/-- Looks past a path for the exclamation mark of a macro. -/
def macroStatement : Parser MacroStatement := do
  let found ← lookingAhead do
    let _ ← plainPath
    if !(← seesOperator "!") then return MacroStatement.none
    if (← peek2 .identifier) || (← peek2 (.word "try")) then return .item
    let goesOn := ((← peek3 (.operator ".")) && !(← peek3 (.operator "..")))
      || (← peek3 (.operator "?"))
    if (← peek2 (.group .brace)) && !goesOn then return .braced
    return .none
  return found.getD .none

/-- A local variable after the attributes. -/
def localStatement (g : Grammar) : Parser (List Tree) := do
  let sign ← word "let"
  let bound ← g.pattern
  let typed ←
    if ← seesOperator ":" then
      let colon ← operator ":"
      pure [colon, ← g.type]
    else pure []
  let init ←
    if ← seesOperator "=" then
      let equals ← operator "="
      let value ← g.expression
      let otherwise ←
        if !value.endsWithBrace && (← seesWord "else") then
          let sign ← word "else"
          pure [sign, ← groupedTree .brace g.statements]
        else pure []
      pure (equals :: value :: otherwise)
    else pure []
  return sign :: bound.tree :: (typed ++ init ++ [← operator ";"])

/-- A statement. -/
def statement (g : Grammar) : Parser Statement := do
  let start ← get
  let attributes := Attribute.outer (← outerAttributes g)
  match ← macroStatement with
  | .braced =>
    let name ← plainPath
    let (_, tree) ← invocation name.tree
    let semicolon ← operator? ";"
    return ⟨.seq (attributes ++ tree :: semicolon.toList), false⟩
  | kind =>
    if ← seesWord "let" then return ⟨.seq (attributes ++ (← localStatement g)), false⟩
    else if kind == .item || (← beginsItem) then
      set start
      return ⟨(← g.item).tree, false⟩
    else
      let value ← g.standalone
      let semicolon ← operator? ";"
      let needed := value.form != .block && value.form != .bracedMacro
      let whole := if attributes.isEmpty then value.tree else attributed attributes value.tree
      return ⟨.seq (whole :: semicolon.toList), needed && semicolon.isNone⟩

/-- The statements of a block, at most so many. -/
def statementsUpTo (g : Grammar) : Nat → Parser (List Tree)
  | 0 => return []
  | count + 1 => do
    let empties ← repeated (operator? ";")
    if ← atEnd then return empties
    let first ← statement g
    if ← atEnd then return empties ++ [first.tree]
    if first.needsSemicolon then fail .missingSemicolon
    return empties ++ first.tree :: (← statementsUpTo g count)

/-- The statements of a block. -/
def statementsOf (g : Grammar) : Parser (List Tree) := do
  statementsUpTo g ((← get).rest.length + 1)

end Forwarding.Grammar
