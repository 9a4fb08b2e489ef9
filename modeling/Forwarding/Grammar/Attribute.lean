import Forwarding.Grammar.Nonterminal
/-!
Attributes, and paths without arguments.
-/

namespace Forwarding.Grammar

open Forwarding.Grammar.Parser

/-- A path whose segments have no arguments: whether it is global, its names, and the place of the
first one. -/
structure PlainPath where
  isGlobal : Bool
  names : List String
  start : Position
  deriving Repr

/-- The tree of a plain path. -/
def PlainPath.tree (p : PlainPath) : Tree :=
  .path p.isGlobal (p.names.map fun name => .segment name [])

/-- The words that may stand in a plain path although they name nothing. -/
def pathWords : List Expectation :=
  [.word "super", .word "self", .word "Self", .word "crate"]

/-- The names of a plain path, at most so many. The flag tells of colons after the last one. -/
def plainNamesUpTo : Nat → Parser (List String × Bool)
  | 0 => return ([], false)
  | count + 1 => do
    if !(← peekAny (.identifier :: pathWords)) then return ([], true)
    let name ← anyWord
    if ← seesOperator "::" then
      let _ ← operator "::"
      let (names, open?) ← plainNamesUpTo count
      return (name :: names, open?)
    else return ([name], false)

/-- Reads a plain path. -/
def plainPath : Parser PlainPath := do
  let colons ← operator? "::"
  let start ← place
  let (names, open?) ← plainNamesUpTo ((← get).rest.length + 1)
  if names.isEmpty then
    let _ ← identifier
    fail (.expected [.identifier])
  else if open? then fail (.expected [.phrase "path segment after `::`"])
  else return ⟨colons.isSome, names, start⟩

/-- Reads what follows the path of an attribute. -/
def attributeBody (g : Grammar) : Parser AttributeBody := do
  match (← get).rest with
  | .group delimiter body _ stop :: _ =>
    skip 1
    return .list delimiter body stop
  | _ =>
    if (← seesOperator "=") && !(← peekAny [.operator "==", .operator "=>"]) then
      let sign ← place
      let _ ← operator "="
      let alone ← lookingAhead do
        let _ ← literal
        atEnd
      if alone == some true then return .value sign (← literal)
      else if (← seesOperator "#") && (← peek2 (.group .bracket)) then
        fail .attributeInAttribute
      else return .value sign (← g.expression)
    else return .nothing

/-- Reads an attribute that stands before what it belongs to, or an inner one. -/
def readAttribute (g : Grammar) (isInner : Bool) : Parser Attribute := do
  let start ← place
  let _ ← operator "#"
  if isInner then
    let _ ← operator "!"
  grouped .bracket do
    let path ←
      if ← seesWord "unsafe" then
        let start ← place
        let name ← anyWord
        pure ⟨false, [name], start⟩
      else plainPath
    let body ← attributeBody g
    return ⟨start, isInner, path.isGlobal, path.names, path.start, body⟩

/-- Reads the attributes before something. -/
def outerAttributes (g : Grammar) : Parser (List Attribute) :=
  repeated do
    if ← seesOperator "#" then some <$> readAttribute g false else return none

/-- Reads the attributes inside something. -/
def innerAttributes (g : Grammar) : Parser (List Attribute) :=
  repeated do
    if (← seesOperator "#") && (← peek2 (.operator "!")) then some <$> readAttribute g true
    else return none

/-- Reads the braces of a body: its inner attributes and what a parser reads after them. -/
def braced {α : Type} (g : Grammar) (p : Parser α) : Parser (List Attribute × α) :=
  grouped .brace do
    let attributes ← innerAttributes g
    return (attributes, ← p)

/-- The tree of a block with the attributes inside it and what stands before it. -/
def blockAfter (g : Grammar) (head : List Tree) : Parser Tree := do
  let (attributes, statements) ← braced g g.statements
  return .block head (Attribute.inner attributes) statements

/-- The tree of a block by itself. -/
def block (g : Grammar) : Parser Tree :=
  blockAfter g []

/-- Reads a visibility. A list in brackets that is no visibility is left for what follows. -/
def visibility : Parser Visibility := do
  if !(← seesWord "pub") then return .inherited
  let _ ← word "pub"
  match (← get).rest with
  | .group .parenthesis body _ _ :: _ =>
    match body with
    | [.leaf (.ident name) _] =>
      if ["crate", "self", "super"].contains name then
        skip 1
        return .inside false (.path false [.segment name []])
      else if name == "in" then restricted
      else return .everywhere
    | _ => if sees body (.word "in") then restricted else return .everywhere
  | _ => return .everywhere
where
  /-- A path in brackets. -/
  restricted : Parser Visibility :=
    grouped .parenthesis do
      let _ ← word "in"
      return .inside true (← plainPath).tree

end Forwarding.Grammar
