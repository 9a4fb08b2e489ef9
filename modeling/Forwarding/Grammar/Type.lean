import Forwarding.Grammar.Path
/-!
Types.
-/

namespace Forwarding.Grammar

open Forwarding.Grammar.Parser

/-- Whether every segment of a path is a mere name. -/
def isPlain : Tree → Bool
  | .path _ segments => segments.all fun
    | .segment _ [] => true
    | _ => false
  | _ => false

/-- The rest of a macro invocation after its path. -/
def invocation (name : Tree) : Parser (Delimiter × Tree) := do
  let _ ← operator "!"
  let (delimiter, body) ← anyGroup
  return (delimiter, .seq [name, .operator "!", body])

/-- The words besides identifiers that may begin the path of a type. -/
def typePathWords : List Expectation :=
  [.word "super", .word "self", .word "Self", .word "crate"]

/-- Whether a type may be the only bound of a sum when it stands in brackets. -/
def isLoneBound : Tree → Bool
  | .path _ _ => true
  | .seq [before, .path _ _] => before.tokens.head? == some (.ident "for")
  | _ => false

/-- How a type goes on after round brackets. -/
inductive ParenthesizedKind where
  /-- The type is complete. -/
  | complete
  /-- It may be the first bound of a sum. -/
  | lone
  /-- It is the first bound of a sum. -/
  | relaxed
  deriving Repr, DecidableEq

/-- Bounds of an object type, joined to the bound that was read first. -/
def moreObjectBounds (g : Grammar) (first : Tree) : Parser Tree := do
  let more ← repeated do
    if ← seesOperator "+" then
      let _ ← operator "+"
      let bound ← g.typeBound false false
      return some bound.tree
    else return none
  return .seq (join "+" (first :: more) false)

/-- A type that begins with round brackets: a tuple, a type in brackets, or a sum of bounds of which
the first one stands in brackets. -/
def parenthesizedType (g : Grammar) (plus : Bool) : Parser Tree := do
  let (inside, kind) ← grouped .parenthesis content
  let whole := Tree.group .parenthesis inside
  match kind with
  | .complete => return whole
  | .relaxed => moreObjectBounds g whole
  | .lone =>
    if plus && (← seesOperator "+") then moreObjectBounds g whole else return whole
where
  /-- What stands between the brackets. -/
  content : Parser (List Tree × ParenthesizedKind) := do
    if ← atEnd then return ([], .complete)
    if ← peek .lifetime then
      let type ← g.type
      return ([type], .complete)
    if ← seesOperator "?" then
      let (bound, _) ← traitBound g false
      return ([bound], .relaxed)
    let first ← g.type
    if ← seesOperator "," then
      let _ ← operator ","
      let more ← commaList g.type
      return (first :: .operator "," :: more, .complete)
    return ([first], if isLoneBound first then .lone else .complete)

/-- The brackets of an array or a slice. -/
def bracketedType (g : Grammar) : Parser Tree :=
  groupedTree .bracket do
    let element ← g.type
    if ← seesOperator ";" then
      let _ ← operator ";"
      return [element, .operator ";", ← g.expression]
    else return [element]

/-- The calling convention of a function. -/
def convention : Parser Tree := do
  let _ ← word "extern"
  if ← peek .stringLiteral then
    let (spelling, _) ← stringLiteral
    return .seq [.word "extern", .token (.literal spelling)]
  else return .word "extern"

/-- The calling convention, if one is written. -/
def convention? : Parser (Option Tree) := do
  if ← seesWord "extern" then some <$> convention else return none

/-- A parameter of a function type. Receivers are kept as they were written. -/
def functionTypeParameter (g : Grammar) (first : Bool) : Parser (List Tree) := do
  let mutable := first && (← seesWord "mut") && (← peek2 (.word "self"))
  if mutable then return [← verbatim mutableReceiver]
  let named := (← peekAny [.identifier, .word "_"]) || (first && (← seesWord "self"))
  let colon := (← peek2 (.operator ":")) && !(← peek2 (.operator "::"))
  if named && colon then
    let name ← anyWord
    let _ ← operator ":"
    return [.word name, .operator ":", ← g.type]
  else return [← g.type]
where
  /-- A receiver that may be changed, with or without a type. -/
  mutableReceiver : Parser Unit := do
    let _ ← word "mut"
    let _ ← word "self"
    if (← seesOperator ":") && !(← seesOperator "::") then
      let _ ← operator ":"
      let _ ← g.type

/-- The parameters of a function type, at most so many. -/
def functionTypeParameters (g : Grammar) (first : Bool) : Nat → Parser (List Tree)
  | 0 => return []
  | count + 1 => do
    if ← atEnd then return []
    let attributes := Attribute.outer (← outerAttributes g)
    let namedDots := (← peekAny [.identifier, .word "_"]) && (← peek2 (.operator ":"))
      && (← peek3 (.operator "..."))
    if (← seesOperator "...") || namedDots then
      let name ←
        if namedDots then
          let name ← anyWord
          let _ ← operator ":"
          pure [Tree.word name, .operator ":"]
        else pure []
      let _ ← operator "..."
      let comma ← operator? ","
      return attributes ++ name ++ .operator "..." :: comma.toList
    let inner := Attribute.outer (← outerAttributes g)
    let param ← functionTypeParameter g first
    if ← atEnd then return attributes ++ inner ++ param
    let _ ← operator ","
    return attributes ++ inner ++ param
      ++ .operator "," :: (← functionTypeParameters g false count)

/-- A function type after its binder of lifetimes. -/
def functionType (g : Grammar) : Parser (List Tree) := do
  let unsafety ← word? "unsafe"
  let convention ← convention?
  let _ ← word "fn"
  let params ← groupedTree .parenthesis do
    functionTypeParameters g true ((← get).rest.length + 1)
  let output ← output? g false
  return unsafety.toList ++ convention.toList ++ [.word "fn", params] ++ outputTree output

/-- A type that begins with a path: the path, a macro, or a sum of bounds. -/
def pathType (g : Grammar) (plus : Bool) (binder : Option Tree) : Parser Tree := do
  let name ← qualifiedPath g false
  match name with
  | .path _ _ =>
    if (← seesOperator "!") && !(← seesOperator "!=") && isPlain name then
      return (← invocation name).2
    if binder.isSome || (plus && (← seesOperator "+")) then
      let first := match binder with
        | some binder => Tree.seq [binder, name]
        | none => name
      if !plus then return first
      sumAfter first
    else return name
  | _ => return name
where
  /-- The bounds after the first one. -/
  sumAfter (first : Tree) : Parser Tree := do
    if !(← seesOperator "+") then return first
    let _ ← operator "+"
    let begins := (← peekAny [.operator "::", .operator "?", .lifetime, .group .parenthesis])
      || Grammar.seesAnyWord (← get).rest
    if !begins then return .seq [first, .operator "+"]
    let (bounds, trailing) ← boundsUpTo ((← get).rest.length + 1)
    return .seq (first :: .operator "+" :: join "+" bounds trailing)
  /-- The bounds after a plus sign. -/
  boundsUpTo : Nat → Parser (List Tree × Bool)
    | 0 => return ([], false)
    | count + 1 => do
      let bound ← g.typeBound false false
      if !(← seesOperator "+") then return ([bound.tree], false)
      let _ ← operator "+"
      let begins := (← peekAny [.operator "::", .operator "?", .lifetime, .group .parenthesis])
        || Grammar.seesAnyWord (← get).rest
      if begins then
        let (rest, trailing) ← boundsUpTo count
        return (bound.tree :: rest, trailing)
      else return ([bound.tree], true)

/-- The bounds of an object type, of which one has to be a trait. `start` is where the type
begins. -/
def objectBounds (g : Grammar) (plus : Bool) (start : Position) : Parser (List Tree) := do
  let (bounds, trailing) ← typeBounds g plus false false
  if bounds.any (·.kind == .implemented) then
    return join "+" (bounds.map Bound.tree) trailing
  else failAt start .objectWithoutTrait

/-- What may stand where a type begins, in the order of the messages. -/
def typeBeginnings : List Expectation :=
  [.word "for", .group .parenthesis, .word "fn", .word "unsafe", .word "extern", .identifier,
    .operator "::", .operator "<", .word "dyn", .group .bracket, .operator "*", .operator "&",
    .operator "!", .word "impl", .word "_", .lifetime]

/-- What may stand after a binder of lifetimes. -/
def boundTypeBeginnings : List Expectation :=
  [.identifier, .word "fn", .word "unsafe", .word "extern", .word "super", .word "self",
    .word "Self", .word "crate"]

/-- A type. With `plus`, a sum of bounds needs no brackets. -/
def typeOf (g : Grammar) (plus : Bool) : Parser Tree := do
  let start ← place
  let binder ← binder? g
  if binder.isSome then
    if !(← peekAny boundTypeBeginnings) || (← seesWord "dyn") then
      failExpecting boundTypeBeginnings
  if binder.isNone && (← peek (.group .parenthesis)) then parenthesizedType g plus
  else if ← peekAny [.word "fn", .word "unsafe", .word "extern"] then
    return .seq (binder.toList ++ (← functionType g))
  else if ← peekAny (.identifier :: .operator "::" :: .operator "<" :: typePathWords) then
    pathType g plus binder
  else if ← seesWord "dyn" then
    let before := (← get).rest
    let _ ← word "dyn"
    let star ← operator? "*"
    let bounds ← objectBounds g plus start
    if star.isSome then
      let after := (← get).rest
      return .ofTokens (Lexeme.tokensOf (before.take (before.length - after.length)))
    else return .seq (.word "dyn" :: bounds)
  else if ← peek (.group .bracket) then bracketedType g
  else if ← seesOperator "*" then
    let _ ← operator "*"
    let mode ←
      if ← seesWord "const" then word "const"
      else if ← seesWord "mut" then word "mut"
      else failExpecting [.word "const", .word "mut"]
    return .seq [.operator "*", mode, ← g.typeWithoutPlus]
  else if ← seesOperator "&" then
    let _ ← operator "&"
    let name ← lifetime?
    let mutable ← word? "mut"
    return .seq (.operator "&" :: ((name.map Tree.lifetime).toList ++ mutable.toList
      ++ [← g.typeWithoutPlus]))
  else if (← seesOperator "!") && !(← seesOperator "=") then operator "!"
  else if ← seesWord "impl" then
    let _ ← word "impl"
    let (bounds, trailing) ← typeBounds g plus true true
    if bounds.any (·.kind == .implemented) then
      return .seq (.word "impl" :: join "+" (bounds.map Bound.tree) trailing)
    else failAt start .implWithoutTrait
  else if ← seesWord "_" then word "_"
  else if ← peek .lifetime then return .seq (← objectBounds g true start)
  else failExpecting typeBeginnings

end Forwarding.Grammar
