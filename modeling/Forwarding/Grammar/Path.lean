import Forwarding.Grammar.Attribute
/-!
Paths, their generic arguments, and the bounds of type parameters.
-/

namespace Forwarding.Grammar

open Forwarding.Grammar.Parser

/-- The words that may stand in the path of a type although they name nothing. -/
def segmentWords : List Expectation :=
  [.word "super", .word "self", .word "crate", .word "try"]

/-- A constant argument: a literal, a name or a block. -/
def constArgument (g : Grammar) : Parser Tree := do
  if ← peek .literal then literal
  else if ← peek .identifier then return .path false [.segment (← identifier) []]
  else if ← peek (.group .brace) then block g
  else fail (.expected [])

/-- The binder of lifetimes before a type or a bound. -/
def binder (g : Grammar) : Parser Tree := do
  let _ ← word "for"
  let _ ← operator "<"
  let (params, trailing) ← punctuated "," (seesOperator ">") do
    let attributes ← outerAttributes g
    let name ← lifetime
    return Tree.seq (Attribute.outer attributes ++ [.lifetime name])
  let _ ← operator ">"
  return .seq ([.word "for", .operator "<"] ++ join "," params trailing ++ [.operator ">"])

/-- The binder of lifetimes, if one stands next. -/
def binder? (g : Grammar) : Parser (Option Tree) := do
  if ← seesWord "for" then some <$> binder g else return none

/-- The lifetimes and types that a type captures. Lifetimes are printed first. -/
def capture : Parser Tree := do
  let _ ← word "use"
  let _ ← operator "<"
  let (items, trailing) ← items ((← get).rest.length + 1)
  let _ ← operator ">"
  return .seq [.word "use", .arguments false items trailing]
where
  /-- The items up to the closing bracket. -/
  items : Nat → Parser (List Tree × Bool)
    | 0 => return ([], true)
    | count + 1 => do
      let item? ←
        if ← peek .lifetime then some <$> Tree.lifetime <$> lifetime
        else if ← peekAny [.identifier, .word "Self"] then some <$> Tree.word <$> anyWord
        else if ← seesOperator ">" then pure none
        else failExpecting [.lifetime, .identifier, .operator ">"]
      match item? with
      | none => return ([], true)
      | some item =>
        if ← seesOperator "," then
          let _ ← operator ","
          let (rest, trailing) ← items count
          return (item :: rest, trailing)
        else if ← seesOperator ">" then return ([item], false)
        else failExpecting [.operator ",", .operator ">"]

/-- Whether a list of arguments in round brackets follows, two colons before it or not. -/
def seesParenthesized : Parser Bool := do
  if ← peek (.group .parenthesis) then return true
  return (← seesOperator "::") && (← peek3 (.group .parenthesis))

/-- Whether a list of generic arguments is empty or missing. -/
def noArguments : List Tree → Bool
  | [] => true
  | [.arguments _ [] _] => true
  | _ => false

/-- A generic argument: a lifetime, a constant, a type, or a condition on an associated item. -/
def genericArgument (g : Grammar) : Parser Tree := do
  if (← peek .lifetime) && !(← peek2 (.operator "+")) then return .lifetime (← lifetime)
  if ← peekAny [.literal, .group .brace] then return ← constArgument g
  let type ← g.type
  match type with
  | .path false [.segment name args] =>
    if ← seesOperator "=" then
      let _ ← operator "="
      let value ← if ← peekAny [.literal, .group .brace] then constArgument g else g.type
      return .seq (.word name :: (args ++ [.operator "=", value]))
    else if ← seesOperator ":" then
      let _ ← operator ":"
      let (bounds, trailing) ← sum (peekAny [.operator ",", .operator ">"]) g.bound
      return .seq (.word name :: (args ++ .operator ":" :: join "+" bounds trailing))
    else return type
  | _ => return type

/-- Generic arguments between angle brackets, two colons before them or not. -/
def genericArguments (g : Grammar) : Parser Tree := do
  let colons ← operator? "::"
  let _ ← operator "<"
  let (items, trailing) ← punctuated "," (seesOperator ">") (genericArgument g)
  let _ ← operator ">"
  return .arguments colons.isSome items trailing

/-- A segment of a path. In an expression, arguments need two colons before them. -/
def segment (g : Grammar) (inExpression : Bool) : Parser Tree := do
  if ← peekAny segmentWords then return .segment (← anyWord) []
  let name ← if ← seesWord "Self" then anyWord else identifier
  let angle := !inExpression && (← seesOperator "<") && !(← seesOperator "<=")
  let turbofish := (← seesOperator "::") && (← peek3 (.operator "<"))
  if angle || turbofish then return .segment name [← genericArguments g]
  else return .segment name []

/-- The segments of a path after the first one. Two colons before round brackets end the path. -/
def moreSegments (g : Grammar) (inExpression : Bool) : Parser (List Tree) :=
  repeated do
    if (← seesOperator "::") && !(← peek3 (.group .parenthesis)) then
      let _ ← operator "::"
      some <$> segment g inExpression
    else return none

/-- A path. -/
def path (g : Grammar) (inExpression : Bool) : Parser Tree := do
  let colons ← operator? "::"
  let first ← segment g inExpression
  return .path colons.isSome (first :: (← moreSegments g inExpression))

/-- The segments of a path through a type, at most so many. -/
def segmentsUpTo (g : Grammar) (inExpression : Bool) : Nat → Parser (List Tree)
  | 0 => return []
  | count + 1 => do
    let first ← segment g inExpression
    if ← seesOperator "::" then
      let _ ← operator "::"
      return first :: (← segmentsUpTo g inExpression count)
    else return [first]

/-- A path, possibly one through a type. -/
def qualifiedPath (g : Grammar) (inExpression : Bool) : Parser Tree := do
  if !(← seesOperator "<") then return ← path g inExpression
  let _ ← operator "<"
  let selfType ← g.type
  let traitPath ←
    if ← seesWord "as" then
      let _ ← word "as"
      pure [← path g false]
    else pure []
  let _ ← operator ">"
  let _ ← operator "::"
  let rest ← segmentsUpTo g inExpression ((← get).rest.length + 1)
  return .qualified selfType traitPath rest

/-- The result type of a function, if one is written. -/
def output? (g : Grammar) (plus : Bool) : Parser (Option Tree) := do
  if ← seesOperator "->" then
    let _ ← operator "->"
    some <$> if plus then g.type else g.typeWithoutPlus
  else return none

/-- The tree of an optional result type. -/
def outputTree (output : Option Tree) : List Tree :=
  match output with
  | some type => [.operator "->", type]
  | none => []

/-- Arguments in round brackets and a result type. -/
def parenthesizedArguments (g : Grammar) : Parser (List Tree) := do
  let inputs ← groupedTree .parenthesis (commaList g.type)
  return inputs :: outputTree (← output? g false)

/-- A trait with its modifiers; the constness tells whether it stood in the bound. -/
def traitBound (g : Grammar) (constant : Bool) : Parser (Tree × Bool) := do
  let before ← binder? g
  let start ← place
  let mode : Option Constness ←
    if ← seesOperator "~" then
      let _ ← operator "~"
      let _ ← word "const"
      pure (some Constness.maybe)
    else if ← seesWord "const" then
      let _ ← word "const"
      pure (some Constness.always)
    else pure none
  match mode with
  | some mode => if !constant then failAt start (.constNotAllowed mode)
  | none => pure ()
  let question ← place
  let maybe ← operator? "?"
  let between ← if before.isNone && maybe.isSome then binder? g else pure none
  let name ← path g false
  let name ←
    match name with
    | .path isGlobal segments =>
      match segments.getLast? with
      | some (.segment last args) =>
        if noArguments args && (← seesParenthesized) then
          let _ ← operator? "::"
          let inputs ← parenthesizedArguments g
          pure (Tree.path isGlobal (segments.dropLast ++ [.segment last inputs]))
        else pure name
      | _ => pure name
    | _ => pure name
  if maybe.isSome && (before.isSome || between.isSome) then failAt question .binderBeforeMaybe
  return (.seq (maybe.toList ++ before.toList ++ [name]), mode.isSome)

/-- A bound of any kind. A constant trait is kept as it was written. -/
def boundOf (g : Grammar) (captures constant : Bool) : Parser Bound := do
  if ← peek .lifetime then return ⟨.lifetime (← lifetime), .outlives⟩
  if ← seesWord "use" then
    let start ← place
    let tree ← capture
    if captures then return ⟨tree, .captures⟩ else failAt start .captureNotAllowed
  let before := (← get).rest
  let (tree, isConstant) ←
    if ← peek (.group .parenthesis) then
      let (inside, isConstant) ← grouped .parenthesis (traitBound g constant)
      pure (Tree.group .parenthesis [inside], isConstant)
    else traitBound g constant
  if isConstant then
    let after := (← get).rest
    let read := before.take (before.length - after.length)
    return ⟨.ofTokens (Lexeme.tokensOf read), .implemented⟩
  else return ⟨tree, .implemented⟩

/-- Whether another bound may begin here. -/
def beginsBound : Parser Bool := do
  if Grammar.seesAnyWord (← get).rest then return true
  peekAny [.operator "::", .operator "?", .lifetime, .group .parenthesis, .operator "~"]

/-- The bounds of a type that is a sum of bounds, at most so many. -/
def typeBoundsUpTo (g : Grammar) (plus captures constant : Bool) :
    Nat → Parser (List Bound × Bool)
  | 0 => return ([], true)
  | count + 1 => do
    let first ← g.typeBound captures constant
    if plus && (← seesOperator "+") then
      let _ ← operator "+"
      if ← beginsBound then
        let (rest, trailing) ← typeBoundsUpTo g plus captures constant count
        return (first :: rest, trailing)
      else return ([first], true)
    else return ([first], false)

/-- The bounds of a type that is a sum of bounds. The flag tells of a plus sign after the last one.
Without `plus` there is only one bound. -/
def typeBounds (g : Grammar) (plus captures constant : Bool) : Parser (List Bound × Bool) := do
  typeBoundsUpTo g plus captures constant ((← get).rest.length + 1)

end Forwarding.Grammar
