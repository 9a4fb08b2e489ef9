import Forwarding.Grammar.Type
/-!
Patterns.
-/

namespace Forwarding.Grammar

open Forwarding.Grammar.Parser

/-- Whether a vertical bar separates two alternatives here. -/
def seesAlternative : Parser Bool := do
  return (← seesOperator "|") && !(← peekAny [.operator "||", .operator "|="])

/-- A pattern with alternatives. -/
def alternatives (g : Grammar) : Parser Pattern := do
  let leading ← operator? "|"
  let first ← g.pattern
  let more ← repeated do
    if ← seesAlternative then
      let _ ← operator "|"
      return some (← g.pattern).tree
    else return none
  if leading.isSome || !more.isEmpty then
    return ⟨.seq (leading.toList ++ join "|" (first.tree :: more) false), .plain⟩
  else return first

/-- Patterns separated by commas up to the end of the group. -/
def patternList (g : Grammar) : Parser (List Tree) :=
  commaList do return (← alternatives g).tree

/-- The sign of a range in a pattern. The old sign of three dots is read as a closed range. -/
def patternLimits : Parser (Tree × Bool) := do
  if ← seesOperator "..=" then return (← operator "..=", true)
  if ← seesOperator "..." then
    let _ ← operator "..."
    return (.operator "..=", true)
  if ← seesOperator ".." then return (← operator "..", false)
  failExpecting [.operator ".."]

/-- Whether a pattern ends here, so that a range has no upper bound. -/
def endsPattern : Parser Bool := do
  if ← atEnd then return true
  if ← peekAny [.operator "|", .operator "=", .operator ",", .operator ";", .word "if"] then
    return true
  return (← seesOperator ":") && !(← seesOperator "::")

/-- What may begin a bound of a range. -/
def rangeBoundBeginnings : List Expectation :=
  [.literal, .identifier, .operator "::", .operator "<", .word "self", .word "Self",
    .word "super", .word "crate", .word "const"]

/-- A bound of a range, unless the pattern ends before it. -/
def rangeBound? (g : Grammar) : Parser (Option Tree) := do
  if ← endsPattern then return none
  if ← peek .literal then some <$> literal
  else if ← peekAny (rangeBoundBeginnings.filter fun e => e != .word "const") then
    some <$> qualifiedPath g true
  else if ← seesWord "const" then
    let _ ← word "const"
    return some (.seq [.word "const", ← block g])
  else failExpecting rangeBoundBeginnings

/-- The upper bound of a range that began before its sign. -/
def rangeAfter (g : Grammar) (start : Tree) : Parser Pattern := do
  let dots ← place
  let (sign, closed) ← patternLimits
  match ← rangeBound? g with
  | some stop => return ⟨.seq [start, sign, stop], .plain⟩
  | none =>
    if closed then fail (.expected [.phrase "range upper bound"])
    else return ⟨.seq [start, sign], .openRange dots⟩

/-- A range without a lower bound, or the two dots alone. -/
def rangeFrom (g : Grammar) : Parser Pattern := do
  let dots ← place
  let closed := (← seesOperator "..=")
  let sign ← if closed then operator "..=" else operator ".."
  match ← rangeBound? g with
  | some stop => return ⟨.seq [sign, stop], .openRange dots⟩
  | none =>
    if closed then fail (.expected [.phrase "range upper bound"])
    else return ⟨sign, .rest⟩

/-- The number of a field of a tuple. -/
def tupleIndex : Parser Token := do
  let start ← place
  let (negative, spelling) ← integerLiteral
  match Literal.integer? spelling with
  | some (value, []) =>
    if negative then failAt start (.expected [.phrase "unsuffixed integer"])
    else if value < 4294967296 then return .literal (toString value)
    else failAt start .numberTooLarge
  | _ => failAt start (.expected [.phrase "unsuffixed integer"])

/-- The name or the number of a field. -/
def fieldMember : Parser Token := do
  if ← peek .identifier then return .ident (← identifier)
  else if ← peek .integerLiteral then tupleIndex
  else fail (.expected [.phrase "identifier or integer"])

/-- A field of a struct pattern: a member with a pattern, or a name bound to itself. -/
def fieldPattern (g : Grammar) : Parser (List Tree) := do
  let boxed ← word? "box"
  let byRef ← word? "ref"
  let mutable ← word? "mut"
  let modifiers := boxed.toList ++ byRef.toList ++ mutable.toList
  if !modifiers.isEmpty then return modifiers ++ [.word (← identifier)]
  let member ← fieldMember
  let isName := match member with
    | .ident _ => true
    | _ => false
  if (← seesOperator ":") || !isName then
    let _ ← operator ":"
    return [.token member, .operator ":", (← alternatives g).tree]
  else return [.token member]

/-- The fields of a struct pattern, at most so many. -/
def fieldPatterns (g : Grammar) : Nat → Parser (List Tree)
  | 0 => return []
  | count + 1 => do
    if ← atEnd then return []
    let attributes := Attribute.outer (← outerAttributes g)
    if ← seesOperator ".." then return attributes ++ [← operator ".."]
    let field ← fieldPattern g
    if ← atEnd then return attributes ++ field
    let comma ← operator ","
    return attributes ++ field ++ comma :: (← fieldPatterns g count)

/-- A pattern that begins with a path. -/
def pathPattern (g : Grammar) : Parser Pattern := do
  let name ← qualifiedPath g true
  let plainPath := match name with
    | .path _ _ => isPlain name
    | _ => false
  if (← seesOperator "!") && !(← seesOperator "!=") && plainPath then
    return ⟨(← invocation name).2, .plain⟩
  if ← peek (.group .brace) then
    let fields ← groupedTree .brace do
      fieldPatterns g ((← get).rest.length + 1)
    return ⟨.seq [name, fields], .plain⟩
  else if ← peek (.group .parenthesis) then
    return ⟨.seq [name, ← groupedTree .parenthesis (patternList g)], .plain⟩
  else if ← seesOperator ".." then rangeAfter g name
  else return ⟨name, .plain⟩

/-- A pattern that binds an identifier. -/
def bindingPattern (g : Grammar) : Parser Pattern := do
  let byRef ← word? "ref"
  let mutable ← word? "mut"
  let name ← if ← seesWord "self" then anyWord else identifier
  let modifiers := byRef.toList ++ mutable.toList
  if ← seesOperator "@" then
    let _ ← operator "@"
    let inner ← g.pattern
    return ⟨.seq (modifiers ++ [.word name, .operator "@", inner.tree]), .plain⟩
  else
    return ⟨.seq (modifiers ++ [.word name]), if byRef.isNone then .binding name else .plain⟩

/-- A pattern in round brackets, or a tuple of patterns. -/
def tuplePattern (g : Grammar) : Parser Pattern := do
  return ⟨← groupedTree .parenthesis (patternList g), .plain⟩

/-- An element of a slice pattern. -/
def slicedPattern (g : Grammar) : Parser Tree := do
  let element ← alternatives g
  match element.form with
  | .openRange dots => failAt dots .openRangeInSlice
  | _ => return element.tree

/-- What may begin a pattern, in the order of the messages. -/
def patternBeginnings : List Expectation :=
  [.identifier, .operator "::", .operator "<", .word "_", .literal, .word "const", .word "ref",
    .word "mut", .operator "&", .group .parenthesis, .group .bracket, .operator "..",
    .word "const"]

/-- A pattern without alternatives at its top. -/
def patternOf (g : Grammar) : Parser Pattern := do
  let leadsOn := [Expectation.operator "::", .operator "!", .group .brace, .group .parenthesis,
    .operator ".."]
  let next := skipOne (← get).rest
  let beginsPath := ((← peek .identifier) && leadsOn.any (sees next))
    || ((← seesWord "self") && sees next (.operator "::"))
    || (← peekAny [.operator "::", .operator "<", .word "Self", .word "super", .word "crate"])
  if beginsPath then pathPattern g
  else if ← seesWord "_" then return ⟨← word "_", .plain⟩
  else if ← seesWord "box" then
    return ⟨← verbatim (do
      let _ ← word "box"
      let _ ← g.pattern), .plain⟩
  else if ← peekAny [.operator "-", .literal, .word "const"] then
    match ← rangeBound? g with
    | some start => if ← seesOperator ".." then rangeAfter g start else return ⟨start, .plain⟩
    | none => failExpecting patternBeginnings
  else if ← peekAny [.word "ref", .word "mut", .word "self", .identifier] then bindingPattern g
  else if ← seesOperator "&" then
    let _ ← operator "&"
    let mutable ← word? "mut"
    let inner ← g.pattern
    return ⟨.seq (.operator "&" :: (mutable.toList ++ [inner.tree])), .plain⟩
  else if ← peek (.group .parenthesis) then tuplePattern g
  else if ← peek (.group .bracket) then
    return ⟨← groupedTree .bracket (commaList (slicedPattern g)), .plain⟩
  else if (← seesOperator "..") && !(← seesOperator "...") then rangeFrom g
  else failExpecting patternBeginnings

end Forwarding.Grammar
