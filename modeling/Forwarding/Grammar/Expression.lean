import Forwarding.Grammar.Generics
import Forwarding.Grammar.Pattern
/-!
Expressions. Operators are read by precedence climbing. The tree of an expression is flat; the
climbing decides where an expression ends and which operators may not be chained.
-/

namespace Forwarding.Grammar

open Forwarding.Grammar.Parser

/-- How strongly an operator binds. -/
inductive Precedence where
  | lowest
  | assign
  | range
  | or
  | and
  | compare
  | bitOr
  | bitXor
  | bitAnd
  | shift
  | sum
  | product
  | cast
  deriving Repr, DecidableEq

/-- The rank of a precedence. -/
def Precedence.rank : Precedence → Nat
  | lowest => 0
  | assign => 1
  | range => 2
  | or => 3
  | and => 4
  | compare => 5
  | bitOr => 6
  | bitXor => 7
  | bitAnd => 8
  | shift => 9
  | sum => 10
  | product => 11
  | cast => 12

/-- The binary operators, each before those that it begins with. -/
def binaryOperators : List (String × Precedence) :=
  [("+=", .assign), ("-=", .assign), ("*=", .assign), ("/=", .assign), ("%=", .assign),
    ("^=", .assign), ("&=", .assign), ("|=", .assign), ("<<=", .assign), (">>=", .assign),
    ("&&", .and), ("||", .or), ("<<", .shift), (">>", .shift), ("==", .compare),
    ("<=", .compare), ("!=", .compare), (">=", .compare), ("+", .sum), ("-", .sum),
    ("*", .product), ("/", .product), ("%", .product), ("^", .bitXor), ("&", .bitAnd),
    ("|", .bitOr), ("<", .compare), (">", .compare)]

/-- The binary operator that stands next. -/
def binaryOperator? (ahead : List Lexeme) : Option (String × Precedence) :=
  binaryOperators.find? fun (symbols, _) => sees ahead (.operator symbols)

/-- The precedence of what follows an operand. -/
def peekPrecedence : Parser Precedence := do
  let rest := (← get).rest
  match binaryOperator? rest with
  | some (_, precedence) => return precedence
  | none =>
    if sees rest (.operator "=") && !sees rest (.operator "=>") then return .assign
    else if sees rest (.operator "..") then return .range
    else if sees rest (.word "as") then return .cast
    else return .lowest

/-- Whether a range ends before what stands next. -/
def endsRange (braces : Bool) : Parser Bool := do
  if ← atEnd then return true
  if (← seesOperator ".") && !(← seesOperator "..") then return true
  if !braces && (← peek (.group .brace)) then return true
  peekAny [.operator ",", .operator ";", .operator "?", .operator "=>", .operator "=",
    .operator "+", .operator "/", .operator "%", .operator "^", .operator ">", .operator "<=",
    .operator "!=", .operator "-=", .operator "*=", .operator "&=", .operator "|=",
    .operator "<<=", .word "as"]

/-- The sign of a range, and whether the range is closed. -/
def rangeLimits : Parser (Tree × Bool) := do
  if ← seesOperator "..=" then return (← operator "..=", true)
  else if (← seesOperator "..") && !(← seesOperator "...") then
    return (← operator "..", false)
  else failExpecting [.operator "..", .operator "..="]

/-- Refuses what may not follow a cast. -/
def checkCast : Parser Unit := do
  if (← seesOperator ".") && !(← seesOperator "..") then
    if ← peek2 (.word "await") then fail (.castFollowedBy "`.await`")
    else if (← peek2 .identifier)
        && ((← peek3 (.group .parenthesis)) || (← peek3 (.operator "::"))) then
      fail (.castFollowedBy "a method call")
    else fail (.castFollowedBy "a field access")
  else if ← seesOperator "?" then fail (.castFollowedBy "`?`")
  else if ← peek (.group .bracket) then fail (.castFollowedBy "indexing")
  else if ← peek (.group .parenthesis) then fail (.castFollowedBy "a function call")

/-- The three readers of a climb over operators. -/
inductive Climb where
  /-- Continues an expression with operators that bind at least so strongly. -/
  | onward (left : Expression) (base : Precedence)
  /-- Reads the right operand of an operator. -/
  | right (precedence : Precedence)
  /-- Continues a right operand with operators that bind more strongly. -/
  | tighten (operand : Expression) (precedence : Precedence)

/-- Reads operators and their operands. The fuel bounds the number of operators by the lexemes
ahead. -/
def climb (g : Grammar) (braces : Bool) : Nat → Climb → Parser Expression
  | 0, _ => fail .nesting
  | fuel + 1, .right precedence => do
    climb g braces fuel (.tighten (← g.operand braces) precedence)
  | fuel + 1, .tighten operand precedence => do
    let next ← peekPrecedence
    if precedence.rank < next.rank || (next == precedence && precedence == .assign) then
      let before := (← get).rest.length
      let wider ← climb g braces fuel (.onward operand next)
      if (← get).rest.length == before then return wider
      climb g braces fuel (.tighten wider precedence)
    else return operand
  | fuel + 1, .onward left base => do
    let isRange := left.form == .range
    if isRange then return left
    match binaryOperator? (← get).rest with
    | some (symbols, precedence) =>
      if precedence.rank < base.rank then return left
      if precedence == .compare && left.form == .comparison then fail .chainedComparison
      let sign ← operator symbols
      let right ← climb g braces fuel (.right precedence)
      let form := if precedence == .compare then .comparison else .plain
      climb g braces fuel (.onward ⟨.seq [left.tree, sign, right.tree], form⟩ base)
    | none =>
      if base.rank ≤ Precedence.assign.rank && (← seesOperator "=") && !(← seesOperator "=>") then
        let sign ← operator "="
        let right ← climb g braces fuel (.right .assign)
        climb g braces fuel (.onward ⟨.seq [left.tree, sign, right.tree], .plain⟩ base)
      else if base.rank ≤ Precedence.range.rank && (← seesOperator "..") then
        let (sign, closed) ← rangeLimits
        if !closed && (← endsRange braces) then
          climb g braces fuel (.onward ⟨.seq [left.tree, sign], .range⟩ base)
        else
          let right ← climb g braces fuel (.right .range)
          climb g braces fuel (.onward ⟨.seq [left.tree, sign, right.tree], .range⟩ base)
      else if base.rank ≤ Precedence.cast.rank && (← seesWord "as") then
        let sign ← word "as"
        let type ← g.typeWithoutPlus
        checkCast
        climb g braces fuel (.onward ⟨.seq [left.tree, sign, type], .plain⟩ base)
      else return left

/-- Enough fuel for a climb over the lexemes ahead. -/
def climbFuel : Parser Nat := do
  return 4 * (← get).rest.length + 4

/-- Continues an expression with all operators of at least some precedence. -/
def continued (g : Grammar) (braces : Bool) (left : Expression) (base : Precedence) :
    Parser Expression := do
  climb g braces (← climbFuel) (.onward left base)

/-- The upper end of a range, if there is one. -/
def rangeEnd (g : Grammar) (braces closed : Bool) : Parser (List Tree) := do
  if !closed && (← endsRange braces) then return []
  else return [(← climb g braces (← climbFuel) (.right .range)).tree]

/-- An expression with its operators. -/
def expressionOf (g : Grammar) (braces : Bool) : Parser Expression := do
  continued g braces (← g.operand braces) .lowest

/-- Whether an expression may begin here. -/
def beginsExpression : Parser Bool := do
  let rest := (← get).rest
  let here := sees rest
  let alone (symbols : String) (longer : List String) :=
    here (.operator symbols) && !longer.any fun more => here (.operator more)
  return Grammar.seesAnyWord rest || here (.group .parenthesis) || here (.group .bracket)
    || here (.group .brace) || here .literal || alone "!" ["!="] || alone "-" ["-=", "->"]
    || alone "*" ["*="] || alone "|" ["|="] || alone "&" ["&="] || here (.operator "..")
    || alone "<" ["<=", "<<="] || here (.operator "::") || here .lifetime || here (.operator "#")

/-- Expressions separated by commas up to the end of the group. -/
def expressionList (g : Grammar) : Parser (List Tree) :=
  commaList g.expression

/-- The parts of a number with a point that stands for two fields of tuples. -/
def splitFields (spelling : String) : List String :=
  (spelling.splitOn ".")

/-- The number of a field in a part of such a number. -/
def fieldOfPart (start : Position) (part : String) : Parser Tree := do
  match Literal.integer? part with
  | some (value, []) =>
    if value < 4294967296 then return .token (.literal (toString value))
    else failAt start .numberTooLarge
  | some _ => failAt start (.expected [.phrase "unsuffixed integer"])
  | none => failAt start (.expected [.integerLiteral])

/-- What follows the dot of a field or a method. -/
def afterDot (g : Grammar) : Parser (List Tree) := do
  let start ← place
  match (← get).rest with
  | .leaf (.literal spelling) _ :: _ =>
    if Literal.isFraction spelling then
      skip 1
      let trailing := spelling.endsWith "."
      let parts := splitFields (if trailing then (spelling.dropEnd 1).toString else spelling)
      let fields ← parts.mapM (fieldOfPart start)
      let fields := Tree.separated (.operator ".") fields
      if trailing then return fields ++ .operator "." :: (← member) else return fields
    else member
  | _ => member
where
  /-- The word of waiting, a field, or a method with its arguments. -/
  member : Parser (List Tree) := do
    if ← seesWord "await" then return [← word "await"]
    let name ← fieldMember
    let isName := match name with
      | .ident _ => true
      | _ => false
    let turbofish ←
      if isName && (← seesOperator "::") then
        let _ ← operator "::"
        match ← genericArguments g with
        | .arguments _ items trailing => pure [Tree.arguments true items trailing]
        | tree => pure [tree]
      else pure []
    if isName && (!turbofish.isEmpty || (← peek (.group .parenthesis))) then
      let args ← groupedTree .parenthesis (expressionList g)
      return .token name :: (turbofish ++ [args])
    else return [.token name]

/-- The next call, field, index or question mark after an expression. -/
def trailer? (g : Grammar) (isRange : Bool) : Parser (Option (List Tree)) := do
  if ← peek (.group .parenthesis) then
    return some [← groupedTree .parenthesis (expressionList g)]
  else if (← seesOperator ".") && !(← seesOperator "..") && !isRange then
    let _ ← operator "."
    return some (.operator "." :: (← afterDot g))
  else if ← peek (.group .bracket) then
    return some [← groupedTree .bracket (do return [← g.expression])]
  else if (← seesOperator "?") && !isRange then return some [← operator "?"]
  else return none

/-- Adds calls, fields, indices and question marks to an expression. -/
def trailers (g : Grammar) (atom : Expression) : Parser Expression := do
  let parts ← repeated (trailer? g (atom.form == .range))
  if parts.isEmpty then return atom else return ⟨.seq (atom.tree :: parts.flatten), .plain⟩

/-- A label with its colon. -/
def label : Parser (List Tree) := do
  let name ← lifetime
  return [.lifetime name, ← operator ":"]

/-- A conditional. -/
def conditional (g : Grammar) : Parser Tree := do
  let first ← branch
  let more ← branchesUpTo ((← get).rest.length + 1)
  return .seq (first ++ more)
where
  /-- A condition and its block. -/
  branch : Parser (List Tree) := do
    let sign ← word "if"
    let condition ← g.condition
    let body ← groupedTree .brace g.statements
    return [sign, condition, body]
  /-- The branches after the first one, at most so many. -/
  branchesUpTo : Nat → Parser (List Tree)
    | 0 => return []
    | count + 1 => do
      if !(← seesWord "else") then return []
      let sign ← word "else"
      if ← seesWord "if" then
        let first ← branch
        return sign :: (first ++ (← branchesUpTo count))
      else if ← peek (.group .brace) then
        return [sign, ← groupedTree .brace g.statements]
      else failExpecting [.word "if", .group .brace]

/-- A loop with a condition. -/
def whileLoop (g : Grammar) : Parser Tree := do
  let sign ← word "while"
  let condition ← g.condition
  blockAfter g [sign, condition]

/-- A loop over values. -/
def forLoop (g : Grammar) : Parser Tree := do
  let sign ← word "for"
  let element ← alternatives g
  let between ← word "in"
  let values ← g.condition
  blockAfter g [sign, element.tree, between, values]

/-- A loop without a condition. -/
def endlessLoop (g : Grammar) : Parser Tree := do
  blockAfter g [← word "loop"]

/-- A word and a block. -/
def wordBlock (g : Grammar) (text : String) : Parser Tree := do
  blockAfter g [← word text]

/-- A block whose question marks stay inside. -/
def tryBlock (g : Grammar) : Parser Tree := do
  let sign ← word "try"
  return .seq [sign, ← groupedTree .brace g.statements]

/-- A labelled loop or block. -/
def labelled (g : Grammar) : Parser Tree := do
  let before ← label
  let body ←
    if ← seesWord "while" then whileLoop g
    else if ← seesWord "for" then forLoop g
    else if ← seesWord "loop" then endlessLoop g
    else if ← peek (.group .brace) then block g
    else fail (.expected [.phrase "loop or block expression"])
  return .seq (before ++ [body])

/-- A parameter of a closure. -/
def closureParameter (g : Grammar) : Parser Tree := do
  let attributes := Attribute.outer (← outerAttributes g)
  let name ← g.pattern
  if ← seesOperator ":" then
    let _ ← operator ":"
    return .seq (attributes ++ [name.tree, .operator ":", ← g.type])
  else return .seq (attributes ++ [name.tree])

/-- A closure. -/
def closure (g : Grammar) (braces : Bool) : Parser Tree := do
  let binder ← binder? g
  let constness ← word? "const"
  let movability ← word? "static"
  let asyncness ← word? "async"
  let capture ← word? "move"
  let _ ← operator "|"
  let (params, trailing) ← punctuated "," (seesOperator "|") (closureParameter g)
  let _ ← operator "|"
  let body ←
    if ← seesOperator "->" then
      let _ ← operator "->"
      let type ← g.type
      pure [.operator "->", type, ← groupedTree .brace g.statements]
    else pure [(← g.expressionWith braces).tree]
  return .seq (binder.toList ++ constness.toList ++ movability.toList ++ asyncness.toList
    ++ capture.toList ++ .operator "|" :: (join "," params trailing ++ .operator "|" :: body))

/-- An asynchronous block. -/
def asyncBlock (g : Grammar) : Parser Tree := do
  let sign ← word "async"
  let capture ← word? "move"
  return .seq (sign :: (capture.toList ++ [← groupedTree .brace g.statements]))

/-- An initializer of a struct literal. -/
def fieldInitializer (g : Grammar) : Parser Tree := do
  let attributes := Attribute.outer (← outerAttributes g)
  let member ← fieldMember
  let isName := match member with
    | .ident _ => true
    | _ => false
  if (← seesOperator ":") || !isName then
    let _ ← operator ":"
    return .initializer attributes member [← g.expression]
  else return .initializer attributes member []

/-- The initializers of a struct literal, at most so many, and what the literal is completed
from. -/
def initializersUpTo (g : Grammar) : Nat → Parser (List Tree)
  | 0 => return []
  | count + 1 => do
    if ← atEnd then return []
    if ← seesOperator ".." then
      let dots ← operator ".."
      if ← atEnd then return [dots] else return [dots, ← g.expression]
    let first ← fieldInitializer g
    if ← atEnd then return [first]
    let comma ← operator ","
    return first :: comma :: (← initializersUpTo g count)

/-- A path, a macro invocation or a struct literal. -/
def pathExpression (g : Grammar) (braces : Bool) : Parser Expression := do
  let name ← qualifiedPath g true
  let plainPath := match name with
    | .path _ _ => isPlain name
    | _ => false
  if (← seesOperator "!") && !(← seesOperator "!=") && plainPath then
    let (delimiter, tree) ← invocation name
    return ⟨tree, if delimiter = .brace then .bracedMacro else .plain⟩
  if braces && (← peek (.group .brace)) then
    let body ← grouped .brace do
      initializersUpTo g ((← get).rest.length + 1)
    return ⟨.record name body, .plain⟩
  else return ⟨name, .plain⟩

/-- Round brackets: an expression in brackets or a tuple. -/
def bracketedExpression (g : Grammar) : Parser Tree :=
  groupedTree .parenthesis (expressionList g)

/-- Square brackets: an array, by its elements or by repetition. -/
def arrayExpression (g : Grammar) : Parser Tree :=
  groupedTree .bracket do
    if ← atEnd then return []
    let first ← g.expression
    if ← atEnd then return [first]
    if ← seesOperator "," then
      let _ ← operator ","
      return first :: .operator "," :: (← expressionList g)
    else if ← seesOperator ";" then
      let _ ← operator ";"
      return [first, .operator ";", ← g.expression]
    else fail (.expected [.operator ",", .operator ";"])

/-- A builtin, kept as it was written. -/
def builtin : Parser Tree :=
  verbatim do
    let _ ← word "builtin"
    let _ ← operator "#"
    let _ ← identifier
    let _ ← grouped .parenthesis remaining

/-- Leaves a loop or block, perhaps with a value. -/
def breakExpression (g : Grammar) (braces : Bool) : Parser Tree := do
  let sign ← word "break"
  let start ← place
  if (← peek .lifetime) && (← peek2 (.operator ":")) then
    let _ ← g.expression
    failAt start .labelWithoutParentheses
  let name ← lifetime?
  let value ←
    if (← beginsExpression) && (braces || !(← peek (.group .brace))) then
      pure [(← g.expressionWith braces).tree]
    else pure []
  return .seq (sign :: ((name.map Tree.lifetime).toList ++ value))

/-- A word with an optional value. -/
def withValue (g : Grammar) (text : String) : Parser Tree := do
  let sign ← word text
  if ← beginsExpression then return .seq [sign, ← g.expression] else return sign

/-- A pattern that has to match a value. -/
def letExpression (g : Grammar) (braces : Bool) : Parser Tree := do
  let sign ← word "let"
  let matched ← alternatives g
  let _ ← operator "="
  let value ← continued g braces (← g.operand braces) .compare
  return .seq [sign, matched.tree, .operator "=", value.tree]

/-- An arm of a choice: its pattern, its guard, its value, and the comma after it. The comma may be
missing after a block and at the end. -/
def arm (g : Grammar) : Parser Tree := do
  let attributes := Attribute.outer (← outerAttributes g)
  let matched ← alternatives g
  let guard ←
    if ← seesWord "if" then
      let sign ← word "if"
      pure [sign, ← g.expression]
    else pure []
  let arrow ← operator "=>"
  let body ← g.standalone
  let comma ←
    if body.form != .block && !(← atEnd) then some <$> operator "," else operator? ","
  return .seq (attributes ++ matched.tree :: (guard ++ [arrow, body.tree] ++ comma.toList))

/-- A choice by patterns. -/
def choiceExpression (g : Grammar) : Parser Tree := do
  let sign ← word "match"
  let value ← g.condition
  let (attributes, arms) ← braced g (untilEnd (arm g))
  return .block [sign, value] (Attribute.inner attributes) arms

/-- Whether a closure begins here. -/
def beginsClosure : Parser Bool := do
  if ← peekAny [.operator "|", .word "move", .word "static"] then return true
  if (← seesWord "for") && (← peek2 (.operator "<"))
      && ((← peek3 .lifetime) || (← peek3 (.operator ">"))) then return true
  if (← seesWord "const") && !(← peek2 (.group .brace)) then return true
  return (← seesWord "async") && ((← peek2 (.operator "|")) || (← peek2 (.word "move")))

/-- What may begin a path in an expression. -/
def pathBeginnings : List Expectation :=
  [.identifier, .operator "::", .operator "<", .word "self", .word "Self", .word "super",
    .word "crate"]

/-- An expression without operators before, after or between its parts. -/
def atom (g : Grammar) (braces : Bool) : Parser Expression := do
  let plain (p : Parser Tree) : Parser Expression := do
    return ⟨← p, .plain⟩
  let asBlock (p : Parser Tree) : Parser Expression := do
    return ⟨← p, .block⟩
  let asyncBody := (← peek2 (.group .brace))
    || ((← peek2 (.word "move")) && (← peek3 (.group .brace)))
  if ← peek .literal then plain literal
  else if (← seesWord "async") && asyncBody then plain (asyncBlock g)
  else if (← seesWord "try") && (← peek2 (.group .brace)) then asBlock (tryBlock g)
  else if ← beginsClosure then plain (closure g braces)
  else if (← seesWord "builtin") && (← peek2 (.operator "#")) then plain builtin
  else if (← peekAny pathBeginnings)
      || ((← seesWord "try") && ((← peek2 (.operator "!")) || (← peek2 (.operator "::")))) then
    pathExpression g braces
  else if ← peek (.group .parenthesis) then plain (bracketedExpression g)
  else if ← seesWord "break" then plain (breakExpression g braces)
  else if ← seesWord "continue" then
    let sign ← word "continue"
    let name ← lifetime?
    return ⟨.seq (sign :: (name.map Tree.lifetime).toList), .plain⟩
  else if ← seesWord "return" then plain (withValue g "return")
  else if ← seesWord "become" then
    plain (verbatim (do
      let _ ← word "become"
      let _ ← g.expression))
  else if ← peek (.group .bracket) then plain (arrayExpression g)
  else if ← seesWord "let" then plain (letExpression g braces)
  else if ← seesWord "if" then asBlock (conditional g)
  else if ← seesWord "while" then asBlock (whileLoop g)
  else if ← seesWord "for" then asBlock (forLoop g)
  else if ← seesWord "loop" then asBlock (endlessLoop g)
  else if ← seesWord "match" then asBlock (choiceExpression g)
  else if ← seesWord "yield" then plain (withValue g "yield")
  else if ← seesWord "unsafe" then asBlock (wordBlock g "unsafe")
  else if ← seesWord "const" then asBlock (wordBlock g "const")
  else if ← peek (.group .brace) then asBlock (block g)
  else if ← seesOperator ".." then
    let (sign, closed) ← rangeLimits
    return ⟨.seq (sign :: (← rangeEnd g braces closed)), .range⟩
  else if ← seesWord "_" then plain (word "_")
  else if ← peek .lifetime then asBlock (labelled g)
  else fail (.expected [.phrase "an expression"])

/-- Whether a tree joins two operands, or an operand and the type that it is cast to. -/
def joinsOperands (tree : Tree) : Bool :=
  tree.tokens == [.ident "as"] || tree.tokens == Token.operator "="
    || binaryOperators.any fun (symbols, _) => tree.tokens == Token.operator symbols

/-- An expression with the attributes that stand before it. They belong to its leftmost operand, and
those of a struct literal stand inside the literal, before its path. -/
def attributed (attributes : List Tree) : Tree → Tree
  | .record (.seq before) body => .record (.seq (attributes ++ before)) body
  | .record target body => .record (.seq (attributes ++ [target])) body
  | .seq (left :: sign :: rest) =>
    if joinsOperands sign then .seq (attributed attributes left :: sign :: rest)
    else .seq (attributes ++ [.seq (left :: sign :: rest)])
  | tree => .seq (attributes ++ [tree])

/-- An operand: signs before an expression with its calls, fields and indices. -/
def operandOf (g : Grammar) (braces : Bool) : Parser Expression := do
  let attributes := Attribute.outer (← outerAttributes g)
  if ← seesOperator "&" then
    let _ ← operator "&"
    let raw := (← seesWord "raw") && ((← peek2 (.word "mut")) || (← peek2 (.word "const")))
    let modifiers ←
      if raw then
        let _ ← word "raw"
        pure [Tree.word "raw", .word (← anyWord)]
      else pure (← word? "mut").toList
    let inner ← g.operand braces
    return ⟨.seq (attributes ++ .operator "&" :: (modifiers ++ [inner.tree])), .plain⟩
  else if ← peekAny [.operator "*", .operator "!", .operator "-"] then
    let sign ←
      if ← seesOperator "*" then operator "*"
      else if ← seesOperator "!" then operator "!"
      else operator "-"
    let inner ← g.operand braces
    return ⟨.seq (attributes ++ [sign, inner.tree]), .plain⟩
  else
    let start ← place
    let whole ← trailers g (← atom g braces)
    if attributes.isEmpty then return whole
    else if whole.form == .range then failAt start .attributesOnRange
    else return ⟨attributed attributes whole.tree, whole.form⟩

/-- An expression that ends at its block when it begins with one; any other one goes on with
operators. -/
def standaloneOf (g : Grammar) : Parser Expression := do
  let attributes := Attribute.outer (← outerAttributes g)
  let binding := (← seesWord "for") && (← peek2 (.operator "<"))
    && ((← peek3 .lifetime) || (← peek3 (.operator ">")))
  let asBlock (p : Parser Tree) : Parser Expression := do
    return ⟨← p, .block⟩
  let first ←
    if ← seesWord "if" then asBlock (conditional g)
    else if ← seesWord "while" then asBlock (whileLoop g)
    else if (← seesWord "for") && !binding then asBlock (forLoop g)
    else if ← seesWord "loop" then asBlock (endlessLoop g)
    else if ← seesWord "match" then asBlock (choiceExpression g)
    else if (← seesWord "try") && (← peek2 (.group .brace)) then asBlock (tryBlock g)
    else if ← seesWord "unsafe" then asBlock (wordBlock g "unsafe")
    else if (← seesWord "const") && (← peek2 (.group .brace)) then asBlock (wordBlock g "const")
    else if ← peek (.group .brace) then asBlock (block g)
    else if ← peek .lifetime then asBlock (labelled g)
    else g.operand true
  let put (e : Expression) : Expression :=
    if attributes.isEmpty then e else ⟨attributed attributes e.tree, e.form⟩
  if first.form != .block then continued g true (put first) .lowest
  else if ((← seesOperator ".") && !(← seesOperator "..")) || (← seesOperator "?") then
    continued g true (put (← trailers g first)) .lowest
  else return put first

end Forwarding.Grammar
