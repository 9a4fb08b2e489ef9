import Forwarding.Grammar.Error
import Forwarding.Tree
/-!
Parsers over lexemes. A parser reads the lexemes of one group, or of a whole text, from left to
right. What a group leaves unread is no error at once: the first such leftover is remembered and
reported after the whole text has been read.
-/

namespace Forwarding.Grammar

/-- The state of a reader. -/
structure Input where
  /-- The lexemes not yet read, up to the end of the group. -/
  rest : List Lexeme
  /-- The place that is named when the group ends too early. -/
  stop : Position
  /-- The first lexeme that a group left unread, and the kind of that group. -/
  leftover : Option (Position × Delimiter)
  deriving Repr

/-- A reader of lexemes. -/
abbrev Parser := StateT Input (Except ParseError)

namespace Parser

variable {α β : Type}

/-- The place of the next lexeme, or of the end. -/
def place : Parser Position := do
  let input ← get
  return (input.rest.head?.map Lexeme.start).getD input.stop

/-- Whether nothing is left to read. -/
def atEnd : Parser Bool :=
  return (← get).rest.isEmpty

/-- Fails here. -/
def fail (complaint : Complaint) : Parser α := do
  throw ⟨← place, ← atEnd, complaint⟩

/-- Fails at some place that is not an end. -/
def failAt (place : Position) (complaint : Complaint) : Parser α :=
  throw ⟨place, false, complaint⟩

/-- Whether an expectation is met next. -/
def peek (expectation : Expectation) : Parser Bool :=
  return sees (← get).rest expectation

/-- Whether an expectation is met after one lexeme. -/
def peek2 (expectation : Expectation) : Parser Bool :=
  return sees (skipOne (← get).rest) expectation

/-- Whether an expectation is met after two lexemes. -/
def peek3 (expectation : Expectation) : Parser Bool :=
  return sees (skipOne (skipOne (← get).rest)) expectation

/-- Whether one of some expectations is met next. -/
def peekAny (expectations : List Expectation) : Parser Bool :=
  return expectations.any (sees (← get).rest)

/-- Whether an operator stands next. -/
def seesOperator (symbols : String) : Parser Bool :=
  peek (.operator symbols)

/-- Whether a word stands next. -/
def seesWord (text : String) : Parser Bool :=
  peek (.word text)

/-- Fails with those of some alternatives that are not met here. -/
def failExpecting (alternatives : List Expectation) : Parser α := do
  let rest := (← get).rest
  fail (.expected (alternatives.filter fun e => !sees rest e))

/-- Leaves so many lexemes behind. -/
def skip (count : Nat) : Parser Unit :=
  modify fun input => { input with rest := input.rest.drop count }

/-- Reads a word. -/
def word (text : String) : Parser Tree := do
  if ← seesWord text then
    skip 1
    return .word text
  else fail (.expected [.word text])

/-- Reads an operator. A missing operator is reported without a word on the end of the text. -/
def operator (symbols : String) : Parser Tree := do
  let input ← get
  match dropOperator symbols.toList input.rest with
  | some rest =>
    set { input with rest }
    return .operator symbols
  | none => failAt (← place) (.expected [.operator symbols])

/-- Reads a word if it stands next. -/
def word? (text : String) : Parser (Option Tree) := do
  if ← seesWord text then some <$> word text else return none

/-- Reads an operator if it stands next. -/
def operator? (symbols : String) : Parser (Option Tree) := do
  if ← seesOperator symbols then some <$> operator symbols else return none

/-- Reads a word of any kind. -/
def anyWord : Parser String := do
  match (← get).rest with
  | .leaf (.ident text) _ :: _ =>
    skip 1
    return text
  | _ => fail (.expected [.phrase "ident"])

/-- Reads an identifier that is no keyword. -/
def identifier : Parser String := do
  match (← get).rest with
  | .leaf (.ident text) _ :: _ =>
    if isIdentifier text then
      skip 1
      return text
    else fail (.keyword text)
  | _ => fail (.expected [.identifier])

/-- Reads a lifetime. -/
def lifetime : Parser String := do
  let input ← get
  match dropLifetime input.rest with
  | some (name, rest) =>
    set { input with rest }
    return name
  | none => fail (.expected [.lifetime])

/-- Reads a lifetime if one stands next. -/
def lifetime? : Parser (Option String) := do
  if ← peek .lifetime then some <$> lifetime else return none

/-- Reads a literal. -/
def literal : Parser Tree := do
  let input ← get
  match dropLiteral input.rest with
  | some (tokens, rest) =>
    set { input with rest }
    return .ofTokens tokens
  | none => fail (.expected [.literal])

/-- Reads a string literal of the text family and gives its spelling and what it says. -/
def stringLiteral : Parser (String × String) := do
  match (← get).rest with
  | .leaf (.literal spelling) _ :: _ =>
    match Literal.text? spelling with
    | some said =>
      skip 1
      return (spelling, said)
    | none => fail (.expected [.stringLiteral])
  | _ => fail (.expected [.stringLiteral])

/-- Reads an integer literal, a minus sign included. -/
def integerLiteral : Parser (Bool × String) := do
  let input ← get
  match dropLiteral input.rest with
  | some ([.literal spelling], rest) =>
    if (Literal.integer? spelling).isSome then
      set { input with rest }
      return (false, spelling)
    else fail (.expected [.integerLiteral])
  | some ([_, .literal spelling], rest) =>
    if (Literal.integer? spelling).isSome then
      set { input with rest }
      return (true, spelling)
    else fail (.expected [.integerLiteral])
  | _ => fail (.expected [.integerLiteral])

/-- Runs a parser on the lexemes of a group and remembers the first lexeme that it leaves. -/
def within (delimiter : Delimiter) (body : List Lexeme) (stop : Position) (p : Parser α) :
    Parser α := do
  let input ← get
  set { input with rest := body, stop }
  let value ← p
  let inner ← get
  let leftover := inner.leftover <|> inner.rest.head?.map fun lexeme => (lexeme.start, delimiter)
  set { input with leftover }
  return value

/-- Reads a group of one kind. -/
def grouped (delimiter : Delimiter) (p : Parser α) : Parser α := do
  match (← get).rest with
  | .group found body _ stop :: _ =>
    if found = delimiter then
      skip 1
      within delimiter body stop p
    else fail (.expected [.group delimiter])
  | _ => fail (.expected [.group delimiter])

/-- The tree of a group whose content a parser reads. -/
def groupedTree (delimiter : Delimiter) (p : Parser (List Tree)) : Parser Tree := do
  return .group delimiter (← grouped delimiter p)

/-- Reads everything up to the end of the group. -/
def remaining : Parser Tree := do
  let input ← get
  set { input with rest := [] }
  return .ofTokens (Lexeme.tokensOf input.rest)

/-- Reads a group of any kind without looking into it. -/
def anyGroup : Parser (Delimiter × Tree) := do
  match (← get).rest with
  | .group delimiter body start stop :: _ =>
    skip 1
    return (delimiter, .ofTokens (Lexeme.tokens (.group delimiter body start stop)))
  | _ => fail (.expected [.phrase "delimiter"])

/-- Runs a parser and gives back what it read as it was written. -/
def verbatim (p : Parser α) : Parser Tree := do
  let before := (← get).rest
  let _ ← p
  let after := (← get).rest
  return .ofTokens (Lexeme.tokensOf (before.take (before.length - after.length)))

/-- Runs a parser without moving. -/
def lookingAhead (p : Parser α) : Parser (Option α) := do
  let input ← get
  match p.run input with
  | .ok (value, _) => return some value
  | .error _ => return none

/-- Runs a parser, and stays where it is when that fails. -/
def attempt (p : Parser α) : Parser (Option α) := do
  let input ← get
  match p.run input with
  | .ok (value, after) =>
    set after
    return some value
  | .error _ => return none

/-- Repeats a step until it gives nothing, at most so many times. -/
def repeatUpTo (step : Parser (Option α)) : Nat → Parser (List α)
  | 0 => return []
  | count + 1 => do
    match ← step with
    | none => return []
    | some value => return value :: (← repeatUpTo step count)

/-- Repeats a step until it gives nothing. Every step reads a lexeme, so the lexemes ahead bound the
number of steps. -/
def repeated (step : Parser (Option α)) : Parser (List α) := do
  repeatUpTo step ((← get).rest.length + 1)

/-- Reads elements up to the end of the group. -/
def untilEnd (element : Parser α) : Parser (List α) :=
  repeated do
    if ← atEnd then return none
    some <$> element

/-- Elements with a separator between them, at most so many. -/
def punctuatedUpTo (separator : String) (stop : Parser Bool) (element : Parser α) :
    Nat → Parser (List α × Bool)
  | 0 => return ([], true)
  | count + 1 => do
    if ← stop then return ([], true)
    let value ← element
    if ← stop then return ([value], false)
    let _ ← operator separator
    let (values, trailing) ← punctuatedUpTo separator stop element count
    return (value :: values, trailing)

/-- Reads elements with a separator between them until `stop` holds, which may be before an element
or after one. The flag tells of a separator after the last element. -/
def punctuated (separator : String) (stop : Parser Bool) (element : Parser α) :
    Parser (List α × Bool) := do
  punctuatedUpTo separator stop element ((← get).rest.length + 1)

/-- Trees with a separator between them, and after them if the flag says so. -/
def join (separator : String) (trees : List Tree) (trailing : Bool) : List Tree :=
  Tree.separated (.operator separator) trees
    ++ (if trailing && !trees.isEmpty then [.operator separator] else [])

/-- Reads trees separated by commas up to the end of the group. -/
def commaList (element : Parser Tree) : Parser (List Tree) := do
  let (trees, trailing) ← punctuated "," atEnd element
  return join "," trees trailing

/-- Reads elements joined by a plus sign. `stop` is asked before each element; the list also ends
after an element that no plus sign follows. The flag tells of a plus sign after the last one. -/
def sumUpTo (stop : Parser Bool) (element : Parser α) : Nat → Parser (List α × Bool)
  | 0 => return ([], true)
  | count + 1 => do
    if ← stop then return ([], true)
    let value ← element
    if ← seesOperator "+" then
      let _ ← operator "+"
      let (values, trailing) ← sumUpTo stop element count
      return (value :: values, trailing)
    else return ([value], false)

/-- Reads elements joined by a plus sign until `stop` holds or no plus sign follows. -/
def sum (stop : Parser Bool) (element : Parser α) : Parser (List α × Bool) := do
  sumUpTo stop element ((← get).rest.length + 1)

/-- The tree of an optional part. -/
def optional (part : Option Tree) : List Tree :=
  part.toList

end Parser

/-- Runs a parser on all lexemes of a text. A leftover inside a group is reported before one at the
end. -/
def Parser.runAll {α : Type} (p : Parser α) (lexemes : List Lexeme) (stop : Position) :
    Except ParseError α := do
  let (value, input) ← p.run ⟨lexemes, stop, none⟩
  match input.leftover with
  | some (place, delimiter) => throw ⟨place, false, .leftover (some delimiter)⟩
  | none =>
    match input.rest with
    | lexeme :: _ => throw ⟨lexeme.start, false, .leftover none⟩
    | [] => return value

end Forwarding.Grammar
