import Forwarding.Token.Lexer
/-!
What a reader of lexemes can look for: a word, an operator, an identifier, a literal, a group. Each
expectation has a label for messages and a test on the lexemes ahead.
-/

namespace Forwarding.Grammar

/-- Words that are no identifiers. -/
def keywords : List String :=
  ["_", "abstract", "as", "async", "await", "become", "box", "break", "const", "continue", "crate",
    "do", "dyn", "else", "enum", "extern", "false", "final", "fn", "for", "if", "impl", "in", "let",
    "loop", "macro", "match", "mod", "move", "mut", "override", "priv", "pub", "ref", "return",
    "self", "Self", "static", "struct", "super", "trait", "true", "try", "type", "typeof", "unsafe",
    "unsized", "use", "virtual", "where", "while", "yield"]

/-- Whether a word may name something. -/
def isIdentifier (text : String) : Bool :=
  !keywords.contains text

/-- Something that may stand next. -/
inductive Expectation where
  | word (text : String)
  | operator (symbols : String)
  /-- An identifier that is no keyword. -/
  | identifier
  | lifetime
  | literal
  | stringLiteral
  | integerLiteral
  | group (delimiter : Delimiter)
  /-- Something that only a message speaks of. -/
  | phrase (text : String)
  deriving Repr, DecidableEq

namespace Expectation

/-- The name of an expectation in a message. -/
def label : Expectation → String
  | word text => "`" ++ text ++ "`"
  | operator symbols => "`" ++ symbols ++ "`"
  | identifier => "identifier"
  | lifetime => "lifetime"
  | literal => "literal"
  | stringLiteral => "string literal"
  | integerLiteral => "integer literal"
  | group .parenthesis => "parentheses"
  | group .bracket => "square brackets"
  | group .brace => "curly braces"
  | phrase text => text

end Expectation

/-- The lexemes after an operator that stands first; all its characters but the last are joint. -/
def dropOperator : List Char → List Lexeme → Option (List Lexeme)
  | [c], .leaf (.punct symbol _) _ :: rest =>
    if symbol == c && c != Token.apostrophe then some rest else none
  | c :: more, .leaf (.punct symbol joint) _ :: rest =>
    if symbol == c && joint then dropOperator more rest else none
  | _, _ => none

/-- The lexemes after a lifetime that stands first, and its name. -/
def dropLifetime : List Lexeme → Option (String × List Lexeme)
  | .leaf (.punct symbol true) _ :: .leaf (.ident name) _ :: rest =>
    if symbol == Token.apostrophe then some (name, rest) else none
  | _ => none

/-- The tokens of a literal that stands first, and the lexemes after it. A minus sign belongs to a
number. -/
def dropLiteral : List Lexeme → Option (List Token × List Lexeme)
  | .leaf (.literal text) _ :: rest => some ([.literal text], rest)
  | .leaf (.ident text) _ :: rest =>
    if text == "true" || text == "false" then some ([.ident text], rest) else none
  | .leaf (.punct symbol _) _ :: .leaf (.literal text) _ :: rest =>
    if symbol == '-' && ((Literal.integer? text).isSome || Literal.isFraction text) then
      some ([.punct '-' false, .literal text], rest)
    else none
  | _ => none

/-- Whether an expectation is met by the lexemes ahead. -/
def sees (ahead : List Lexeme) : Expectation → Bool
  | .word text =>
    match ahead with
    | .leaf (.ident found) _ :: _ => found == text
    | _ => false
  | .operator symbols => (dropOperator symbols.toList ahead).isSome
  | .identifier =>
    match ahead with
    | .leaf (.ident found) _ :: _ => isIdentifier found
    | _ => false
  | .lifetime => (dropLifetime ahead).isSome
  | .literal => (dropLiteral ahead).isSome
  | .stringLiteral =>
    match ahead with
    | .leaf (.literal text) _ :: _ => (Literal.text? text).isSome
    | _ => false
  | .integerLiteral =>
    match dropLiteral ahead with
    | some (tokens, _) =>
      match tokens.getLast? with
      | some (.literal text) => (Literal.integer? text).isSome
      | _ => false
    | none => false
  | .group delimiter =>
    match ahead with
    | .group found _ _ _ :: _ => found == delimiter
    | _ => false
  | .phrase _ => false

/-- Whether a word of any kind, keyword or not, stands next. -/
def seesAnyWord (ahead : List Lexeme) : Bool :=
  match ahead with
  | .leaf (.ident _) _ :: _ => true
  | _ => false

/-- The lexemes after the first one; a lifetime counts as one. -/
def skipOne (ahead : List Lexeme) : List Lexeme :=
  match dropLifetime ahead with
  | some (_, rest) => rest
  | none => ahead.drop 1

end Forwarding.Grammar
