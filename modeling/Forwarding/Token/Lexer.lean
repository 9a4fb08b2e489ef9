import Forwarding.Source.Position
import Forwarding.Text.Blank
import Forwarding.Text.Quoted
import Forwarding.Token.Basic
import Forwarding.Token.Literal
/-!
From text to lexemes. A flat scan first gives tokens with their places and the place of the first
character that begins no token; then the brackets are matched. A text that does not lex is answered
by the place of the earliest fault: a closing bracket of the wrong kind, a character that begins no
token, or at last an opening bracket that is never closed.
-/

namespace Forwarding

/-- A token of a balanced text with its place, or a group with everything between its brackets. -/
inductive Lexeme where
  | leaf (token : Token) (start : Position)
  | group (delimiter : Delimiter) (body : List Lexeme) (start stop : Position)
  deriving Repr

namespace Lexeme

/-- Where a lexeme begins. -/
def start : Lexeme → Position
  | leaf _ position => position
  | group _ _ position _ => position

mutual

/-- The tokens of a lexeme, brackets included. -/
def tokens : Lexeme → List Token
  | leaf token _ => [token]
  | group delimiter body _ _ => .opening delimiter :: (tokensOf body ++ [.closing delimiter])

/-- The tokens of a sequence of lexemes. -/
def tokensOf : List Lexeme → List Token
  | [] => []
  | lexeme :: rest => lexeme.tokens ++ tokensOf rest

end

mutual

/-- The number of lexemes in a lexeme, itself included. -/
def size : Lexeme → Nat
  | leaf _ _ => 1
  | group _ body _ _ => sizeOf body + 1

/-- The number of lexemes at every depth of a sequence. -/
def sizeOf : List Lexeme → Nat
  | [] => 0
  | lexeme :: rest => lexeme.size + sizeOf rest

end

end Lexeme

namespace Lexer

/-- Whether a text begins with some characters. -/
def startsWith (text : List Char) (start : String) : Bool :=
  start.toList.isPrefixOf text

/-- The text after a block comment; block comments nest. `depth` counts the open ones. -/
def skipBlock : Nat → List Char → Option (List Char)
  | depth, '/' :: '*' :: rest => skipBlock (depth + 1) rest
  | depth, '*' :: '/' :: rest => if depth ≤ 1 then some rest else skipBlock (depth - 1) rest
  | depth, _ :: rest => skipBlock depth rest
  | _, [] => none

/-- Whether a line comment without meaning begins here. -/
def isPlainLine (text : List Char) : Bool :=
  startsWith text "//" && (!startsWith text "///" || startsWith text "////")
    && !startsWith text "//!"

/-- Whether a block comment without meaning begins here. -/
def isPlainBlock (text : List Char) : Bool :=
  startsWith text "/**/" || (startsWith text "/*"
    && (!startsWith text "/**" || startsWith text "/***") && !startsWith text "/*!")

/-- Blank characters between tokens: white space and the two marks of writing direction. -/
def isSeparator (c : Char) : Bool :=
  Text.isBlank c || c.toNat == 0x200e || c.toNat == 0x200f

/-- The rest of a line, and the text from its line feed on; a carriage return before the line feed
belongs to neither. -/
def takeLine : List Char → List Char × List Char
  | [] => ([], [])
  | '\n' :: rest => ([], '\n' :: rest)
  | '\r' :: '\n' :: rest => ([], '\n' :: rest)
  | c :: rest =>
    let (line, after) := takeLine rest
    (c :: line, after)

/-- The text after blanks and comments without meaning. The fuel bounds the number of steps by the
length of the text. -/
def skipBlanks : Nat → List Char → List Char
  | 0, text => text
  | fuel + 1, text =>
    if isPlainLine text then skipBlanks fuel (takeLine text).2
    else if isPlainBlock text then
      match skipBlock 0 text with
      | some rest => skipBlanks fuel rest
      | none => text
    else match text with
      | c :: rest => if isSeparator c then skipBlanks fuel rest else text
      | [] => []

/-- A comment that documents an item: whether it is an inner one, what it says, and the text after
it. -/
def docComment? (text : List Char) : Option (Bool × List Char × List Char) :=
  let block (inner : Bool) := (skipBlock 0 text).map fun rest =>
    let body := text.take (text.length - rest.length)
    (inner, (body.drop 3).take (body.length - 5), rest)
  let line (inner : Bool) :=
    let (said, rest) := takeLine (text.drop 3)
    some (inner, said, rest)
  let found :=
    if startsWith text "//!" then line true
    else if startsWith text "/*!" then block true
    else if startsWith text "///" then if startsWith text "////" then none else line false
    else if startsWith text "/**" && !startsWith text "/***" then block false
    else none
  match found with
  | some (inner, said, rest) => if bareReturn said then none else some (inner, said, rest)
  | none => none
where
  /-- A carriage return that stands before no line feed. -/
  bareReturn : List Char → Bool
    | [] => false
    | c :: rest => (c == '\r' && rest.head? != some '\n') || bareReturn rest

/-- The tokens of a documentation comment: an attribute that holds its text. -/
def docTokens (inner : Bool) (said : List Char) : List Token :=
  [.punct '#' false] ++ (if inner then [.punct '!' false] else [])
    ++ [.opening .bracket, .ident "doc", .punct '=' false,
      .literal (Text.quoteLiteral (String.ofList said)), .closing .bracket]

/-- The text after a punctuation character; the slash of a comment is none. -/
def punct? (text : List Char) : Option (Char × List Char) :=
  if startsWith text "//" || startsWith text "/*" then none
  else match text with
    | c :: rest =>
      if "~!@#$%^&*-=+|;:,<.>/?".toList.contains c || c == Token.apostrophe then some (c, rest)
      else none
    | [] => none

/-- An identifier, raw or not: its text and the text after it. -/
def word? (text : List Char) : Option (List Char × List Char) :=
  let body := if startsWith text "r#" then text.drop 2 else text
  match Literal.skipIdent body with
  | none => none
  | some rest =>
    let name := body.take (body.length - rest.length)
    if startsWith text "r#" then
      if ["_", "super", "self", "Self", "crate"].any fun word => name == word.toList then none
      else some ('r' :: '#' :: name, rest)
    else some (name, rest)

/-- Whether the text begins like a literal with letters before its quote. -/
def isLettered (text : List Char) : Bool :=
  ["r\"", "r#\"", "r##", "b\"", "br\"", "br#", "c\"", "cr\"", "cr#"].any (startsWith text ·)
    || text.take 2 == ['b', Token.apostrophe]

/-- A punctuation character with its jointness: it is joint to a punctuation character that follows
at once. An apostrophe is joint to the identifier of a lifetime. -/
def punctuation? (text : List Char) : Option (Token × List Char) :=
  match punct? text with
  | none => none
  | some (c, rest) =>
    if c == Token.apostrophe then
      match word? rest with
      | none => none
      | some (_, after) =>
        let closes := after.head? == some Token.apostrophe
          || (after.head? == some '#' && !startsWith rest "r#")
        if closes then none else some (.punct c true, rest)
    else some (.punct c (punct? rest).isSome, rest)

/-- The text that stands for an earlier error. -/
def errorMark : String := "(/*ERROR*/)"

/-- The token that begins a text, brackets aside. -/
def leaf? (text : List Char) : Option (Token × List Char) :=
  match Literal.skip? text with
  | some rest => some (.literal (String.ofList (text.take (text.length - rest.length))), rest)
  | none =>
    match punctuation? text with
    | some found => some found
    | none =>
      match if isLettered text then none else word? text with
      | some (name, rest) => some (.ident (String.ofList name), rest)
      | none =>
        if startsWith text errorMark then
          some (.literal errorMark, text.drop errorMark.length)
        else none

/-- The tokens that begin a text and the text after them; a documentation comment gives several. -/
def next? (text : List Char) : Option (List Token × List Char) :=
  match docComment? text with
  | some (inner, said, rest) => some (docTokens inner said, rest)
  | none =>
    match text with
    | [] => none
    | c :: rest =>
      match if startsWith text errorMark then none else Delimiter.ofOpening? c with
      | some delimiter => some ([.opening delimiter], rest)
      | none =>
        match Delimiter.ofClosing? c with
        | some delimiter => some ([.closing delimiter], rest)
        | none => (leaf? text).map fun (token, after) => ([token], after)

/-- The tokens of a text with their places, up to the first character that begins none. -/
structure Scan where
  tokens : List (Token × Position)
  failure : Option Position
  deriving Repr

/-- Scans a text from a place on. The fuel bounds the number of tokens by the length of the text. -/
def scan : Nat → Position → List Char → Scan
  | 0, position, _ => ⟨[], some position⟩
  | fuel + 1, position, text =>
    let trimmed := skipBlanks text.length text
    let place := position.advance (text.take (text.length - trimmed.length))
    if trimmed.isEmpty then ⟨[], none⟩
    else match next? trimmed with
      | none => ⟨[], some place⟩
      | some (tokens, rest) =>
        let after := scan fuel
          (place.advance (trimmed.take (trimmed.length - rest.length))) rest
        ⟨tokens.map (·, place) ++ after.tokens, after.failure⟩

/-- An opening bracket whose group is being read, with the lexemes before it, last first. -/
structure Frame where
  delimiter : Delimiter
  start : Position
  before : List Lexeme
  deriving Repr

/-- Matches the brackets of scanned tokens. `current` holds the lexemes of the innermost open group,
last first. -/
def balance (failure : Option Position) :
    List Frame → List Lexeme → List (Token × Position) → Except Position (List Lexeme)
  | stack, current, [] =>
    match failure, stack with
    | some position, _ => .error position
    | none, frame :: _ => .error frame.start
    | none, [] => .ok current.reverse
  | stack, current, (.opening delimiter, position) :: rest =>
    balance failure (⟨delimiter, position, current⟩ :: stack) [] rest
  | stack, current, (.closing delimiter, position) :: rest =>
    match stack with
    | [] => .error position
    | frame :: outer =>
      if frame.delimiter = delimiter then
        balance failure outer
          (.group delimiter current.reverse frame.start position :: frame.before) rest
      else .error position
  | stack, current, (token, position) :: rest =>
    balance failure stack (.leaf token position :: current) rest

/-- The lexemes of a text, or the place at which it does not lex. A byte order mark at the very
beginning takes a column and nothing else. -/
def lex (text : List Char) : Except Position (List Lexeme) :=
  let (position, body) :=
    if text.head? == some (Char.ofNat 0xfeff) then
      (Position.first.step (Char.ofNat 0xfeff), text.drop 1)
    else (Position.first, text)
  let scanned := scan (body.length + 1) position body
  balance scanned.failure [] [] scanned.tokens

end Lexer

end Forwarding
