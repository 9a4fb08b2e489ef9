/-!
Tokens of source text, and the one way in which they are printed: a space between two tokens,
except after a punctuation character that joins the next one and next to the inner side of round and
square brackets.
-/

namespace Forwarding

/-- The three kinds of brackets that enclose a group. -/
inductive Delimiter where
  | parenthesis
  | bracket
  | brace
  deriving Repr, DecidableEq

namespace Delimiter

/-- The opening bracket. -/
def opening : Delimiter → Char
  | parenthesis => '('
  | bracket => '['
  | brace => Char.ofNat 0x7b

/-- The closing bracket. -/
def closing : Delimiter → Char
  | parenthesis => ')'
  | bracket => ']'
  | brace => Char.ofNat 0x7d

/-- The kind of bracket that a character opens. -/
def ofOpening? (c : Char) : Option Delimiter :=
  if c == '(' then some parenthesis
  else if c == '[' then some bracket
  else if c == Char.ofNat 0x7b then some brace
  else none

/-- The kind of bracket that a character closes. -/
def ofClosing? (c : Char) : Option Delimiter :=
  if c == ')' then some parenthesis
  else if c == ']' then some bracket
  else if c == Char.ofNat 0x7d then some brace
  else none

end Delimiter

/-- A token without its place in the text. -/
inductive Token where
  /-- An identifier or keyword, with the mark of a raw identifier if it has one. -/
  | ident (text : String)
  /-- One punctuation character; a joint one belongs to an operator that goes on. -/
  | punct (symbol : Char) (joint : Bool)
  /-- A literal as written. -/
  | literal (text : String)
  | opening (delimiter : Delimiter)
  | closing (delimiter : Delimiter)
  deriving Repr, DecidableEq

namespace Token

/-- The apostrophe that begins a lifetime. -/
def apostrophe : Char := Char.ofNat 39

/-- The characters of a token. -/
def chars : Token → List Char
  | ident text => text.toList
  | punct symbol _ => [symbol]
  | literal text => text.toList
  | opening delimiter => [delimiter.opening]
  | closing delimiter => [delimiter.closing]

/-- Whether a space separates two neighbouring tokens. -/
def spaced : Token → Token → Bool
  | _, closing delimiter => delimiter == .brace
  | opening delimiter, _ => delimiter == .brace
  | punct _ joint, _ => !joint
  | _, _ => true

/-- The characters of a sequence of tokens. -/
def renderChars : List Token → List Char
  | [] => []
  | [a] => a.chars
  | a :: b :: rest => a.chars ++ (if spaced a b then [' '] else []) ++ renderChars (b :: rest)

/-- The text of a sequence of tokens. -/
def render (tokens : List Token) : String :=
  String.ofList (renderChars tokens)

/-- An operator as one unit: every character but the last is joint. -/
def operatorChars : List Char → List Token
  | [] => []
  | [c] => [punct c false]
  | c :: rest => punct c true :: operatorChars rest

/-- An operator as one unit. -/
def operator (symbols : String) : List Token :=
  operatorChars symbols.toList

/-- A lifetime: an apostrophe joined to its name. -/
def lifetime (name : String) : List Token :=
  [punct apostrophe true, ident name]

end Token

/-- An identifier's text without the mark of a raw identifier. -/
def unraw (name : String) : String :=
  match name.toList with
  | 'r' :: '#' :: rest => String.ofList rest
  | _ => name

end Forwarding
