import Forwarding.Text.Printable
/-!
Quoted text: a text between double quotes, with the quote, the backslash and every character that
has no shape of its own written as an escape. Two forms exist. They differ only in how they write
NUL before an octal digit, where the short escape would read as part of a longer one.
-/

namespace Forwarding.Text

/-- The digits of a number in base 16, lower case, without leading zeros. -/
def hexDigits (n : Nat) : List Char :=
  Nat.toDigits 16 n

/-- The escape that gives a character by its code point. -/
def codePointEscape (c : Char) : List Char :=
  ['\\', 'u', Char.ofNat 0x7b] ++ hexDigits c.toNat ++ [Char.ofNat 0x7d]

/-- A character as it stands between double quotes. -/
def escapeChar (c : Char) : List Char :=
  if c == '\t' then ['\\', 't']
  else if c == '\r' then ['\\', 'r']
  else if c == '\n' then ['\\', 'n']
  else if c == '"' then ['\\', '"']
  else if c == '\\' then ['\\', '\\']
  else if c.toNat == 0 then ['\\', '0']
  else if isPrintable c then [c]
  else codePointEscape c

/-- A text as it stands between the quotes of a file name. -/
def escapeName (text : List Char) : List Char :=
  text.flatMap escapeChar

/-- Whether the text goes on with an octal digit. -/
def startsWithOctal : List Char → Bool
  | [] => false
  | c :: _ => '0' ≤ c && c ≤ '7'

/-- A text as it stands between the quotes of a string literal: NUL before an octal digit is
written with both its hexadecimal digits. -/
def escapeLiteral : List Char → List Char
  | [] => []
  | c :: rest =>
    (if c.toNat == 0 && startsWithOctal rest then ['\\', 'x', '0', '0'] else escapeChar c)
      ++ escapeLiteral rest

/-- A file name in double quotes. -/
def quoteName (name : String) : String :=
  String.ofList ('"' :: escapeName name.toList ++ ['"'])

/-- A text as a string literal. -/
def quoteLiteral (text : String) : String :=
  String.ofList ('"' :: escapeLiteral text.toList ++ ['"'])

end Forwarding.Text
