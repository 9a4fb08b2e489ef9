/-!
JSON values and their indented text.
-/

namespace Forwarding

/-- A JSON value. -/
inductive Json where
  | null
  | boolean (value : Bool)
  /-- A number as it is written. -/
  | number (spelling : String)
  | text (value : String)
  | list (elements : List Json)
  /-- Named values in their order. -/
  | record (fields : List (String × Json))
  deriving Repr, Inhabited

namespace Json

/-- A whole number. -/
def integer (value : Int) : Json :=
  number (toString value)

/-- A digit in base 16. -/
def hexDigit (n : Nat) : Char :=
  Nat.digitChar n

/-- A character inside a text. -/
def escape (c : Char) : List Char :=
  if c == '"' then ['\\', '"']
  else if c == '\\' then ['\\', '\\']
  else if c == '\n' then ['\\', 'n']
  else if c == '\r' then ['\\', 'r']
  else if c == '\t' then ['\\', 't']
  else if c.toNat == 0x8 then ['\\', 'b']
  else if c.toNat == 0xc then ['\\', 'f']
  else if c.toNat < 0x20 then
    ['\\', 'u', '0', '0', hexDigit (c.toNat / 16), hexDigit (c.toNat % 16)]
  else [c]

/-- A text in double quotes. -/
def quote (text : String) : String :=
  String.ofList ('"' :: text.toList.flatMap escape ++ ['"'])

/-- A line break with the indentation of a depth, two spaces for each level. -/
def newline (depth : Nat) : String :=
  String.ofList ('\n' :: List.replicate (2 * depth) ' ')

/-- Lines between brackets. Without lines the brackets touch. -/
def enclose (opening closing : Char) (depth : Nat) (lines : List String) : String :=
  if lines.isEmpty then String.ofList [opening, closing]
  else
    String.singleton opening ++ newline (depth + 1) ++ ("," ++ newline (depth + 1)).intercalate lines
      ++ newline depth ++ String.singleton closing

mutual

/-- The text of a value at a depth. -/
def prettyAt (depth : Nat) : Json → String
  | null => "null"
  | boolean value => if value then "true" else "false"
  | number spelling => spelling
  | text value => quote value
  | list elements => enclose '[' ']' depth (prettyElements (depth + 1) elements)
  | record fields =>
    enclose (Char.ofNat 0x7b) (Char.ofNat 0x7d) depth (prettyFields (depth + 1) fields)

/-- The texts of the elements of a list. -/
def prettyElements (depth : Nat) : List Json → List String
  | [] => []
  | element :: rest => prettyAt depth element :: prettyElements depth rest

/-- The texts of named values. -/
def prettyFields (depth : Nat) : List (String × Json) → List String
  | [] => []
  | (name, value) :: rest => (quote name ++ ": " ++ prettyAt depth value) :: prettyFields depth rest

end

/-- The indented text of a value, without a line break at its end. -/
def pretty (value : Json) : String :=
  prettyAt 0 value

end Json

end Forwarding
