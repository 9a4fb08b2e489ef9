import Forwarding.Text.Identifier
/-!
Literals: where a string, byte, character or number literal ends, and what a string literal or an
integer literal says.

A quoted literal is read by a small machine, one character a step. The machine gives the characters
that the literal stands for together with the text after the closing quote.
-/

namespace Forwarding.Literal

/-- The three families of quoted literals. -/
inductive Family where
  | text
  | bytes
  | cText
  deriving Repr, DecidableEq

/-- Where the reader of a quoted literal stands. -/
inductive Reading where
  | plain
  /-- After a carriage return, which only stands before a line feed. -/
  | carriageReturn
  | backslash
  | hexFirst
  | hexSecond (high : Nat)
  | unicodeOpen
  | unicodeDigits (count value : Nat)
  /-- After a backslash at a line's end: blanks are skipped. -/
  | continuation
  | continuationReturn
  deriving Repr, DecidableEq

/-- The value of a hexadecimal digit. -/
def hexValue? (c : Char) : Option Nat :=
  if c.isDigit then some (c.toNat - '0'.toNat)
  else if 'a' ≤ c && c ≤ 'f' then some (c.toNat - 'a'.toNat + 10)
  else if 'A' ≤ c && c ≤ 'F' then some (c.toNat - 'A'.toNat + 10)
  else none

/-- Whether a number is the code point of a character. -/
def isScalar (code : Nat) : Bool :=
  code < 0xd800 || (0xdfff < code && code < 0x110000)

/-- A character outside an escape. -/
def readPlain (family : Family) (c : Char) : Option (Reading × List Char) :=
  if c == '\r' then some (.carriageReturn, [])
  else if c == '\\' then some (.backslash, [])
  else match family with
    | .text => some (.plain, [c])
    | .bytes => if c.toNat < 0x80 then some (.plain, [c]) else none
    | .cText => if c.toNat == 0 then none else some (.plain, [c])

/-- The character after a backslash. -/
def readEscape (family : Family) (c : Char) : Option (Reading × List Char) :=
  if c == 'n' then some (.plain, ['\n'])
  else if c == 'r' then some (.plain, ['\r'])
  else if c == 't' then some (.plain, ['\t'])
  else if c == '\\' || c == '"' || c == Char.ofNat 39 then some (.plain, [c])
  else if c == 'x' then some (.hexFirst, [])
  else if c == '\n' then some (.continuation, [])
  else if c == '\r' then some (.continuationReturn, [])
  else if c == '0' then if family == .cText then none else some (.plain, [Char.ofNat 0])
  else if c == 'u' then if family == .bytes then none else some (.unicodeOpen, [])
  else none

/-- One step of the reader; the characters are those that the step completes. -/
def read (family : Family) (reading : Reading) (c : Char) : Option (Reading × List Char) :=
  match reading with
  | .plain => readPlain family c
  | .carriageReturn => if c == '\n' then some (.plain, ['\n']) else none
  | .backslash => readEscape family c
  | .hexFirst =>
    match hexValue? c with
    | some high => if family == .text && 8 ≤ high then none else some (.hexSecond high, [])
    | none => none
  | .hexSecond high =>
    match hexValue? c with
    | some low =>
      if family == .cText && high == 0 && low == 0 then none
      else some (.plain, [Char.ofNat (16 * high + low)])
    | none => none
  | .unicodeOpen => if c == Char.ofNat 0x7b then some (.unicodeDigits 0 0, []) else none
  | .unicodeDigits count value =>
    if c == '_' && 0 < count then some (.unicodeDigits count value, [])
    else if c == Char.ofNat 0x7d && 0 < count then
      if isScalar value && !(family == .cText && value == 0) then
        some (.plain, [Char.ofNat value])
      else none
    else match hexValue? c with
      | some digit =>
        if count == 6 then none else some (.unicodeDigits (count + 1) (16 * value + digit), [])
      | none => none
  | .continuation =>
    if c == ' ' || c == '\t' || c == '\n' then some (.continuation, [])
    else if c == '\r' then some (.continuationReturn, [])
    else readPlain family c
  | .continuationReturn => if c == '\n' then some (.continuation, []) else none

/-- Whether a double quote ends the literal here. -/
def Reading.closes : Reading → Bool
  | plain => true
  | continuation => true
  | _ => false

/-- The characters up to the closing double quote, and the text after it. -/
def readQuoted (family : Family) : Reading → List Char → Option (List Char × List Char)
  | _, [] => none
  | reading, c :: rest =>
    if c == '"' && reading.closes then some ([], rest)
    else match read family reading c with
      | none => none
      | some (next, said) =>
        (readQuoted family next rest).map fun (value, after) => (said ++ value, after)

/-- The text after one escape that stands for a character. -/
def skipEscape (family : Family) : Reading → List Char → Option (List Char)
  | _, [] => none
  | reading, c :: rest =>
    match read family reading c with
    | none => none
    | some (.plain, _) => some rest
    | some (.continuation, _) => none
    | some (.continuationReturn, _) => none
    | some (next, _) => skipEscape family next rest

/-- The text after one character between apostrophes, its escape included. -/
def skipCharacter (family : Family) : List Char → Option (List Char)
  | [] => none
  | c :: rest =>
    if c == '\\' then skipEscape family .backslash rest
    else if family == .bytes && 0x80 ≤ c.toNat then none
    else some rest

/-- The text after a character literal, its first apostrophe already read. -/
def readCharacter (family : Family) (text : List Char) : Option (List Char) :=
  match skipCharacter family text with
  | some (c :: rest) => if c == Char.ofNat 39 then some rest else none
  | _ => none

/-- The number of hash signs before the quote that opens a raw string, and the text after it. -/
def rawOpening : List Char → Option (Nat × List Char)
  | '"' :: rest => some (0, rest)
  | '#' :: rest =>
    match rawOpening rest with
    | some (hashes, body) => if hashes < 255 then some (hashes + 1, body) else none
    | none => none
  | _ => none

/-- The text after so many hash signs. -/
def skipHashes : Nat → List Char → Option (List Char)
  | 0, text => some text
  | n + 1, '#' :: rest => skipHashes n rest
  | _ + 1, _ => none

/-- A character that may stand in a raw literal. -/
def allowedRaw (family : Family) (c : Char) : Bool :=
  match family with
  | .text => true
  | .bytes => c.toNat < 0x80
  | .cText => c.toNat != 0

/-- The characters of a raw literal up to its closing quote and hash signs, and the text after. -/
def readRaw (family : Family) (hashes : Nat) : List Char → Option (List Char × List Char)
  | [] => none
  | c :: rest =>
    let closed := if c == '"' then skipHashes hashes rest else none
    match closed with
    | some after => some ([], after)
    | none =>
      if !allowedRaw family c then none
      else if c == '\r' && rest.head? != some '\n' then none
      else (readRaw family hashes rest).map fun (value, after) => (c :: value, after)

/-- The rest after the characters of an identifier, if one begins here. -/
def skipIdent : List Char → Option (List Char)
  | [] => none
  | c :: rest => if Text.isIdentStart c then some (rest.dropWhile Text.isIdentContinue) else none

/-- The rest after the suffix of a literal, if it has one. -/
def skipSuffix (text : List Char) : List Char :=
  (skipIdent text).getD text

/-- A quoted or raw literal after the letters that begin it. -/
def readString (family : Family) (raw : Bool) (text : List Char) :
    Option (List Char × List Char) :=
  if raw then
    match rawOpening text with
    | some (hashes, body) => readRaw family hashes body
    | none => none
  else match text with
    | '"' :: rest => readQuoted family .plain rest
    | _ => none

/-- A string literal of any family: what it says, and the text after its quotes. -/
def string? (text : List Char) : Option (Family × List Char × List Char) :=
  match text with
  | '"' :: _ => (readString .text false text).map (Family.text, ·)
  | 'r' :: rest => (readString .text true rest).map (Family.text, ·)
  | 'b' :: '"' :: rest => (readString .bytes false ('"' :: rest)).map (Family.bytes, ·)
  | 'b' :: 'r' :: rest => (readString .bytes true rest).map (Family.bytes, ·)
  | 'c' :: '"' :: rest => (readString .cText false ('"' :: rest)).map (Family.cText, ·)
  | 'c' :: 'r' :: rest => (readString .cText true rest).map (Family.cText, ·)
  | _ => none

/-- The text after a character or byte literal. -/
def character? (text : List Char) : Option (List Char) :=
  match text with
  | 'b' :: c :: rest => if c == Char.ofNat 39 then readCharacter .bytes rest else none
  | c :: rest => if c == Char.ofNat 39 then readCharacter .text rest else none
  | [] => none

/-- Whether the text goes on with a character of an identifier. -/
def continuesWord : List Char → Bool
  | [] => false
  | c :: _ => Text.isIdentContinue c

/-- The rest after the suffix of a number; a number is not followed by more of a word. -/
def endNumber (text : List Char) : Option (List Char) :=
  let rest := skipSuffix text
  if continuesWord rest then none else some rest

/-- How the digits of a decimal number end. -/
inductive Mantissa where
  /-- No further digit; the flag tells of a decimal point. -/
  | ended (point : Bool) (rest : List Char)
  /-- The letter of an exponent follows; `rest` begins with it. -/
  | exponent (point : Bool) (rest : List Char)
  deriving Repr, DecidableEq

/-- The digits of a decimal number with at most one point. A point before a second point or before
an identifier is no decimal point, and the number is then no fraction. -/
def mantissa? : Bool → List Char → Option Mantissa
  | point, [] => some (.ended point [])
  | point, c :: rest =>
    if c.isDigit || c == '_' then mantissa? point rest
    else if c == '.' then
      if point then some (.ended point (c :: rest))
      else match rest with
        | d :: _ => if d == '.' || Text.isIdentStart d then none else mantissa? true rest
        | [] => some (.ended true [])
    else if c == 'e' || c == 'E' then some (.exponent point (c :: rest))
    else some (.ended point (c :: rest))

/-- The rest after an exponent's sign and digits; none when it has no digit or two signs. -/
def exponent? : Bool → Bool → List Char → Option (List Char)
  | _, digits, [] => if digits then some [] else none
  | sign, digits, c :: rest =>
    if c == '+' || c == '-' then
      if digits then some (c :: rest) else if sign then none else exponent? true digits rest
    else if c.isDigit then exponent? sign true rest
    else if c == '_' then exponent? sign digits rest
    else if digits then some (c :: rest) else none

/-- The rest after the digits of a fraction or a number with an exponent. -/
def fraction? (text : List Char) : Option (List Char) :=
  match text with
  | c :: rest =>
    if !c.isDigit then none
    else match mantissa? false rest with
      | some (.ended true after) => some after
      | some (.exponent point (e :: after)) =>
        match exponent? false false after with
        | some last => some last
        | none => if point then some (e :: after) else none
      | _ => none
  | [] => none

/-- The rest after digits of a base; `none` for a digit too large or no digit at all. -/
def digits? (base : Nat) : Bool → List Char → Option (List Char)
  | empty, [] => if empty then none else some []
  | empty, c :: rest =>
    if c == '_' then
      if empty && base == 10 then none else digits? base empty rest
    else match hexValue? c with
      | some digit =>
        if digit < base then digits? base false rest
        else if c.isDigit || empty then none else some (c :: rest)
      | none => if empty then none else some (c :: rest)

/-- The base that the first two characters of an integer name, and the rest. -/
def radix (text : List Char) : Nat × List Char :=
  match text with
  | '0' :: 'x' :: rest => (16, rest)
  | '0' :: 'o' :: rest => (8, rest)
  | '0' :: 'b' :: rest => (2, rest)
  | _ => (10, text)

/-- The text after a number. -/
def number? (text : List Char) : Option (List Char) :=
  match (fraction? text).bind endNumber with
  | some rest => some rest
  | none => (digits? (radix text).1 true (radix text).2).bind endNumber

/-- The text after a literal of any kind. -/
def skip? (text : List Char) : Option (List Char) :=
  match string? text with
  | some (_, _, rest) => some (skipSuffix rest)
  | none =>
    match character? text with
    | some rest => some (skipSuffix rest)
    | none => number? text

/-- Whether an exponent with a digit follows its letter, before a well-formed suffix. -/
def hasExponent : Bool → List Char → Bool
  | digits, [] => digits
  | digits, c :: rest =>
    if c == '_' then hasExponent digits rest
    else if c == '+' || c == '-' then true
    else if c.isDigit then hasExponent true rest
    else digits && skipIdent (c :: rest) == some []

/-- The value of the digits of an integer and the text after them; `none` when the digits belong
to a fraction. -/
def integerDigits (base value : Nat) : Bool → List Char → Option (Nat × List Char)
  | digits, [] => if digits then some (value, []) else none
  | digits, c :: rest =>
    let stop := if digits then some (value, c :: rest) else none
    if c == '_' then integerDigits base value digits rest
    else match hexValue? c with
      | some digit =>
        if c.isDigit || 10 < base then
          if digit < base then integerDigits base (base * value + digit) true rest else none
        else if base == 10 && (c == 'e' || c == 'E') && hasExponent false rest then none
        else stop
      | none => if base == 10 && c == '.' then none else stop

/-- The value and the suffix of an integer literal. -/
def integer? (literal : String) : Option (Nat × List Char) :=
  match literal.toList with
  | [] => none
  | c :: rest =>
    if !c.isDigit then none
    else
      let (base, digits) := radix (c :: rest)
      match integerDigits base 0 false digits with
      | some (value, suffix) =>
        if suffix.isEmpty || skipIdent suffix == some [] then some (value, suffix) else none
      | none => none

/-- What a string literal of the text family says. -/
def text? (literal : String) : Option String :=
  match string? literal.toList with
  | some (.text, value, _) => some (String.ofList value)
  | _ => none

/-- Whether a literal is a number with a fraction or an exponent. -/
def isFraction (literal : String) : Bool :=
  match literal.toList with
  | c :: _ => c.isDigit && (integer? literal).isNone
  | [] => false

end Forwarding.Literal
