import Forwarding.Grammar.Item
/-!
The grammar of whole texts. The rules for the recursive notions are applied to each other as often
as a text of some size can nest them.
-/

namespace Forwarding

namespace Grammar

/-- The rule for each recursive notion, over parsers for the notions that occur below it. -/
def rule (g : Grammar) : (n : Nonterminal) → Parser n.Result
  | .type plus => typeOf g plus
  | .bound captures constant => boundOf g captures constant
  | .expression braces => expressionOf g braces
  | .operand braces => operandOf g braces
  | .standalone => standaloneOf g
  | .pattern => patternOf g
  | .statements => statementsOf g
  | .item => itemOf g
  | .imports rooted => importsOf g rooted

/-- The grammar in which notions nest at most so deep. -/
def ofDepth : Nat → Grammar
  | 0 => ⟨fun _ => Parser.fail .nesting⟩
  | depth + 1 => ⟨fun n => rule (ofDepth depth) n⟩

/-- A nesting that lexemes cannot exceed: every four notions that begin inside each other take up at
least one lexeme. -/
def depthOf (lexemes : List Lexeme) : Nat :=
  4 * Lexeme.sizeOf lexemes + 8

variable {α : Type}

/-- Parses lexemes to their end; `stop` is the place of the end. -/
def parseLexemes (p : Grammar → Parser α) (lexemes : List Lexeme) (stop : Position) :
    Except ParseError α :=
  (p (ofDepth (depthOf lexemes))).runAll lexemes stop

/-- Parses a text to its end. The end of a text is named by its first place. -/
def parseChars (p : Grammar → Parser α) (text : List Char) : Except ParseError α :=
  match Lexer.lex text with
  | .error place => .error ⟨place, false, .unlexed⟩
  | .ok lexemes => parseLexemes p lexemes Position.first

/-- Parses a text to its end. -/
def parseText (p : Grammar → Parser α) (text : String) : Except ParseError α :=
  parseChars p text.toList

/-- Whether a text is an identifier, with nothing around it but blanks and comments. -/
def isIdentifierText (text : String) : Bool :=
  match parseText (fun _ => Parser.identifier) text with
  | .ok _ => true
  | .error _ => false

/-- The declarations of a file. -/
def file (g : Grammar) : Parser (List Item) := do
  let _ ← innerAttributes g
  Parser.untilEnd g.item

/-- The text of a file without its byte order mark and without the first line that names an
interpreter. The line break after such a line stays. -/
def withoutPreamble (text : List Char) : List Char :=
  let body := if text.head? == some (Char.ofNat 0xfeff) then text.drop 1 else text
  match body with
  | '#' :: '!' :: rest =>
    if (Lexer.skipBlanks rest.length rest).head? == some '[' then body
    else body.dropWhile (· != '\n')
  | _ => body

/-- Parses a file. -/
def parseFile (text : String) : Except ParseError (List Item) :=
  parseChars file (withoutPreamble text.toList)

end Grammar

end Forwarding
