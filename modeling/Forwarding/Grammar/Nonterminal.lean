import Forwarding.Declaration
import Forwarding.Grammar.Parser
/-!
The recursive notions of the grammar. A rule is written against a `Grammar`, which parses the
notions that occur below it; the grammars with ever deeper nesting are then built one from another.
-/

namespace Forwarding.Grammar

/-- What later rules have to know of an expression that has been read. -/
inductive ExpressionForm where
  /-- A range, which is no operand of an operator. -/
  | range
  /-- A comparison, which is not chained with another one. -/
  | comparison
  /-- A block, a loop or a conditional, which ends a statement by itself. -/
  | block
  /-- A macro invoked with braces. -/
  | bracedMacro
  | plain
  deriving Repr, DecidableEq

/-- An expression that has been read. -/
structure Expression where
  tree : Tree
  form : ExpressionForm
  deriving Repr

/-- What later rules have to know of a pattern that has been read. -/
inductive PatternForm where
  /-- A plain identifier, bound by value. -/
  | binding (name : String)
  /-- Two dots that stand for the rest of a list. -/
  | rest
  /-- A range without one of its ends, with the place of its dots. -/
  | openRange (dots : Position)
  | plain
  deriving Repr, DecidableEq

/-- A pattern that has been read. -/
structure Pattern where
  tree : Tree
  form : PatternForm
  deriving Repr

/-- What a bound requires. -/
inductive BoundKind where
  | implemented
  | outlives
  | captures
  deriving Repr, DecidableEq

/-- A bound that has been read. -/
structure Bound where
  tree : Tree
  kind : BoundKind
  deriving Repr

/-- A recursive notion of the grammar. -/
inductive Nonterminal where
  /-- A type; `plus` admits a sum of bounds without brackets. -/
  | type (plus : Bool)
  /-- A bound; the flags admit a list of captures and a constant trait. -/
  | bound (captures constant : Bool)
  /-- An expression; `braces` admits a struct literal at its end. -/
  | expression (braces : Bool)
  /-- An expression without binary operators at its top. -/
  | operand (braces : Bool)
  /-- An expression that ends at its block when it begins with one. -/
  | standalone
  /-- A pattern without alternatives at its top. -/
  | pattern
  /-- The statements of a block. -/
  | statements
  | item
  /-- A tree of imports; `rooted` admits paths from the root of all crates. The result is missing
  when such a path occurs. -/
  | imports (rooted : Bool)
  deriving Repr

/-- The type of what is read. -/
abbrev Nonterminal.Result : Nonterminal → Type
  | type _ => Tree
  | bound _ _ => Bound
  | expression _ => Expression
  | operand _ => Expression
  | standalone => Expression
  | pattern => Pattern
  | statements => List Tree
  | item => Item
  | imports _ => Option Tree

end Forwarding.Grammar

namespace Forwarding

/-- Parsers for all recursive notions. -/
structure Grammar where
  parse : (n : Grammar.Nonterminal) → Grammar.Parser n.Result

namespace Grammar

/-- A type in which a sum of bounds needs no brackets. -/
def type (g : Grammar) : Parser Tree :=
  g.parse (.type true)

/-- A type in which a sum of bounds needs brackets. -/
def typeWithoutPlus (g : Grammar) : Parser Tree :=
  g.parse (.type false)

/-- A bound of a declared parameter or an associated type. -/
def bound (g : Grammar) : Parser Tree := do
  return (← g.parse (.bound false true)).tree

/-- A bound of a type that is itself a sum of bounds. -/
def typeBound (g : Grammar) (captures constant : Bool) : Parser Bound :=
  g.parse (.bound captures constant)

/-- An expression that may end with a struct literal, or may not. -/
def expressionWith (g : Grammar) (braces : Bool) : Parser Expression :=
  g.parse (.expression braces)

/-- The tree of an expression that may end with a struct literal. -/
def expression (g : Grammar) : Parser Tree := do
  return (← g.expressionWith true).tree

/-- The tree of an expression before the brace of a body. -/
def condition (g : Grammar) : Parser Tree := do
  return (← g.expressionWith false).tree

/-- An expression without binary operators at its top. -/
def operand (g : Grammar) (braces : Bool) : Parser Expression :=
  g.parse (.operand braces)

/-- An expression that ends at its block when it begins with one. -/
def standalone (g : Grammar) : Parser Expression :=
  g.parse .standalone

/-- A pattern without alternatives at its top. -/
def pattern (g : Grammar) : Parser Pattern :=
  g.parse .pattern

/-- The statements of a block. -/
def statements (g : Grammar) : Parser (List Tree) :=
  g.parse .statements

/-- A declaration. -/
def item (g : Grammar) : Parser Item :=
  g.parse .item

/-- A tree of imports. -/
def imports (g : Grammar) (rooted : Bool) : Parser (Option Tree) :=
  g.parse (.imports rooted)

end Grammar

end Forwarding
