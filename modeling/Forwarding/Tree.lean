import Forwarding.Token.Basic
/-!
Syntax trees: everything the grammar reads below the level of declarations. A tree keeps the tokens
of its source in the order in which they are printed, and marks the few places that have a meaning
of their own: lifetimes, the segments of paths, generic arguments, the initializers of a struct
literal, where clauses and the attributes inside braces. What is not marked is only ever printed.
-/

namespace Forwarding

/-- A piece of syntax. -/
inductive Tree where
  /-- A single token. -/
  | token (token : Token)
  /-- A lifetime, named without its apostrophe. -/
  | lifetime (name : String)
  /-- Trees between brackets. -/
  | group (delimiter : Delimiter) (children : List Tree)
  /-- Trees one after another. -/
  | seq (children : List Tree)
  /-- A path; a global one begins with two colons. -/
  | path (isGlobal : Bool) (segments : List Tree)
  /-- A segment of a path: a name and at most one list of arguments. -/
  | segment (name : String) (args : List Tree)
  /-- Generic arguments; `turbofish` tells of two colons before them and `trailing` of a comma after
  the last one. Lifetimes are printed before all others. -/
  | arguments (turbofish : Bool) (items : List Tree) (trailing : Bool)
  /-- A path through a type: `<selfType as traitPath>::rest`, the trait's path optional. -/
  | qualified (selfType : Tree) (traitPath : List Tree) (rest : List Tree)
  /-- A struct literal: its path and what stands between its braces. -/
  | record (target : Tree) (body : List Tree)
  /-- An initializer of a struct literal: attributes, the member, and its value unless the member
  stands for itself. -/
  | initializer (attributes : List Tree) (member : Token) (value : List Tree)
  /-- A declaration up to its where clause: the head with the generic parameters, what stands between,
  and the clause, which belongs to the parameters. -/
  | constrained (head between clause : List Tree)
  /-- A head with braces after it; the attributes at the beginning of the braces belong to the
  whole. -/
  | block (head attributes body : List Tree)
  deriving Repr

namespace Tree

/-- Tokens as a tree. -/
def ofTokens (tokens : List Token) : Tree :=
  seq (tokens.map token)

/-- An identifier or keyword as a tree. -/
def word (text : String) : Tree :=
  token (.ident text)

/-- An operator as a tree. -/
def operator (symbols : String) : Tree :=
  ofTokens (Token.operator symbols)

/-- No tokens at all. -/
def empty : Tree :=
  seq []

/-- Trees with a separator between each two neighbours. -/
def separated (separator : Tree) : List Tree → List Tree
  | [] => []
  | [t] => [t]
  | t :: rest => t :: separator :: separated separator rest

/-- Whether a generic argument is a lifetime. -/
def isLifetime : Tree → Bool
  | lifetime _ => true
  | _ => false

/-- Printed items with their commas, lifetimes first. An item keeps the comma that followed it; a
comma is added where an item that had none is no longer the last. `items` tells for each item
whether it is a lifetime. -/
def lifetimesFirst (items : List (Bool × List Token)) (trailing : Bool) : List Token :=
  let comma : Token := .punct ',' false
  let marked := items.mapIdx fun i (isLifetime, tokens) =>
    (isLifetime, tokens, trailing || i + 1 < items.length)
  let lifetimes := marked.filter (·.1)
  let others := marked.filter (!·.1)
  let put := fun (_, tokens, separated) => tokens ++ (if separated then [comma] else [])
  let open? := match lifetimes.getLast? with
    | some (_, _, separated) => !separated
    | none => false
  lifetimes.flatMap put ++ (if open? && !others.isEmpty then [comma] else []) ++ others.flatMap put

/-- Paths are printed with two colons between their segments. -/
def joinColons : List (List Token) → List Token
  | [] => []
  | [tokens] => tokens
  | tokens :: rest => tokens ++ Token.operator "::" ++ joinColons rest

mutual

/-- The tokens of a tree, as printed. -/
def tokens : Tree → List Token
  | token t => [t]
  | lifetime name => Token.lifetime name
  | group delimiter children => .opening delimiter :: (tokensOf children ++ [.closing delimiter])
  | seq children => tokensOf children
  | path isGlobal segments =>
    (if isGlobal then Token.operator "::" else []) ++ joinColons (tokensEach segments)
  | segment name args => .ident name :: tokensOf args
  | arguments turbofish items trailing =>
    (if turbofish then Token.operator "::" else []) ++ Token.operator "<"
      ++ lifetimesFirst (tokensMarked items) trailing ++ Token.operator ">"
  | qualified selfType traitPath rest =>
    Token.operator "<" ++ tokens selfType
      ++ (if traitPath.isEmpty then [] else .ident "as" :: tokensOf traitPath)
      ++ Token.operator ">" ++ Token.operator "::" ++ joinColons (tokensEach rest)
  | record target body => tokens target ++ .opening .brace :: (tokensOf body ++ [.closing .brace])
  | initializer attributes member value =>
    tokensOf attributes ++ member :: (if value.isEmpty then [] else Token.operator ":")
      ++ tokensOf value
  | constrained head between clause => tokensOf head ++ (tokensOf between ++ tokensOf clause)
  | block head attributes body =>
    tokensOf head ++ .opening .brace :: (tokensOf attributes ++ tokensOf body ++ [.closing .brace])

/-- The tokens of trees one after another. -/
def tokensOf : List Tree → List Token
  | [] => []
  | tree :: rest => tree.tokens ++ tokensOf rest

/-- The tokens of each of some trees. -/
def tokensEach : List Tree → List (List Token)
  | [] => []
  | tree :: rest => tree.tokens :: tokensEach rest

/-- The tokens of each of some trees, with the mark of a lifetime. -/
def tokensMarked : List Tree → List (Bool × List Token)
  | [] => []
  | tree :: rest => (tree.isLifetime, tree.tokens) :: tokensMarked rest

end

/-- The text of a tree. -/
def render (tree : Tree) : String :=
  Token.render tree.tokens

/-- The name of a path that is a single name without arguments. -/
def ident? : Tree → Option String
  | path false [segment name []] => some name
  | _ => none

/-- The name of a segment. -/
def segmentName : Tree → String
  | segment name _ => name
  | _ => ""

/-- The last segment of a path or of a path through a type. -/
def lastSegment? : Tree → Option Tree
  | path _ segments => segments.getLast?
  | qualified _ _ rest => rest.getLast?
  | _ => none

/-- Whether a token ends the tree with a closing brace. -/
def endsWithBrace (tree : Tree) : Bool :=
  tree.tokens.getLast? == some (.closing .brace)

end Tree

end Forwarding
