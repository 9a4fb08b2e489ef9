import Forwarding.Grammar.Type
/-!
Declared generic parameters and where clauses.
-/

namespace Forwarding.Grammar

open Forwarding.Grammar.Parser

/-- The lifetimes that a lifetime outlives, after its colon. -/
def lifetimeBounds (stop : Parser Bool) : Parser (List String × Bool) :=
  sum stop lifetime

/-- A lifetime parameter after its attributes. -/
def lifetimeParameter (g : Grammar) (attributes : List Attribute) : Parser GenericParameter := do
  let more ← outerAttributes g
  let name ← lifetime
  let colon ← operator? ":"
  let (bounds, trailing) ←
    if colon.isSome then
      lifetimeBounds do return (← atEnd) || (← peekAny [.operator ",", .operator ">"])
    else pure ([], false)
  return .lifetime (attributes ++ more) name bounds trailing

/-- A type parameter after its attributes. -/
def typeParameter (g : Grammar) (attributes : List Attribute) : Parser GenericParameter := do
  let more ← outerAttributes g
  let name ← identifier
  let colon ← operator? ":"
  let (bounds, trailing) ←
    if colon.isSome then
      sum (do return (← atEnd) || (← peekAny [.operator ",", .operator ">", .operator "="])) g.bound
    else pure ([], false)
  let sign ← operator? "="
  let byDefault ← if sign.isSome then some <$> g.type else pure none
  return .type (attributes ++ more) name bounds trailing byDefault

/-- A constant parameter after its attributes. -/
def constParameter (g : Grammar) (attributes : List Attribute) : Parser GenericParameter := do
  let more ← outerAttributes g
  let _ ← word "const"
  let name ← identifier
  let _ ← operator ":"
  let type ← g.type
  let sign ← operator? "="
  let byDefault ← if sign.isSome then some <$> constArgument g else pure none
  return .const (attributes ++ more) name type byDefault

/-- One generic parameter by itself. -/
def genericParameter (g : Grammar) : Parser GenericParameter := do
  let attributes ← outerAttributes g
  if ← peek .identifier then typeParameter g attributes
  else if ← peek .lifetime then lifetimeParameter g attributes
  else if ← seesWord "const" then constParameter g attributes
  else failExpecting [.identifier, .lifetime, .word "const"]

/-- A generic parameter in a list. -/
def listedParameter (g : Grammar) : Parser GenericParameter := do
  let attributes ← outerAttributes g
  if ← peek .lifetime then lifetimeParameter g attributes
  else if ← peek .identifier then typeParameter g attributes
  else if ← seesWord "const" then constParameter g attributes
  else if ← seesWord "_" then return .type attributes (← anyWord) [] false none
  else failExpecting [.lifetime, .identifier, .word "const"]

/-- The list of generic parameters, if there is one. -/
def genericParameters (g : Grammar) : Parser Generics := do
  if !(← seesOperator "<") then return .none
  let _ ← operator "<"
  let (params, trailing) ← punctuated "," (seesOperator ">") (listedParameter g)
  let _ ← operator ">"
  return ⟨params, trailing, [], false⟩

/-- Whether something that ends a where clause, or a bound in it, stands next. -/
def endsClause : Parser Bool := do
  if ← atEnd then return true
  if ← peekAny [.group .brace, .operator ",", .operator ";", .operator "="] then return true
  return (← seesOperator ":") && !(← seesOperator "::")

/-- One predicate of a where clause. -/
def wherePredicate (g : Grammar) : Parser WherePredicate := do
  if (← peek .lifetime) && (← peek2 (.operator ":")) then
    let name ← lifetime
    let _ ← operator ":"
    let (bounds, trailing) ← lifetimeBounds do
      return (← atEnd) || (← peekAny [.group .brace, .operator ",", .operator ";", .operator ":",
        .operator "="])
    return .lifetime name bounds trailing
  else
    let binder ← binder? g
    let bounded ← g.type
    let _ ← operator ":"
    let (bounds, trailing) ← sum endsClause g.bound
    return .type binder bounded bounds trailing

/-- The predicates of a where clause, at most so many. -/
def predicatesUpTo (g : Grammar) : Nat → Parser (List WherePredicate × Bool)
  | 0 => return ([], true)
  | count + 1 => do
    if ← endsClause then return ([], true)
    let first ← wherePredicate g
    if ← seesOperator "," then
      let _ ← operator ","
      let (rest, trailing) ← predicatesUpTo g count
      return (first :: rest, trailing)
    else return ([first], false)

/-- Adds the where clause that stands here, if there is one. -/
def withWhere (g : Grammar) (generics : Generics) : Parser Generics := do
  if !(← seesWord "where") then return generics
  let _ ← word "where"
  let (predicates, trailing) ← predicatesUpTo g ((← get).rest.length + 1)
  return { generics with predicates, predicatesTrailing := trailing }

end Forwarding.Grammar
