import Forwarding.Grammar.Statement
/-!
Signatures of functions.
-/

namespace Forwarding.Grammar

open Forwarding.Grammar.Parser

/-- Whether a signature begins here; `safe` admits the word that marks a safe foreign function. -/
def beginsSignature (safe : Bool) : Parser Bool := do
  let found ← lookingAhead do
    let _ ← word? "const"
    let _ ← word? "async"
    if safe && (← seesWord "safe") then
      let _ ← word "safe"
    else
      let _ ← word? "unsafe"
    let _ ← convention?
    seesWord "fn"
  return found == some true

/-- The receiver of a method. -/
def receiver (g : Grammar) : Parser Tree := do
  let reference ← operator? "&"
  let name ← if reference.isSome then lifetime? else pure none
  let mutable ← word? "mut"
  let sign ← word "self"
  let typed ←
    if reference.isNone && (← seesOperator ":") then
      let colon ← operator ":"
      pure [colon, ← g.type]
    else pure []
  return .seq (reference.toList ++ (name.map Tree.lifetime).toList ++ mutable.toList
    ++ sign :: typed)

/-- A parameter of a function, or the mark of a variable number of arguments. -/
inductive ParameterOrDots where
  | parameter (parameter : Parameter) (start : Position)
  | dots (tree : Tree)

/-- A parameter of a function after its attributes. A type without a pattern is admitted where the
type begins with a name and generic arguments. -/
def parameterOrDots (g : Grammar) (attributes : List Attribute) : Parser ParameterOrDots := do
  let before := (← get).rest
  match ← attempt (receiver g) with
  | some tree =>
    return .parameter (.receiver (.seq (Attribute.outer attributes ++ [tree]))) (selfPlace before)
  | none =>
    let start ← place
    if (← peek .identifier) && (← peek2 (.operator "<")) then
      return .parameter (.typed attributes (.word "_") none (← g.type)) start
    let bound ← g.pattern
    let _ ← operator ":"
    if ← seesOperator "..." then
      let dots ← operator "..."
      return .dots (.seq (Attribute.outer attributes ++ [bound.tree, .operator ":", dots]))
    let name := match bound.form with
      | .binding name => some name
      | _ => none
    return .parameter (.typed attributes bound.tree name (← g.type)) start
where
  /-- The place of the receiver's name. -/
  selfPlace : List Lexeme → Position
    | .leaf (.ident text) start :: rest => if text == "self" then start else selfPlace rest
    | _ :: rest => selfPlace rest
    | [] => .first

/-- The parameters of a function. -/
structure Parameters where
  params : List Parameter
  trailing : Bool
  variadic : Option Tree

/-- The parameters of a function, at most so many; the flags tell whether some have been read and
whether one of them is a receiver. -/
def parametersUpTo (g : Grammar) (some? received : Bool) : Nat → Parser Parameters
  | 0 => return ⟨[], true, none⟩
  | count + 1 => do
    if ← atEnd then return ⟨[], true, none⟩
    let attributes ← outerAttributes g
    let dots? ←
      if ← seesOperator "..." then
        let dots ← operator "..."
        pure (ParameterOrDots.dots (.seq (Attribute.outer attributes ++ [dots])))
      else parameterOrDots g attributes
    match dots? with
    | .dots tree =>
      if ← atEnd then return ⟨[], true, some tree⟩
      let comma ← operator ","
      return ⟨[], true, some (.seq [tree, comma])⟩
    | .parameter param start =>
      let isReceiver := match param with
        | .receiver _ => true
        | .typed .. => false
      if isReceiver && received then failAt start .secondReceiver
      if isReceiver && some? then failAt start .lateReceiver
      if ← atEnd then return ⟨[param], false, none⟩
      let _ ← operator ","
      let more ← parametersUpTo g true (received || isReceiver) count
      return { more with params := param :: more.params }

/-- The signature of a function with its where clause. -/
def signature (g : Grammar) : Parser Signature := do
  let constness ← word? "const"
  let asyncness ← word? "async"
  let unsafety ← word? "unsafe"
  let convention ← convention?
  let _ ← word "fn"
  let name ← identifier
  let generics ← genericParameters g
  let params ← grouped .parenthesis do
    parametersUpTo g false false ((← get).rest.length + 1)
  let output ← output? g true
  let generics ← withWhere g generics
  return ⟨constness.isSome, asyncness.isSome, unsafety.isSome, convention, name, generics,
    params.params, params.trailing, params.variadic, output⟩

end Forwarding.Grammar
