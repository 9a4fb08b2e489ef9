import Forwarding.Grammar.Text
import Forwarding.Proofs.KeepingExpressions
/-!
What the readers of declarations keep, and so the grammars of every depth.
-/

set_option mvcgen.warning false

open Std.Do

namespace Forwarding.Grammar

open Forwarding.Grammar.Parser

variable [Invariant] {g : Grammar} [Steady g]

@[spec]
theorem keeps_beginsSignature {safe : Bool} : Keeps (beginsSignature safe) := by
  mvcgen [beginsSignature]

@[spec]
theorem keeps_receiver : Keeps (receiver g) := by
  mvcgen [receiver]

@[spec low]
theorem keeps_parameterOrDots {attributes : List Attribute} :
    Keeps (parameterOrDots g attributes) := by
  mvcgen [parameterOrDots]

@[spec low]
theorem keeps_signature : Keeps (signature g) := by
  mvcgen [signature]

/-- The fields of a struct that stand where a type does. -/
@[spec]
theorem keeps_inlineFields :
    Keeps (verbatim do
      let _ ← anyWord
      grouped .brace remaining) := by
  mvcgen

omit [Steady g] in
@[spec low]
theorem keeps_namedFields : Keeps (namedFields g) := by
  mvcgen [namedFields]

omit [Steady g] in
@[spec low]
theorem keeps_positionalFields : Keeps (positionalFields g) := by
  mvcgen [positionalFields]

@[spec low]
theorem keeps_structBody {generics : Generics} : Keeps (structBody g generics) := by
  mvcgen [structBody]

@[spec low]
theorem keeps_structItem {attributes : List Attribute} : Keeps (structItem g attributes) := by
  mvcgen [structItem]

attribute [local spec] readSince

@[spec]
theorem keeps_memberMacro : Keeps memberMacro := by
  mvcgen [memberMacro]

@[spec]
theorem keeps_boundsUntil {ends : List Expectation} : Keeps (boundsUntil g ends) := by
  mvcgen [boundsUntil]

@[spec]
theorem keeps_enumeration : Keeps (enumeration g) := by
  mvcgen [enumeration]

@[spec]
theorem keeps_unionItem : Keeps (unionItem g) := by
  mvcgen [unionItem]

@[spec]
theorem keeps_constantBody : Keeps (constantBody g) := by
  mvcgen [constantBody, constantName]

@[spec]
theorem keeps_typeAlias {canDefault : Bool} {clause : ClausePlace} :
    Keeps (typeAlias g canDefault clause) := by
  mvcgen [typeAlias]

@[spec low]
theorem keeps_method? {attributes : List Attribute} : Keeps (method? g attributes) := by
  mvcgen [method?]

@[spec]
theorem keeps_beginsImplGenerics : Keeps beginsImplGenerics := by
  mvcgen [beginsImplGenerics, orM, toBool]

@[spec low]
theorem keeps_implItem {attributes : List Attribute} : Keeps (implItem g attributes) := by
  mvcgen [implItem]

@[spec]
theorem keeps_traitBody {head : List Tree} {generics : Generics} :
    Keeps (traitBody g head generics) := by
  mvcgen [traitBody]

@[spec]
theorem keeps_traitItem : Keeps (traitItem g) := by
  mvcgen [traitItem]

omit [Steady g] in
@[spec]
theorem keeps_foreignBlock : Keeps (foreignBlock g) := by
  mvcgen [foreignBlock]

@[spec]
theorem keeps_importsOf {rooted : Bool} : Keeps (importsOf g rooted) := by
  mvcgen [importsOf]

@[spec]
theorem keeps_useItem : Keeps (useItem g) := by
  mvcgen [useItem]

@[spec]
theorem keeps_externCrate : Keeps externCrate := by
  mvcgen [externCrate]

omit [Steady g] in
@[spec low]
theorem keeps_moduleItem {attributes : List Attribute} : Keeps (moduleItem g attributes) := by
  mvcgen [moduleItem]

@[spec]
theorem keeps_macroItem : Keeps macroItem := by
  mvcgen [macroItem]

@[spec]
theorem keeps_macroDefinition : Keeps macroDefinition := by
  mvcgen [macroDefinition]

@[spec]
theorem keeps_staticItem : Keeps (staticItem g) := by
  mvcgen [staticItem]

@[spec low]
theorem keeps_itemOf : Keeps (itemOf g) := by
  mvcgen [itemOf]

theorem keeps_rule (n : Nonterminal) : Keeps (rule g n) := by
  cases n with
  | type plus => exact keeps_typeOf
  | bound captures constant => exact keeps_boundOf
  | expression braces => exact keeps_expressionOf
  | operand braces => exact keeps_operandOf
  | standalone => exact keeps_standaloneOf
  | pattern => exact keeps_patternOf
  | statements => exact keeps_statementsOf
  | item => exact keeps_itemOf
  | imports rooted => exact keeps_importsOf

/-- The grammars keep what is known of the lexemes ahead, however deep notions nest. -/
instance steady_ofDepth (depth : Nat) : Steady (ofDepth depth) := by
  induction depth with
  | zero => exact ⟨fun _ => triple_iff.mpr fun _ _ _ _ ran => absurd ran reads_fail⟩
  | succ depth ih => exact ⟨keeps_rule⟩

end Forwarding.Grammar
