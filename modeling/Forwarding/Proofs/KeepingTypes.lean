import Forwarding.Grammar.Generics
import Forwarding.Proofs.Keeping
/-!
What the readers of attributes, paths, types and generic parameters keep. Below a grammar whose
notions keep what is known of the lexemes ahead, each of them does.
-/

set_option mvcgen.warning false

open Std.Do

namespace Forwarding.Grammar

open Forwarding.Grammar.Parser

section Keeping

variable [Invariant] {g : Grammar}

theorem keeps_plainNamesUpTo {count : Nat} : Keeps (plainNamesUpTo count) := by
  induction count with
  | zero => mvcgen [plainNamesUpTo]
  | succ count ih => mvcgen [plainNamesUpTo, ih]

@[spec]
theorem keeps_plainPath : Keeps plainPath := by
  mvcgen [plainPath, keeps_plainNamesUpTo]

@[spec]
theorem keeps_visibility : Keeps visibility := by
  mvcgen [visibility, visibility.restricted]
  rename_i known _ _ _ _ ahead _ _ _ _
  exact Invariant.drop_group known ahead

@[spec]
theorem keeps_readAttribute {isInner : Bool} : Keeps (readAttribute g isInner) := by
  mvcgen [readAttribute]

@[spec]
theorem keeps_outerAttributes : Keeps (outerAttributes g) := by
  mvcgen [outerAttributes]

@[spec]
theorem keeps_innerAttributes : Keeps (innerAttributes g) := by
  mvcgen [innerAttributes]

@[spec low]
theorem keeps_braced {α : Type} {p : Parser α} : Keeps (braced g p) := by
  mvcgen [braced]

@[spec]
theorem keeps_blockAfter {head : List Tree} : Keeps (blockAfter g head) := by
  mvcgen [blockAfter]

@[spec]
theorem keeps_block : Keeps (block g) := by
  mvcgen [block]

@[spec]
theorem keeps_constArgument : Keeps (constArgument g) := by
  mvcgen [constArgument]

@[spec]
theorem keeps_binder : Keeps (binder g) := by
  mvcgen [binder]

@[spec]
theorem keeps_binder? : Keeps (binder? g) := by
  mvcgen [binder?]

/-- A grammar whose notions keep what is known of the lexemes ahead. -/
class Steady (g : Grammar) : Prop where
  keeps (n : Nonterminal) : Keeps (g.parse n)

variable [Steady g]

@[spec low]
theorem keeps_parse {n : Nonterminal} : Keeps (g.parse n) :=
  Steady.keeps n

attribute [spec] Grammar.type typeWithoutPlus bound typeBound expressionWith expression condition
  operand standalone pattern statements item imports

theorem keeps_captured {count : Nat} : Keeps (capture.items count) := by
  induction count with
  | zero => mvcgen [capture.items]
  | succ count ih => mvcgen [capture.items, ih]

@[spec]
theorem keeps_capture : Keeps capture := by
  mvcgen [capture, keeps_captured]

@[spec]
theorem keeps_genericArgument : Keeps (genericArgument g) := by
  mvcgen [genericArgument]

@[spec]
theorem keeps_genericArguments : Keeps (genericArguments g) := by
  mvcgen [genericArguments]

@[spec]
theorem keeps_segment {inExpression : Bool} : Keeps (segment g inExpression) := by
  mvcgen [segment]

@[spec]
theorem keeps_path {inExpression : Bool} : Keeps (path g inExpression) := by
  mvcgen [path, moreSegments]

theorem keeps_segmentsUpTo {inExpression : Bool} {count : Nat} :
    Keeps (segmentsUpTo g inExpression count) := by
  induction count with
  | zero => mvcgen [segmentsUpTo]
  | succ count ih => mvcgen [segmentsUpTo, ih]

@[spec]
theorem keeps_qualifiedPath {inExpression : Bool} : Keeps (qualifiedPath g inExpression) := by
  mvcgen [qualifiedPath, keeps_segmentsUpTo]

@[spec]
theorem keeps_output? {plus : Bool} : Keeps (output? g plus) := by
  mvcgen [output?]

@[spec]
theorem keeps_parenthesizedArguments : Keeps (parenthesizedArguments g) := by
  mvcgen [parenthesizedArguments]

@[spec]
theorem keeps_seesParenthesized : Keeps seesParenthesized := by
  mvcgen [seesParenthesized]

@[spec]
theorem keeps_traitBound {constant : Bool} : Keeps (traitBound g constant) := by
  mvcgen [traitBound]

@[spec]
theorem keeps_boundOf {captures constant : Bool} : Keeps (boundOf g captures constant) := by
  mvcgen [boundOf]

theorem keeps_typeBoundsUpTo {plus captures constant : Bool} {count : Nat} :
    Keeps (typeBoundsUpTo g plus captures constant count) := by
  induction count with
  | zero => mvcgen [typeBoundsUpTo]
  | succ count ih => mvcgen [typeBoundsUpTo, beginsBound, ih]

@[spec]
theorem keeps_typeBounds {plus captures constant : Bool} :
    Keeps (typeBounds g plus captures constant) := by
  mvcgen [typeBounds, keeps_typeBoundsUpTo]

@[spec]
theorem keeps_invocation {name : Tree} : Keeps (invocation name) := by
  mvcgen [invocation]

@[spec]
theorem keeps_moreObjectBounds {first : Tree} : Keeps (moreObjectBounds g first) := by
  mvcgen [moreObjectBounds]

@[spec]
theorem keeps_parenthesizedType {plus : Bool} : Keeps (parenthesizedType g plus) := by
  mvcgen [parenthesizedType, parenthesizedType.content]

omit [Steady g] in
@[spec]
theorem keeps_bracketedType : Keeps (bracketedType g) := by
  mvcgen [bracketedType]

@[spec]
theorem keeps_convention : Keeps convention := by
  mvcgen [convention]

@[spec]
theorem keeps_convention? : Keeps convention? := by
  mvcgen [convention?]

@[spec]
theorem keeps_functionType : Keeps (functionType g) := by
  mvcgen [functionType]

theorem keeps_pathTypeBounds {count : Nat} : Keeps (pathType.boundsUpTo g count) := by
  induction count with
  | zero => mvcgen [pathType.boundsUpTo]
  | succ count ih => mvcgen [pathType.boundsUpTo, ih]

@[spec]
theorem keeps_pathType {plus : Bool} {binder : Option Tree} : Keeps (pathType g plus binder) := by
  mvcgen [pathType, pathType.sumAfter, keeps_pathTypeBounds]

@[spec]
theorem keeps_objectBounds {plus : Bool} {start : Position} :
    Keeps (objectBounds g plus start) := by
  mvcgen [objectBounds]

@[spec]
theorem keeps_typeOf {plus : Bool} : Keeps (typeOf g plus) := by
  mvcgen [typeOf]

@[spec]
theorem keeps_lifetimeBounds {stop : Parser Bool} (stops : Keeps stop) :
    Keeps (lifetimeBounds stop) := by
  mvcgen [lifetimeBounds, stops]

@[spec]
theorem keeps_endsClause : Keeps endsClause := by
  mvcgen [endsClause]

@[spec]
theorem keeps_wherePredicate : Keeps (wherePredicate g) := by
  mvcgen [wherePredicate]

theorem keeps_predicatesUpTo {count : Nat} : Keeps (predicatesUpTo g count) := by
  induction count with
  | zero => mvcgen [predicatesUpTo]
  | succ count ih => mvcgen [predicatesUpTo, ih]

omit [Steady g] in
@[spec low]
theorem keeps_lifetimeParameter {attributes : List Attribute} :
    Keeps (lifetimeParameter g attributes) := by
  mvcgen [lifetimeParameter]

@[spec low]
theorem keeps_typeParameter {attributes : List Attribute} : Keeps (typeParameter g attributes) := by
  mvcgen [typeParameter]

@[spec low]
theorem keeps_constParameter {attributes : List Attribute} :
    Keeps (constParameter g attributes) := by
  mvcgen [constParameter]

@[spec low]
theorem keeps_listedParameter : Keeps (listedParameter g) := by
  mvcgen [listedParameter]

@[spec low]
theorem keeps_genericParameters : Keeps (genericParameters g) := by
  mvcgen [genericParameters]

@[spec low]
theorem keeps_withWhere {generics : Generics} : Keeps (withWhere g generics) := by
  mvcgen [withWhere, keeps_predicatesUpTo]

end Keeping

theorem yields_braced {α : Type} [Invasive] {g : Grammar} [Steady g] {p : Parser α}
    {kind : α → Prop} (yields : Yields p kind) :
    Yields (braced g p) fun found => kind found.2 := by
  refine yields_grouped ?_
  mvcgen [yields]

end Forwarding.Grammar
