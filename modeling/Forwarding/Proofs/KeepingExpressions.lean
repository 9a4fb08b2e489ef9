import Forwarding.Grammar.Statement
import Forwarding.Proofs.KeepingTypes
/-!
What the readers of patterns, expressions and statements keep.
-/

set_option mvcgen.warning false

open Std.Do

namespace Forwarding.Grammar

open Forwarding.Grammar.Parser

variable [Invariant] {g : Grammar} [Steady g] {braces : Bool}

attribute [local spec] seesAlternative endsPattern

@[spec]
theorem keeps_alternatives : Keeps (alternatives g) := by
  mvcgen [alternatives]

@[spec]
theorem keeps_patternLimits : Keeps patternLimits := by
  mvcgen [patternLimits]

@[spec]
theorem keeps_rangeBound? : Keeps (rangeBound? g) := by
  mvcgen [rangeBound?]

@[spec]
theorem keeps_tupleIndex : Keeps tupleIndex := by
  mvcgen [tupleIndex]

@[spec]
theorem keeps_fieldMember : Keeps fieldMember := by
  mvcgen [fieldMember]

@[spec low]
theorem keeps_patternOf : Keeps (patternOf g) := by
  mvcgen [patternOf, tuplePattern, slicedPattern, pathPattern, bindingPattern, rangeAfter, rangeFrom]

attribute [local spec] peekPrecedence climbFuel beginsExpression

@[spec]
theorem keeps_endsRange : Keeps (endsRange braces) := by
  mvcgen [endsRange]

@[spec]
theorem keeps_rangeLimits : Keeps rangeLimits := by
  mvcgen [rangeLimits]

@[spec]
theorem keeps_checkCast : Keeps checkCast := by
  mvcgen [checkCast]

@[spec low]
theorem keeps_climb {fuel : Nat} {task : Climb} : Keeps (climb g braces fuel task) := by
  induction fuel generalizing task with
  | zero => mvcgen [climb]
  | succ fuel ih =>
    cases task with
    | right precedence => mvcgen [climb, ih]
    | tighten operand precedence => mvcgen [climb, ih]
    | onward left base => mvcgen [climb, ih]

@[spec]
theorem keeps_continued {left : Expression} {base : Precedence} :
    Keeps (continued g braces left base) := by
  mvcgen [continued]

@[spec]
theorem keeps_rangeEnd {closed : Bool} : Keeps (rangeEnd g braces closed) := by
  mvcgen [rangeEnd]

@[spec]
theorem keeps_expressionOf : Keeps (expressionOf g braces) := by
  mvcgen [expressionOf]

@[spec]
theorem keeps_fieldOfPart {start : Position} {part : String} :
    Keeps (fieldOfPart start part) := by
  mvcgen [fieldOfPart]

@[spec]
theorem keeps_member : Keeps (afterDot.member g) := by
  mvcgen [afterDot.member]

@[spec]
theorem keeps_afterDot : Keeps (afterDot g) := by
  mvcgen [afterDot]
  rename_i known _ _ _ ahead _
  exact Invariant.drop_literal known ahead

@[spec]
theorem keeps_trailer? {isRange : Bool} : Keeps (trailer? g isRange) := by
  mvcgen [trailer?]

@[spec]
theorem keeps_trailers {atom : Expression} : Keeps (trailers g atom) := by
  mvcgen [trailers]

@[spec]
theorem keeps_label : Keeps label := by
  mvcgen [label]

@[spec]
theorem keeps_branch : Keeps (conditional.branch g) := by
  mvcgen [conditional.branch]

theorem keeps_branchesUpTo {count : Nat} : Keeps (conditional.branchesUpTo g count) := by
  induction count with
  | zero => mvcgen [conditional.branchesUpTo]
  | succ count ih => mvcgen [conditional.branchesUpTo, ih]

@[spec]
theorem keeps_conditional : Keeps (conditional g) := by
  mvcgen [conditional, keeps_branchesUpTo]

@[spec]
theorem keeps_whileLoop : Keeps (whileLoop g) := by
  mvcgen [whileLoop]

@[spec]
theorem keeps_forLoop : Keeps (forLoop g) := by
  mvcgen [forLoop]

omit [Steady g] in
@[spec]
theorem keeps_endlessLoop : Keeps (endlessLoop g) := by
  mvcgen [endlessLoop]

omit [Steady g] in
@[spec]
theorem keeps_wordBlock {text : String} : Keeps (wordBlock g text) := by
  mvcgen [wordBlock]

omit [Steady g] in
@[spec]
theorem keeps_tryBlock : Keeps (tryBlock g) := by
  mvcgen [tryBlock]

@[spec]
theorem keeps_labelled : Keeps (labelled g) := by
  mvcgen [labelled]

@[spec]
theorem keeps_closureParameter : Keeps (closureParameter g) := by
  mvcgen [closureParameter]

@[spec]
theorem keeps_closure : Keeps (closure g braces) := by
  mvcgen [closure]

omit [Steady g] in
@[spec]
theorem keeps_asyncBlock : Keeps (asyncBlock g) := by
  mvcgen [asyncBlock]

@[spec]
theorem keeps_pathExpression : Keeps (pathExpression g braces) := by
  mvcgen [pathExpression]

omit [Steady g] in
@[spec]
theorem keeps_arrayExpression : Keeps (arrayExpression g) := by
  mvcgen [arrayExpression]

@[spec]
theorem keeps_builtin : Keeps builtin := by
  mvcgen [builtin]

@[spec]
theorem keeps_breakExpression : Keeps (breakExpression g braces) := by
  mvcgen [breakExpression]

@[spec]
theorem keeps_withValue {text : String} : Keeps (withValue g text) := by
  mvcgen [withValue]

@[spec]
theorem keeps_letExpression : Keeps (letExpression g braces) := by
  mvcgen [letExpression]

@[spec]
theorem keeps_choiceExpression : Keeps (choiceExpression g) := by
  mvcgen [choiceExpression]

@[spec]
theorem keeps_beginsClosure : Keeps beginsClosure := by
  mvcgen [beginsClosure]

@[spec]
theorem keeps_atom : Keeps (atom g braces) := by
  mvcgen [atom, bracketedExpression]

@[spec]
theorem keeps_operandOf : Keeps (operandOf g braces) := by
  mvcgen [operandOf]

@[spec]
theorem keeps_standaloneOf : Keeps (standaloneOf g) := by
  mvcgen [standaloneOf]

@[spec]
theorem keeps_macroStatement : Keeps macroStatement := by
  mvcgen [macroStatement]

@[spec]
theorem keeps_localStatement : Keeps (localStatement g) := by
  mvcgen [localStatement]

@[spec]
theorem keeps_statement : Keeps (statement g) := by
  mvcgen [statement, beginsItem]

theorem keeps_statementsUpTo {count : Nat} : Keeps (statementsUpTo g count) := by
  induction count with
  | zero => mvcgen [statementsUpTo]
  | succ count ih => mvcgen [statementsUpTo, ih]

@[spec]
theorem keeps_statementsOf : Keeps (statementsOf g) := by
  mvcgen [statementsOf, keeps_statementsUpTo]

end Forwarding.Grammar
