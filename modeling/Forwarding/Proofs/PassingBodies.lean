import Forwarding.Proofs.PassingHeads
import Forwarding.Proofs.RereadingNames
/-!
Bodies of functions. Readers of statements and expressions pass over the few that are printed: a
struct literal with a call, and a field of a field, with or without a reference to it.
-/

namespace Forwarding.Grammar.Parser

open Lexeme

variable {α β : Type} {g : Grammar} {tokens after : List Token}

/-- What may stand after an expression: nothing or a comma. -/
def EndsExpression (after : List Token) : Prop :=
  after = [] ∨ ∃ more, after = .punct ',' false :: more

/-- An expression that goes on with fields and calls, and that operators may follow. -/
def IsPlainForm (e : Expression) : Prop :=
  e.form = .plain

section Operators

theorem binaryOperator?_of_shows {lexemes : List Lexeme} (shown : Shows lexemes after) :
    binaryOperator? lexemes =
      binaryOperators.find? fun (symbols, _) => ahead after (.operator symbols) := by
  unfold binaryOperator?
  simp only [sees_of_shows shown]

theorem EndsExpression.noOperator (ends : EndsExpression after) :
    (binaryOperators.find? fun (symbols, _) => ahead after (.operator symbols)) = none ∧
      ahead after (.operator "=") = false ∧ ahead after (.operator "..") = false ∧
        ahead after (.word "as") = false := by
  rcases ends with rfl | ⟨more, rfl⟩
  · exact ⟨rfl, rfl, rfl, rfl⟩
  · exact ⟨rfl, rfl, rfl, rfl⟩

theorem takes_climb (ends : EndsExpression after) (braces : Bool) {e : Expression}
    (plain : IsPlainForm e) (base : Precedence) (fuel : Nat) :
    Takes (climb g braces (fuel + 1) (.onward e base)) after e after := by
  obtain ⟨noBinary, noEquals, noDots, noAs⟩ := ends.noOperator
  have noRange : ¬ (e.form == .range) = true := by rw [plain]; decide
  rw [climb, if_neg noRange]
  refine takes_get_bind fun i shown => ?_
  rw [binaryOperator?_of_shows shown, noBinary]
  dsimp only
  refine takes_seesOperator_bind.mpr (takes_seesOperator_bind.mpr ?_)
  rw [noEquals, Bool.and_false, Bool.false_and, if_neg Bool.false_ne_true]
  refine takes_seesOperator_bind.mpr ?_
  rw [noDots, Bool.and_false, if_neg Bool.false_ne_true]
  refine takes_seesWord_bind.mpr ?_
  rw [noAs, Bool.and_false, if_neg Bool.false_ne_true]
  exact takes_pure _

/-- No operator follows. -/
theorem takes_continued (ends : EndsExpression after) (braces : Bool) {e : Expression}
    (plain : IsPlainForm e) (base : Precedence) :
    Takes (continued g braces e base) after e after := by
  rw [continued, climbFuel, bind_assoc]
  refine takes_get_bind fun i _ => ?_
  rw [pure_bind]
  exact takes_climb ends braces plain base _

end Operators

section Paths

/-- A word that may be a path of an expression. -/
def IsPathWord (name : String) : Prop :=
  isIdentifier name = true ∨ name ∈ ["self", "Self"]

theorem takes_segment_word {name : String} (named : IsPathWord name)
    (noColons : ahead tokens (.operator "::") = false) :
    Takes (segment g true) (.ident name :: tokens) (.segment name []) tokens := by
  rw [segment, takes_peekAny_bind]
  split
  · exact (takes_anyWord name).bind (takes_pure _)
  · rename_i noWord
    have allowed : name ≠ "Self" → isIdentifier name = true := by
      intro other
      refine named.resolve_right fun listed => noWord ?_
      obtain rfl : name = "self" := by simpa [other] using listed
      rfl
    refine takes_seesWord_bind.mpr ?_
    refine takes_name_bind allowed ?_
    refine takes_seesOperator_bind.mpr (takes_seesOperator_bind.mpr
      (takes_seesOperator_bind.mpr (takes_peek3_bind fun flag => ?_)))
    rw [noColons]
    exact takes_pure _

theorem takes_moreSegments_none (inExpression : Bool)
    (noColons : ahead tokens (.operator "::") = false) :
    Takes (moreSegments g inExpression) tokens [] tokens := by
  refine takes_get_bind fun i _ => ?_
  rw [repeatUpTo]
  refine Takes.bind (a := none) ?_ (takes_pure _)
  refine takes_seesOperator_bind.mpr (takes_peek3_bind fun flag => ?_)
  rw [noColons]
  exact takes_pure _

theorem takes_path_word {name : String} (named : IsPathWord name)
    (noColons : ahead tokens (.operator "::") = false) :
    Takes (path g true) (.ident name :: tokens) (.path false [.segment name []]) tokens :=
  (takes_operator?_none rfl).bind ((takes_segment_word named noColons).bind
    ((takes_moreSegments_none true noColons).bind (takes_pure _)))

theorem passes_qualifiedPath_word {name : String} (named : IsPathWord name)
    (noColons : ahead tokens (.operator "::") = false) :
    Passes (qualifiedPath g true) (.ident name :: tokens) tokens :=
  passes_seesOperator_bind.mpr (passes_if rfl ((takes_path_word named noColons).passes trivial))

/-- A path through a type to a name. -/
theorem passes_qualifiedPath {inner : List Token} {name : String} (named : IsPathWord name)
    (read : Passes g.type
      (inner ++ .punct '>' false :: (Token.operator "::" ++ .ident name :: tokens))
      (.punct '>' false :: (Token.operator "::" ++ .ident name :: tokens)))
    (noColons : ahead tokens (.operator "::") = false) :
    Passes (qualifiedPath g true) (.punct '<' false :: (inner ++ .punct '>' false ::
      (Token.operator "::" ++ .ident name :: tokens))) tokens := by
  refine passes_seesOperator_bind.mpr (passes_else (by exact Bool.false_ne_true) ?_)
  refine (takes_operator (by decide) (by decide)).passes_bind (read.bind fun selfType => ?_)
  refine passes_seesWord_bind.mpr (passes_else (by exact Bool.false_ne_true) ?_)
  refine (takes_pure _).passes_bind ((takes_operator (by decide) (by decide)).passes_bind
    ((takes_operator (by decide) (by decide)).passes_bind (passes_get_bind fun i _ _ => ?_)))
  rw [segmentsUpTo, bind_assoc]
  refine (takes_segment_word named noColons).passes_bind ?_
  rw [bind_assoc]
  refine passes_seesOperator_bind.mpr ?_
  rw [noColons]
  exact passes_pure _

end Paths

section Trailers

/-- The tokens of a field of an expression. -/
def fieldTokens (name : String) : List Token :=
  [.punct '.' false, .ident name]

/-- The tokens of the arguments of a call. -/
def callTokens (arguments : List Token) : List Token :=
  .opening .parenthesis :: (arguments ++ [.closing .parenthesis])

/-- What may stand after a field: no path and no arguments. -/
def EndsField (tokens : List Token) : Prop :=
  ahead tokens (.operator "::") = false ∧ ahead tokens (.group .parenthesis) = false

theorem isIdentifier_ne {name word : String} (allowed : isIdentifier name = true)
    (keyword : isIdentifier word = false) : (name == word) = false := by
  refine beq_false_of_ne ?_
  rintro rfl
  rw [allowed] at keyword
  cases keyword

theorem takes_fieldMember {name : String} (allowed : isIdentifier name = true) :
    Takes fieldMember (.ident name :: after) (.ident name) after := by
  have first : ahead (.ident name :: after) .identifier = true := allowed
  rw [fieldMember, takes_peek_bind, first]
  exact (takes_identifier allowed).bind (takes_pure _)

theorem passes_trailer?_field {name : String} (allowed : isIdentifier name = true)
    (ends : EndsField after) :
    Passes (trailer? g false) (fieldTokens name ++ after) after (·.isSome) := by
  have noAwait : ahead (.ident name :: after) (.word "await") = false :=
    isIdentifier_ne allowed (by decide)
  have member : Passes (afterDot.member g) (.ident name :: after) after := by
    rw [afterDot.member]
    refine passes_seesWord_bind.mpr (passes_else (by simp [noAwait]) ?_)
    refine (takes_fieldMember allowed).passes_bind (passes_seesOperator_bind.mpr ?_)
    rw [ends.1]
    refine passes_else (by exact Bool.false_ne_true) ((takes_pure _).passes_bind
      (passes_peek_bind.mpr ?_))
    rw [ends.2]
    exact passes_else (by exact Bool.false_ne_true) (passes_pure _)
  refine passes_peek_bind.mpr (passes_else (by exact Bool.false_ne_true) ?_)
  refine passes_seesOperator_bind.mpr (passes_seesOperator_bind.mpr ?_)
  refine passes_if rfl ((takes_operator (by decide) (by decide)).passes_bind ?_)
  have dot : Passes (afterDot g) (.ident name :: after) after := by
    refine passes_place_bind fun start => passes_get_bind fun i _ shown => ?_
    obtain ⟨place, rest, same, -⟩ := shown.exists_leaf rfl
    rw [same]
    exact member
  exact dot.bind fun _ => (takes_pure _).passes rfl

theorem passes_expressionList {names : List String}
    (read : ∀ name ∈ names, ∀ rest, EndsExpression rest →
      Passes g.expression (.ident name :: rest) rest) :
    Passes (expressionList g) (Token.separated "," false (names.map fun name => [.ident name]))
      [] := by
  rw [← List.append_nil (Token.separated _ _ _)]
  refine Passes.bind (passes_punctuated (by decide) (by decide)
    (isMatched_of_noBracket (by decide)) tests_atEnd (fun part member => ?_)
    (fun part member rest next => ?_) rfl fun _ => rfl) fun _ => passes_pure _
  · obtain ⟨name, -, rfl⟩ := List.mem_map.mp member
    exact ⟨isMatched_of_noBracket (by simp [Token.isBracket]), List.cons_ne_nil _ _⟩
  · obtain ⟨name, listed, rfl⟩ := List.mem_map.mp member
    exact ⟨rfl, read name listed rest next⟩

theorem passes_trailer?_call {arguments : List Token} (matched : IsMatched arguments)
    (read : Passes (expressionList g) arguments []) (isRange : Bool) :
    Passes (trailer? g isRange) (callTokens arguments ++ after) after (·.isSome) := by
  refine passes_peek_bind.mpr (passes_if rfl ?_)
  rw [callTokens, List.cons_append, List.append_assoc]
  exact Passes.bind ((passes_grouped read matched).bind fun _ => passes_pure _) fun _ =>
    (takes_pure _).passes rfl

theorem passes_trailers {parts : List (List Token)} (may : List Token → Prop)
    (goesOn : ∀ part ∈ parts, ∀ rest, may (part ++ rest)) (last : may after)
    (each : ∀ part ∈ parts, (IsMatched part ∧ part ≠ []) ∧
      ∀ rest, may rest → Passes (trailer? g false) (part ++ rest) rest (·.isSome))
    (ends : EndsExpression after) {atom : Expression} (plain : IsPlainForm atom) :
    Passes (trailers g atom) (parts.flatten ++ after) after IsPlainForm := by
  have noRange : (atom.form == .range) = false := by rw [plain]; rfl
  have ended : Passes (trailer? g false) after after (· = none) := by
    obtain ⟨noCall, noDot, noIndex, noMark⟩ : ahead after (.group .parenthesis) = false ∧
        ahead after (.operator ".") = false ∧ ahead after (.group .bracket) = false ∧
          ahead after (.operator "?") = false := by
      rcases ends with rfl | ⟨more, rfl⟩ <;> exact ⟨rfl, rfl, rfl, rfl⟩
    simp only [trailer?, passes_peek_bind, passes_seesOperator_bind, noCall, noDot, noIndex, noMark,
      Bool.false_and, Bool.false_eq_true, if_false]
    exact (takes_pure _).passes rfl
  rw [trailers, noRange]
  refine (passes_repeated may goesOn last each ended).bind fun found => ?_
  split
  · exact (takes_pure _).passes plain
  · exact (takes_pure _).passes rfl

end Trailers

section Atoms

/-- Tokens that begin as a path of an expression does. -/
inductive BeginsPath : List Token → Prop
  | word {name : String} {more : List Token} (named : IsPathWord name)
      (noHash : ahead more (.operator "#") = false) : BeginsPath (.ident name :: more)
  | angle {more : List Token} : BeginsPath (.punct '<' false :: more)

theorem IsPathWord.ne {name word : String} (named : IsPathWord name)
    (keyword : isIdentifier word = false) (other : word ∉ ["self", "Self"]) :
    (name == word) = false := by
  rcases named with allowed | listed
  · exact isIdentifier_ne allowed keyword
  · refine beq_false_of_ne ?_
    rintro rfl
    exact other listed

namespace BeginsPath

theorem noWord (begins : BeginsPath tokens) {text : String} (keyword : isIdentifier text = false)
    (other : text ∉ ["self", "Self"]) : ahead tokens (.word text) = false := by
  cases begins with
  | word named _ => exact named.ne keyword other
  | angle => rfl

theorem noSymbol (begins : BeginsPath tokens) :
    ∀ symbols ∈ ["#", "&", "*", "!", "-", "|", "..", ";"],
      ahead tokens (.operator symbols) = false := by
  intro symbols listed
  simp only [List.mem_cons, List.not_mem_nil, or_false] at listed
  cases begins with
  | word => rcases listed with rfl | rfl | rfl | rfl | rfl | rfl | rfl | rfl <;> rfl
  | angle => rcases listed with rfl | rfl | rfl | rfl | rfl | rfl | rfl | rfl <;> rfl

theorem noLiteral (begins : BeginsPath tokens) : ahead tokens .literal = false := by
  cases begins with
  | word named _ =>
    have noTrue := named.ne (show isIdentifier "true" = false by decide) (by decide)
    have noFalse := named.ne (show isIdentifier "false" = false by decide) (by decide)
    simp [ahead, sees, leaves, dropLiteral, noTrue, noFalse]
  | @angle more =>
    rcases more with _ | ⟨_ | _, more⟩ <;> simp [ahead, sees, leaves, dropLiteral]

theorem path (begins : BeginsPath tokens) :
    Grammar.pathBeginnings.any (ahead tokens) = true := by
  cases begins with
  | word named _ =>
    rcases named with allowed | listed
    · exact (congrArg (· || _) allowed).trans (Bool.true_or _)
    · simp only [List.mem_cons, List.not_mem_nil, or_false] at listed
      rcases listed with rfl | rfl <;> rfl
  | angle => rfl

theorem takes_beginsClosure (begins : BeginsPath tokens) :
    Takes beginsClosure tokens false tokens := by
  have noWord {text : String} (listed : text ∈ ["move", "static", "for", "const", "async"]) :
      ahead tokens (.word text) = false := by
    simp only [List.mem_cons, List.not_mem_nil, or_false] at listed
    rcases listed with rfl | rfl | rfl | rfl | rfl <;> exact begins.noWord (by decide) (by decide)
  have none : [Expectation.operator "|", .word "move", .word "static"].any (ahead tokens) =
      false := by
    simp [begins.noSymbol "|" (by decide), noWord (show "move" ∈ _ by decide),
      noWord (show "static" ∈ _ by decide)]
  refine takes_peekAny_bind.mpr ?_
  rw [none, if_neg Bool.false_ne_true]
  refine takes_seesWord_bind.mpr (takes_peek2_bind fun _ => takes_peek3_bind fun _ =>
    takes_peek3_bind fun _ => ?_)
  rw [noWord (by decide), Bool.false_and, Bool.false_and, if_neg Bool.false_ne_true]
  refine takes_seesWord_bind.mpr (takes_peek2_bind fun _ => ?_)
  rw [noWord (by decide), Bool.false_and, if_neg Bool.false_ne_true]
  refine takes_seesWord_bind.mpr (takes_peek2_bind fun _ => takes_peek2_bind fun _ => ?_)
  rw [noWord (by decide), Bool.false_and]
  exact takes_pure _

end BeginsPath

theorem passes_atom {braces : Bool} (begins : BeginsPath tokens)
    (read : Passes (pathExpression g braces) tokens after IsPlainForm) :
    Passes (atom g braces) tokens after IsPlainForm := by
  have noAsync : ahead tokens (.word "async") = false := begins.noWord (by decide) (by decide)
  have noTry : ahead tokens (.word "try") = false := begins.noWord (by decide) (by decide)
  obtain ⟨hash, second, noBuiltin⟩ : ∃ flag, Takes (peek2 (.operator "#")) tokens flag tokens ∧
      (ahead tokens (.word "builtin") && flag) = false := by
    cases begins with
    | word named noHash =>
      exact ⟨_, (skips_word _).takes_peek2 _, by rw [noHash, Bool.and_false]⟩
    | angle => exact ⟨_, (skips_symbol (by decide)).takes_peek2 _, rfl⟩
  refine passes_peek2_bind fun _ => passes_peek2_bind fun _ => passes_peek3_bind fun _ => ?_
  refine passes_peek_bind.mpr (passes_else (by simp [begins.noLiteral]) ?_)
  refine passes_seesWord_bind.mpr (passes_else (by simp [noAsync]) ?_)
  refine passes_seesWord_bind.mpr (passes_peek2_bind fun _ => passes_else (by simp [noTry]) ?_)
  refine begins.takes_beginsClosure.passes_bind (passes_else Bool.false_ne_true ?_)
  refine passes_seesWord_bind.mpr (second.passes_bind (passes_else (by simp [noBuiltin]) ?_))
  refine passes_peekAny_bind.mpr (passes_seesWord_bind.mpr (passes_peek2_bind fun _ =>
    passes_peek2_bind fun _ => passes_if ?_ read))
  rw [begins.path, Bool.true_or]

/-- A path that is no macro and no struct literal. -/
theorem passes_pathExpression {braces : Bool} (read : Passes (qualifiedPath g true) tokens after)
    (noMacro : ahead after (.operator "!") = false)
    (noBrace : ahead after (.group .brace) = false) :
    Passes (pathExpression g braces) tokens after IsPlainForm := by
  refine read.bind fun name => passes_seesOperator_bind.mpr (passes_seesOperator_bind.mpr
    (passes_else (by simp [noMacro]) ?_))
  refine passes_peek_bind.mpr (passes_else (by simp [noBrace]) ?_)
  exact (takes_pure _).passes rfl

end Atoms

section Literals

variable {value : List Token}

theorem passes_fieldInitializer {name : String} (allowed : isIdentifier name = true)
    (read : Passes g.expression (value ++ after) after) :
    Passes (fieldInitializer g) (.ident name :: .punct ':' false :: (value ++ after)) after := by
  refine (takes_outerAttributes_none rfl).passes_bind ((takes_fieldMember allowed).passes_bind ?_)
  refine passes_seesOperator_bind.mpr (passes_if rfl ?_)
  exact (takes_operator (by decide) (by decide)).passes_bind (read.bind fun _ => passes_pure _)

theorem passes_initializersUpTo {name : String} (allowed : isIdentifier name = true) (fuel : Nat)
    (read : Passes g.expression (value ++ [Token.punct ',' false]) [.punct ',' false]) :
    Passes (initializersUpTo g (fuel + 2))
      (.ident name :: .punct ':' false :: (value ++ [Token.punct ',' false])) [] := by
  refine passes_atEnd_bind.mpr (passes_else (by exact Bool.false_ne_true) ?_)
  refine passes_seesOperator_bind.mpr (passes_else (by exact Bool.false_ne_true) ?_)
  refine (passes_fieldInitializer allowed read).bind fun first =>
    passes_atEnd_bind.mpr (passes_else (by exact Bool.false_ne_true) ?_)
  refine (takes_operator (by decide) (by decide)).passes_bind ?_
  rw [initializersUpTo, bind_assoc]
  exact passes_atEnd_bind.mpr (passes_pure _)

/-- A literal of a struct with one field. -/
theorem passes_pathExpression_record {name field : String} (named : IsPathWord name)
    (allowed : isIdentifier field = true) (matched : IsMatched value)
    (read : Passes g.expression (value ++ [Token.punct ',' false]) [.punct ',' false]) :
    Passes (pathExpression g true) (.ident name :: .opening .brace ::
        (Token.ident field :: .punct ':' false :: (value ++ [Token.punct ',' false])
          ++ .closing .brace :: after)) after IsPlainForm := by
  have body : Passes (do initializersUpTo g ((← get).rest.length + 1))
      (Token.ident field :: .punct ':' false :: (value ++ [Token.punct ',' false])) [] := by
    refine passes_get_bind fun i _ shown => ?_
    obtain ⟨place, rest, same, -⟩ := shown.exists_leaf rfl
    rw [same]
    exact passes_initializersUpTo allowed rest.length read
  have whole :
      IsMatched (.ident field :: .punct ':' false :: (value ++ [Token.punct ',' false])) :=
    .leaf rfl (.leaf rfl (matched.append (isMatched_of_noBracket (by decide))))
  refine (passes_qualifiedPath_word named rfl).bind fun path => passes_seesOperator_bind.mpr
    (passes_seesOperator_bind.mpr (passes_else (by exact Bool.false_ne_true) ?_))
  refine passes_peek_bind.mpr (passes_if rfl ?_)
  exact (passes_grouped body whole).bind fun _ => (takes_pure _).passes rfl

end Literals

section Expressions

variable {braces : Bool}

/-- An operand that begins with a path. -/
theorem passes_operandOf_path (begins : BeginsPath tokens) {parts : List (List Token)}
    (read : Passes (pathExpression g braces) tokens (parts.flatten ++ after) IsPlainForm)
    (may : List Token → Prop) (goesOn : ∀ part ∈ parts, ∀ rest, may (part ++ rest))
    (last : may after)
    (each : ∀ part ∈ parts, (IsMatched part ∧ part ≠ []) ∧
      ∀ rest, may rest → Passes (trailer? g false) (part ++ rest) rest (·.isSome))
    (ends : EndsExpression after) : Passes (operandOf g braces) tokens after IsPlainForm := by
  have noSign : [Expectation.operator "*", .operator "!", .operator "-"].any (ahead tokens) =
      false := by
    simp [begins.noSymbol "*" (by decide), begins.noSymbol "!" (by decide),
      begins.noSymbol "-" (by decide)]
  refine (takes_outerAttributes_none (begins.noSymbol "#" (by decide))).passes_bind ?_
  refine passes_seesOperator_bind.mpr (passes_else ?_ ?_)
  · simp [begins.noSymbol "&" (by decide)]
  refine passes_peekAny_bind.mpr (passes_else (by simp [noSign]) ?_)
  refine passes_place_bind fun start => (passes_atom begins read).bindOf fun e plain =>
    (passes_trailers may goesOn last each ends plain).bindOf fun whole plain' => ?_
  exact passes_if rfl ((takes_pure _).passes plain')

/-- A reference to an operand. -/
theorem passes_operandOf_reference {mutable : Bool} (noRaw : ahead tokens (.word "raw") = false)
    (noMut : ahead tokens (.word "mut") = false)
    (read : Passes (g.operand braces) tokens after) :
    Passes (operandOf g braces)
      (.punct '&' false :: ((if mutable then [Token.ident "mut"] else []) ++ tokens)) after
      IsPlainForm := by
  have noRaw' : ahead ((if mutable then [Token.ident "mut"] else []) ++ tokens) (.word "raw") =
      false := by
    cases mutable with
    | true => rfl
    | false => exact noRaw
  have word :
      Passes (word? "mut") ((if mutable then [Token.ident "mut"] else []) ++ tokens) tokens := by
    cases mutable with
    | true => exact (takes_word?_some "mut").passes trivial
    | false => exact (takes_word?_none noMut).passes trivial
  refine (takes_outerAttributes_none rfl).passes_bind ?_
  refine passes_seesOperator_bind.mpr (passes_if rfl
    ((takes_operator (by decide) (by decide)).passes_bind ?_))
  refine passes_seesWord_bind.mpr (passes_peek2_bind fun _ => passes_peek2_bind fun _ =>
    passes_else (by simp [noRaw']) ?_)
  exact word.bind fun _ => (takes_pure _).passes_bind
    (read.bind fun _ => (takes_pure _).passes rfl)

/-- An expression whose operand no operator follows. -/
theorem passes_expressionOf (read : Passes (g.operand braces) tokens after IsPlainForm)
    (ends : EndsExpression after) : Passes (expressionOf g braces) tokens after IsPlainForm :=
  read.bindOf fun _ plain => (takes_continued ends braces plain _).passes plain

/-- A name as an expression. -/
theorem passes_expression_name (depth : Nat) {name : String} (allowed : isIdentifier name = true)
    (ends : EndsExpression after) :
    Passes (Grammar.expression (ofDepth (depth + 2))) (.ident name :: after) after := by
  obtain ⟨noColons, noHash, noMacro, noBrace⟩ : ahead after (.operator "::") = false ∧
      ahead after (.operator "#") = false ∧ ahead after (.operator "!") = false ∧
        ahead after (.group .brace) = false := by
    rcases ends with rfl | ⟨more, rfl⟩ <;> exact ⟨rfl, rfl, rfl, rfl⟩
  have path : Passes (pathExpression (ofDepth depth) true) (.ident name :: after)
      (([] : List (List Token)).flatten ++ after) IsPlainForm :=
    passes_pathExpression (passes_qualifiedPath_word (.inl allowed) noColons) noMacro noBrace
  have operand : Passes (operandOf (ofDepth depth) true) (.ident name :: after) after IsPlainForm :=
    passes_operandOf_path (.word (.inl allowed) noHash) path (fun _ => True) (by simp) trivial
      (by simp) ends
  have whole : Passes (expressionOf (ofDepth (depth + 1)) true) (.ident name :: after) after
      IsPlainForm :=
    passes_expressionOf operand ends
  exact whole.bind fun _ => passes_pure _

theorem isMatched_names (names : List String) :
    IsMatched (Token.separated "," false (names.map fun name => [.ident name])) := by
  refine .separated (isMatched_of_noBracket (by decide)) _ fun part member => ?_
  obtain ⟨name, -, rfl⟩ := List.mem_map.mp member
  exact .leaf rfl .nil

/-- A call of a function of a type by its name. -/
theorem passes_expression_call (depth : Nat) {inner : List Token} {name : String}
    (named : isIdentifier name = true) {names : List String}
    (arguments : ∀ name ∈ names, isIdentifier name = true)
    (read : ∀ rest, Passes (Grammar.type (ofDepth (depth + 2))) (inner ++ .punct '>' false :: rest)
      (.punct '>' false :: rest))
    (ends : EndsExpression after) :
    Passes (Grammar.expression (ofDepth (depth + 4))) (.punct '<' false :: (inner ++
        .punct '>' false :: (Token.operator "::" ++ .ident name ::
          (callTokens (Token.separated "," false (names.map fun name => [.ident name])) ++ after))))
      after := by
  have matched := isMatched_names names
  have path : Passes (pathExpression (ofDepth (depth + 2)) true) (.punct '<' false :: (inner ++
        .punct '>' false :: (Token.operator "::" ++ .ident name ::
          (callTokens (Token.separated "," false (names.map fun name => [.ident name])) ++ after))))
      ([callTokens (Token.separated "," false (names.map fun name => [.ident name]))].flatten
        ++ after) IsPlainForm := by
    rw [List.flatten_singleton]
    exact passes_pathExpression (passes_qualifiedPath (.inl named) (read _) rfl) rfl rfl
  refine Passes.bind (p := expressionOf (ofDepth (depth + 3)) true)
    (passes_expressionOf ?_ ends) fun _ => passes_pure _
  show Passes (operandOf (ofDepth (depth + 2)) true) _ _ _
  refine passes_operandOf_path .angle path (fun _ => True) (by simp) trivial
    (fun part member => ?_) ends
  obtain rfl := List.mem_singleton.mp member
  exact ⟨⟨.group _ matched .nil, List.cons_ne_nil _ _⟩, fun rest _ =>
    passes_trailer?_call matched (passes_expressionList fun name member rest ends =>
      passes_expression_name depth (arguments name member) ends) false⟩

/-- A chain of fields of the receiver. -/
theorem passes_operandOf_fields {braces : Bool} {names : List String}
    (named : ∀ name ∈ names, isIdentifier name = true) (some : names ≠ []) :
    Passes (operandOf g braces) (.ident "self" :: (names.map fieldTokens).flatten) []
      IsPlainForm := by
  obtain ⟨name, others, rfl⟩ := List.exists_cons_of_ne_nil some
  have path : Passes (pathExpression g braces)
      (.ident "self" :: ((name :: others).map fieldTokens).flatten)
      (((name :: others).map fieldTokens).flatten ++ []) IsPlainForm := by
    rw [List.append_nil]
    exact passes_pathExpression (passes_qualifiedPath_word (.inr (by decide)) rfl) rfl rfl
  refine passes_operandOf_path (.word (.inr (by decide)) rfl) path EndsField
    (fun part member rest => ?_) ⟨rfl, rfl⟩ (fun part member => ?_) (.inl rfl)
  · obtain ⟨_, -, rfl⟩ := List.mem_map.mp member
    exact ⟨rfl, rfl⟩
  · obtain ⟨field, listed, rfl⟩ := List.mem_map.mp member
    exact ⟨⟨isMatched_of_noBracket (by simp [fieldTokens, Token.isBracket]),
      List.cons_ne_nil _ _⟩, fun rest ends => passes_trailer?_field (named field listed) ends⟩

end Expressions

section Statements

/-- Tokens that begin a statement that is an expression: a word of the type or its value, or a
reference. -/
inductive BeginsStatement : List Token → Prop
  | word {name : String} {more : List Token} (listed : name ∈ ["self", "Self"])
      (noColons : ahead more (.operator "::") = false)
      (noMacro : ahead more (.operator "!") = false) : BeginsStatement (.ident name :: more)
  | reference {more : List Token} : BeginsStatement (.punct '&' false :: more)

/-- Whatever a reader gives, a look ahead gives it as well. -/
theorem Passes.lookingAhead {p : Parser α} {known : α → Prop}
    (passed : Passes p tokens after known) :
    Passes (lookingAhead p) tokens tokens fun found => ∃ a, found = some a ∧ known a := by
  intro i none shown
  obtain ⟨a, j, ran, own, -⟩ := passed i none shown
  exact ⟨some a, i, reads_lookingAhead.mpr ⟨rfl, .inl ⟨a, j, ran, rfl⟩⟩, ⟨a, rfl, own⟩, none, shown⟩

theorem Refuses.lookingAhead {p : Parser α} (refused : Refuses p tokens) :
    Takes (lookingAhead p) tokens none tokens :=
  fun i shown => ⟨i.rest, shown, reads_lookingAhead.mpr ⟨rfl, .inr ⟨refused i shown, rfl⟩⟩⟩

/-- No path begins with a reference. -/
theorem refuses_plainPath_reference : Refuses plainPath (.punct '&' false :: tokens) := by
  have noName : Refuses identifier (.punct '&' false :: tokens) := by
    intro i shown name j read
    obtain ⟨_, _, same, -⟩ := reads_identifier.mp read
    obtain ⟨_, _, same', -⟩ := shown.exists_leaf rfl
    rw [same] at same'
    cases same'
  have names (count : Nat) : Takes (plainNamesUpTo (count + 1)) (.punct '&' false :: tokens)
      ([], true) (.punct '&' false :: tokens) := by
    rw [plainNamesUpTo]
    exact takes_peekAny_bind.mpr (takes_pure _)
  refine (takes_operator?_none rfl).refuses_bind ?_
  rw [place, bind_assoc]
  refine refuses_get_bind fun _ _ => ?_
  rw [pure_bind]
  exact refuses_get_bind fun _ _ => (names _).refuses_bind noName.bind

namespace BeginsStatement

theorem noWord (begins : BeginsStatement tokens) {text : String} (other : text ∉ ["self", "Self"]) :
    ahead tokens (.word text) = false := by
  cases begins with
  | word listed =>
    refine beq_false_of_ne ?_
    rintro rfl
    exact other listed
  | reference => rfl

theorem noGroup (begins : BeginsStatement tokens) (delimiter : Delimiter) :
    ahead tokens (.group delimiter) = false := by
  cases begins <;> rfl

theorem noSymbol (begins : BeginsStatement tokens) :
    ahead tokens (.operator "#") = false ∧ ahead tokens (.operator ";") = false ∧
      tokens.isEmpty = false := by
  cases begins <;> exact ⟨rfl, rfl, rfl⟩

theorem noLifetime (begins : BeginsStatement tokens) : ahead tokens .lifetime = false := by
  cases begins <;> rfl

theorem takes_beginsItem (begins : BeginsStatement tokens) :
    Takes beginsItem tokens false tokens := by
  refine takes_get_bind fun i shown => ?_
  simp only [sees_of_shows shown]
  simp [begins.noWord]
  exact takes_pure _

theorem passes_macroStatement (begins : BeginsStatement tokens) :
    Passes macroStatement tokens tokens (· = .none) := by
  cases begins with
  | @word name more listed noColons noMacro =>
    have path : (Expectation.identifier :: pathWords).any (ahead (.ident name :: more)) = true := by
      simp only [List.mem_cons, List.not_mem_nil, or_false] at listed
      rcases listed with rfl | rfl <;> rfl
    have noMark : (!ahead more (.operator "!")) = true := by rw [noMacro]; rfl
    refine Passes.bindOf (Passes.lookingAhead ((passes_plainPath path noColons).bind fun _ =>
      passes_seesOperator_bind.mpr (passes_if noMark
        ((takes_pure _).passes (show MacroStatement.none = .none from rfl))))) fun found own => ?_
    obtain ⟨_, rfl, rfl⟩ := own
    exact (takes_pure _).passes rfl
  | reference =>
    exact refuses_plainPath_reference.bind.lookingAhead.passes_bind ((takes_pure _).passes rfl)

end BeginsStatement

/-- A statement of one expression at the end of a block. -/
theorem passes_statement (begins : BeginsStatement tokens) (read : Passes g.standalone tokens []) :
    Passes (statement g) tokens [] := by
  obtain ⟨noHash, -⟩ := begins.noSymbol
  refine passes_get_bind fun start _ _ => (takes_outerAttributes_none noHash).passes_bind ?_
  refine begins.passes_macroStatement.bindOf fun kind same => ?_
  subst same
  dsimp only
  refine passes_seesWord_bind.mpr (passes_else ?_ ?_)
  · simp [begins.noWord (show "let" ∉ ["self", "Self"] by decide)]
  refine begins.takes_beginsItem.passes_bind (passes_else (by decide) ?_)
  exact read.bind fun value => (takes_operator?_none rfl).passes_bind (passes_pure _)

/-- A block of one expression. -/
theorem passes_statementsOf (begins : BeginsStatement tokens)
    (read : Passes g.standalone tokens []) : Passes (statementsOf g) tokens [] := by
  obtain ⟨-, noSemicolon, filled⟩ := begins.noSymbol
  have noEmpty : Takes (repeated (operator? ";")) tokens [] tokens := by
    refine takes_get_bind fun i _ => ?_
    rw [repeatUpTo]
    exact (takes_operator?_none noSemicolon).bind (takes_pure _)
  refine passes_get_bind fun i _ _ => ?_
  rw [statementsUpTo]
  refine noEmpty.passes_bind (passes_atEnd_bind.mpr (passes_else (by simp [filled]) ?_))
  refine (passes_statement begins read).bind fun first => passes_atEnd_bind.mpr ?_
  exact passes_if rfl (passes_pure _)

theorem passes_standaloneOf (begins : BeginsStatement tokens)
    (read : Passes (g.operand true) tokens [] IsPlainForm) : Passes (standaloneOf g) tokens [] := by
  obtain ⟨noHash, -⟩ := begins.noSymbol
  have noWord {text : String} (other : text ∉ ["self", "Self"]) :
      ¬ ahead tokens (.word text) = true := ne_true_of_eq_false (begins.noWord other)
  have noWords {text : String} (flag : Bool) (other : text ∉ ["self", "Self"]) :
      ¬ (ahead tokens (.word text) && flag) = true := by
    simp [begins.noWord other]
  refine (takes_outerAttributes_none noHash).passes_bind ?_
  refine passes_seesWord_bind.mpr (passes_peek2_bind fun _ => passes_peek3_bind fun _ =>
    passes_peek3_bind fun _ => ?_)
  refine passes_seesWord_bind.mpr (passes_seesWord_bind.mpr (passes_seesWord_bind.mpr
    (passes_seesWord_bind.mpr (passes_seesWord_bind.mpr (passes_seesWord_bind.mpr
      (passes_peek2_bind fun _ => passes_seesWord_bind.mpr (passes_seesWord_bind.mpr
        (passes_peek2_bind fun _ => passes_peek_bind.mpr (passes_peek_bind.mpr ?_)))))))))
  refine passes_else (noWord (by decide)) (passes_else (noWord (by decide)) ?_)
  refine passes_else (noWords _ (by decide)) (passes_else (noWord (by decide)) ?_)
  refine passes_else (noWord (by decide)) (passes_else (noWords _ (by decide)) ?_)
  refine passes_else (noWord (by decide)) (passes_else (noWords _ (by decide)) ?_)
  refine passes_else (by simp [begins.noGroup]) (passes_else (by simp [begins.noLifetime]) ?_)
  refine read.bindOf fun first plain => passes_if (by rw [plain]; rfl) ?_
  exact (takes_continued (.inl rfl) true plain _).passes trivial

/-- The tokens of a reference. -/
def referenceTokens (mutable : Bool) (tokens : List Token) : List Token :=
  .punct '&' false :: ((if mutable then [.ident "mut"] else []) ++ tokens)

/-- The tokens of fields of the receiver. -/
def chainTokens (names : List String) : List Token :=
  .ident "self" :: (names.map fieldTokens).flatten

variable {names : List String}

theorem passes_statements_fields (depth : Nat) (named : ∀ name ∈ names, isIdentifier name = true)
    (some : names ≠ []) :
    Passes (Grammar.statements (ofDepth (depth + 3))) (chainTokens names) [] := by
  have begins : BeginsStatement (chainTokens names) := by
    obtain ⟨name, others, rfl⟩ := List.exists_cons_of_ne_nil some
    exact .word (by decide) rfl rfl
  have operand : Passes (Grammar.operand (ofDepth (depth + 1)) true) (chainTokens names) []
      IsPlainForm := passes_operandOf_fields named some
  have standalone : Passes (Grammar.standalone (ofDepth (depth + 2))) (chainTokens names) [] :=
    passes_standaloneOf begins operand
  exact passes_statementsOf begins standalone

theorem passes_statements_reference (depth : Nat) (mutable : Bool)
    (named : ∀ name ∈ names, isIdentifier name = true) (some : names ≠ []) :
    Passes (Grammar.statements (ofDepth (depth + 4)))
      (referenceTokens mutable (chainTokens names)) [] := by
  have operand : Passes (Grammar.operand (ofDepth (depth + 1)) true) (chainTokens names) []
      IsPlainForm := passes_operandOf_fields named some
  have whole : Passes (Grammar.operand (ofDepth (depth + 2)) true)
      (referenceTokens mutable (chainTokens names)) [] IsPlainForm :=
    passes_operandOf_reference rfl rfl (operand.mono fun _ _ => trivial)
  have standalone : Passes (Grammar.standalone (ofDepth (depth + 3)))
      (referenceTokens mutable (chainTokens names)) [] := passes_standaloneOf .reference whole
  exact passes_statementsOf .reference standalone

/-- The tokens of a struct literal of the type, with the result of a call in its only field. -/
def literalTokens (inner : List Token) (constructor : String) (names : List String) : List Token :=
  .ident "Self" :: .opening .brace :: (.ident "inner" :: .punct ':' false ::
    (.punct '<' false :: (inner ++ .punct '>' false :: (Token.operator "::" ++ .ident constructor ::
      callTokens (Token.separated "," false (names.map fun name => [.ident name]))))
        ++ [.punct ',' false]) ++ [.closing .brace])

theorem passes_statements_literal (depth : Nat) {inner : List Token} {constructor : String}
    (named : isIdentifier constructor = true) (arguments : ∀ name ∈ names, isIdentifier name = true)
    (matched : IsMatched inner)
    (read : ∀ rest, Passes (Grammar.type (ofDepth (depth + 2))) (inner ++ .punct '>' false :: rest)
      (.punct '>' false :: rest)) :
    Passes (Grammar.statements (ofDepth (depth + 7))) (literalTokens inner constructor names)
      [] := by
  have begins : BeginsStatement (literalTokens inner constructor names) := .word (by decide) rfl rfl
  have call := passes_expression_call depth named arguments read (.inr ⟨[], rfl⟩)
  have record : Passes (pathExpression (ofDepth (depth + 4)) true)
      (literalTokens inner constructor names) (([] : List (List Token)).flatten ++ [])
      IsPlainForm := by
    refine passes_pathExpression_record (.inr (by decide)) (by decide) ?_ ?_
    · exact .leaf rfl (matched.append (.leaf rfl (.append (isMatched_of_noBracket (by decide))
        (.leaf rfl (.group _ (isMatched_names names) .nil)))))
    · simpa only [List.append_assoc, List.cons_append] using call
  have operand : Passes (Grammar.operand (ofDepth (depth + 5)) true)
      (literalTokens inner constructor names) [] IsPlainForm :=
    passes_operandOf_path (.word (.inr (by decide)) rfl) record (fun _ => True) (by simp) trivial
      (by simp) (.inl rfl)
  have standalone : Passes (Grammar.standalone (ofDepth (depth + 6)))
      (literalTokens inner constructor names) [] := passes_standaloneOf begins operand
  exact passes_statementsOf begins standalone

end Statements

end Forwarding.Grammar.Parser
