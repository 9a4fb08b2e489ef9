import Forwarding.Proofs.PassingBodies
/-!
Functions with all they hold. Readers of names as types, of parameters, signatures and bodies pass
over what is printed of a function.
-/

namespace Forwarding.Grammar.Parser

open Lexeme

variable {g : Grammar} {after : List Token}

section Types

/-- The tokens of a generic argument: a lifetime or a name. -/
def IsArgument (part : List Token) : Prop :=
  (∃ name, Lexer.IsName name ∧ part = Token.lifetime name)
    ∨ ∃ name, IsIdentifier name ∧ part = [.ident name]

theorem IsArgument.isLexable {part : List Token} (argument : IsArgument part) :
    Token.IsLexable part ∧ part ≠ [] := by
  rcases argument with ⟨name, named, rfl⟩ | ⟨name, named, rfl⟩
  · exact ⟨.lifetime named, List.cons_ne_nil _ _⟩
  · exact ⟨.word named.1 .nil, List.cons_ne_nil _ _⟩

theorem IsArgument.passes {part : List Token} (argument : IsArgument part) (depth : Nat)
    (ends : Begins argumentEnds after) :
    ahead (part ++ after) (.operator ">") = false ∧
      Passes (genericArgument (ofDepth (depth + 2))) (part ++ after) after := by
  rcases argument with ⟨name, -, rfl⟩ | ⟨name, named, rfl⟩
  · exact ⟨rfl, (takes_genericArgument_lifetime name ends).passes trivial⟩
  · have plain : (Tree.path false [.segment name []]).IsPlain := by
      refine .of_ident? rfl ⟨named.1, .inl named.2⟩ ?_
      rintro rfl
      exact absurd named.2 (by decide)
    exact ⟨rfl, (takes_genericArgument plain (plain.rereads (by
        simp [Tree.tokens, Tree.tokensEach, Tree.joinColons, Tree.tokensOf])) ends).passes
      trivial⟩

theorem passes_genericArguments (depth : Nat) {parts : List (List Token)}
    (each : ∀ part ∈ parts, IsArgument part) :
    Passes (genericArguments (ofDepth (depth + 2)))
      (.punct '<' false :: (Token.separated "," false parts ++ .punct '>' false :: after))
      after := by
  refine (takes_operator?_none rfl).passes_bind
    ((takes_operator (by decide) (by decide)).passes_bind ?_)
  refine (passes_punctuated (by decide) (by decide) (isMatched_of_noBracket (by decide))
    (tests_seesOperator ">")
    (fun part member => (each part member).isLexable.imp_left (·.matched))
    (fun part member rest next => (each part member).passes depth ?_) rfl fun _ => rfl).bind
      fun _ => (takes_operator (by decide) (by decide)).passes_bind (passes_pure _)
  rcases next with rfl | ⟨more, rfl⟩
  all_goals
    rintro t first
    cases first
    decide

theorem passes_segment_name (depth : Nat) {name : String} (named : isIdentifier name = true)
    {parts : List (List Token)} (each : ∀ part ∈ parts, IsArgument part)
    (ends : Begins typeEnds after) :
    Passes (segment (ofDepth (depth + 2)) false) (.ident name :: (angledTokens parts ++ after))
      after := by
  have noWord : segmentWords.any (ahead (.ident name :: (angledTokens parts ++ after))) =
      false := by
    have other {word : String} (keyword : isIdentifier word = false) :
        ahead (.ident name :: (angledTokens parts ++ after)) (.word word) = false :=
      isIdentifier_ne named keyword
    simp [segmentWords, other (show isIdentifier "super" = false by decide),
      other (show isIdentifier "self" = false by decide),
      other (show isIdentifier "crate" = false by decide),
      other (show isIdentifier "try" = false by decide)]
  have noSelf : ¬ ahead (.ident name :: (angledTokens parts ++ after)) (.word "Self") = true :=
    ne_true_of_eq_false (isIdentifier_ne named (by decide))
  refine passes_peekAny_bind.mpr (passes_else (by rw [noWord]; decide) ?_)
  refine passes_seesWord_bind.mpr (passes_else noSelf ((takes_identifier named).passes_bind ?_))
  refine passes_seesOperator_bind.mpr (passes_seesOperator_bind.mpr (passes_seesOperator_bind.mpr
    (passes_peek3_bind fun _ => ?_)))
  cases parts with
  | nil =>
    have noLess : ahead after (.operator "<") = false := ends.noOperator (by decide)
    have noColons : ahead after (.operator "::") = false := ends.noOperator (by decide)
    refine passes_else ?_ (passes_pure _)
    simp [angledTokens, noLess, noColons]
  | cons part parts =>
    refine passes_if rfl ?_
    rw [angledTokens, List.isEmpty_cons, if_neg Bool.false_ne_true, List.cons_append,
      List.append_assoc]
    exact (passes_genericArguments depth each).bind fun _ => passes_pure _

/-- A type by its name and arguments. -/
theorem passes_type_name (depth : Nat) {name : String} (named : isIdentifier name = true)
    {parts : List (List Token)} (each : ∀ part ∈ parts, IsArgument part)
    (ends : Begins typeEnds after) :
    Passes (Grammar.type (ofDepth (depth + 3))) (.ident name :: (angledTokens parts ++ after))
      after := by
  have noColons : ahead after (.operator "::") = false := ends.noOperator (by decide)
  have noMacro : ahead after (.operator "!") = false := ends.noOperator (by decide)
  have noPlus : ahead after (.operator "+") = false := ends.noOperator (by decide)
  have path : Passes (path (ofDepth (depth + 2)) false)
      (.ident name :: (angledTokens parts ++ after)) after :=
    (takes_operator?_none rfl).passes_bind ((passes_segment_name depth named each ends).bind
      fun _ => (takes_moreSegments_none false noColons).passes_bind (passes_pure _))
  have qualified : Passes (qualifiedPath (ofDepth (depth + 2)) false)
      (.ident name :: (angledTokens parts ++ after)) after :=
    passes_seesOperator_bind.mpr (passes_if rfl path)
  have noWord {word : String} (keyword : isIdentifier word = false) :
      ahead (.ident name :: (angledTokens parts ++ after)) (.word word) = false :=
    isIdentifier_ne named keyword
  show Passes (typeOf (ofDepth (depth + 2)) true) _ _
  refine passes_place_bind fun start =>
    (takes_binder?_none (noWord (by decide))).passes_bind ?_
  refine passes_else (by decide) ?_
  refine passes_peek_bind.mpr (passes_else (by exact Bool.false_ne_true) ?_)
  refine passes_peekAny_bind.mpr (passes_else ?_ ?_)
  · simp [noWord (show isIdentifier "fn" = false by decide),
      noWord (show isIdentifier "unsafe" = false by decide),
      noWord (show isIdentifier "extern" = false by decide)]
  refine passes_peekAny_bind.mpr (passes_if ?_ ?_)
  · exact (congrArg (· || _) named).trans (Bool.true_or _)
  refine qualified.bind fun whole => ?_
  split
  · refine passes_seesOperator_bind.mpr (passes_seesOperator_bind.mpr (passes_else ?_ ?_))
    · simp [noMacro]
    refine passes_seesOperator_bind.mpr (passes_else ?_ (passes_pure _))
    simp [noPlus]
  · exact passes_pure _

end Types

section Parameters

variable {tokens : List Token}

theorem passes_attempt {α : Type} {p : Parser α} {known : α → Prop}
    (passed : Passes p tokens after known) :
    Passes (attempt p) tokens after fun found => ∃ a, found = some a ∧ known a := by
  intro i none shown
  obtain ⟨a, j, ran, own, later⟩ := passed i none shown
  exact ⟨some a, j, reads_attempt.mpr (.inl ⟨a, ran, rfl⟩), ⟨a, rfl, own⟩, later⟩

theorem Refuses.attempt {α : Type} {p : Parser α} (refused : Refuses p tokens) :
    Takes (attempt p) tokens none tokens :=
  fun i shown => ⟨i.rest, shown, reads_attempt.mpr (.inr ⟨refused i shown, rfl, rfl⟩)⟩

theorem refuses_receiver {name : String} (allowed : isIdentifier name = true) :
    Refuses (receiver g) (.ident name :: tokens) := by
  intro i shown tree j read
  have unseen := unseen_of_reads_receiver read
  obtain ⟨place, rest, same, -⟩ := shown.exists_leaf rfl
  rw [same] at unseen
  exact absurd (allowed.symm.trans unseen) (by decide)

/-- A name before a colon is a pattern. -/
theorem passes_patternOf_name {name : String} (allowed : isIdentifier name = true) :
    Passes (patternOf g) (.ident name :: .punct ':' false :: tokens)
      (.punct ':' false :: tokens) := by
  have noWord {word : String} (keyword : isIdentifier word = false) :
      ahead (.ident name :: .punct ':' false :: tokens) (.word word) = false :=
    isIdentifier_ne allowed keyword
  have binding : Passes (bindingPattern g) (.ident name :: .punct ':' false :: tokens)
      (.punct ':' false :: tokens) := by
    refine (takes_word?_none (noWord (by decide))).passes_bind
      ((takes_word?_none (noWord (by decide))).passes_bind (passes_seesWord_bind.mpr
        (passes_else (by simp [noWord (show isIdentifier "self" = false by decide)]) ?_)))
    refine (takes_identifier allowed).passes_bind (passes_seesOperator_bind.mpr ?_)
    exact passes_else (by exact Bool.false_ne_true) (passes_pure _)
  refine passes_get_bind fun i _ shown => ?_
  have later : Shows (skipOne i.rest) (.punct ':' false :: tokens) := skips_word name _ shown
  refine passes_peek_bind.mpr (passes_seesWord_bind.mpr (passes_peekAny_bind.mpr
    (passes_else ?_ ?_)))
  · have noPath : [Expectation.operator "::", .operator "!", .group .brace, .group .parenthesis,
        .operator ".."].any (ahead (.punct ':' false :: tokens)) = false := rfl
    have noWords : [Expectation.operator "::", .operator "<", .word "Self", .word "super",
        .word "crate"].any (ahead (.ident name :: .punct ':' false :: tokens)) = false := by
      rw [List.any_cons, List.any_cons, List.any_cons, List.any_cons, List.any_cons,
        noWord (by decide), noWord (by decide), noWord (by decide)]
      rfl
    rw [funext (sees_of_shows later), noPath, noWords, noWord (by decide)]
    simp
  refine passes_seesWord_bind.mpr (passes_else ?_ ?_)
  · simp [noWord (show isIdentifier "_" = false by decide)]
  refine passes_seesWord_bind.mpr (passes_else ?_ ?_)
  · simp [noWord (show isIdentifier "box" = false by decide)]
  refine passes_peekAny_bind.mpr (passes_else ?_ ?_)
  · have noLiteral : ahead (.ident name :: .punct ':' false :: tokens) .literal = false := by
      have noTrue := isIdentifier_ne allowed (show isIdentifier "true" = false by decide)
      have noFalse := isIdentifier_ne allowed (show isIdentifier "false" = false by decide)
      simp [ahead, sees, leaves, dropLiteral, noTrue, noFalse]
    rw [List.any_cons, List.any_cons, List.any_cons, noLiteral, noWord (by decide)]
    exact Bool.false_ne_true
  refine passes_peekAny_bind.mpr (passes_if ?_ binding)
  simp [ahead, sees, leaves, allowed]

/-- A parameter that has been read is no receiver. -/
def IsTyped : ParameterOrDots → Prop
  | .parameter (.typed ..) _ => True
  | _ => False

theorem passes_parameterOrDots {name : String} {type : List Token}
    (allowed : isIdentifier name = true) (begins : BeginsType type)
    (pattern : Passes g.pattern (.ident name :: .punct ':' false :: (type ++ after))
      (.punct ':' false :: (type ++ after)))
    (read : Passes g.type (type ++ after) after) (attributes : List Attribute) :
    Passes (parameterOrDots g attributes) (.ident name :: .punct ':' false :: (type ++ after)) after
      IsTyped := by
  refine passes_get_bind fun i _ _ => (refuses_receiver allowed).attempt.passes_bind ?_
  refine passes_place_bind fun start => passes_peek_bind.mpr
    (((skips_word name).takes_peek2 _).passes_bind (passes_else ?_ ?_))
  · rw [show ahead (.punct ':' false :: (type ++ after)) (.operator "<") = false from rfl,
      Bool.and_false]
    exact Bool.false_ne_true
  refine pattern.bind fun bound => (takes_operator (by decide) (by decide)).passes_bind ?_
  refine passes_seesOperator_bind.mpr (passes_else ?_ ?_)
  · simp [(begins.append after).noDots]
  exact read.bind fun _ => (takes_pure _).passes trivial

/-- The tokens of a parameter with its type. -/
def parameterTokens (name : String) (type : List Token) : List Token :=
  .ident name :: .punct ':' false :: type

theorem passes_parametersUpTo {params : List (String × List Token)}
    (each : ∀ p ∈ params, isIdentifier p.1 = true ∧ BeginsType p.2 ∧
      ∀ rest, rest = [] ∨ (∃ more, rest = .punct ',' false :: more) →
        Passes g.type (p.2 ++ rest) rest ∧
          Passes g.pattern (.ident p.1 :: .punct ':' false :: (p.2 ++ rest))
            (.punct ':' false :: (p.2 ++ rest)))
    (some? received : Bool) {count : Nat} (enough : params.length ≤ count) :
    Passes (parametersUpTo g some? received (count + 1))
      (Token.separated "," false (params.map fun p => parameterTokens p.1 p.2)) [] := by
  induction params generalizing some? received count with
  | nil => exact passes_atEnd_bind.mpr (passes_if rfl (passes_pure _))
  | cons p params ih =>
    rw [List.length_cons] at enough
    obtain ⟨count, rfl⟩ : ∃ n, count = n + 1 := ⟨count - 1, by omega⟩
    obtain ⟨allowed, begins, read⟩ := each p List.mem_cons_self
    have goesOn (rest : List Token) (next : rest = [] ∨ ∃ more, rest = .punct ',' false :: more) :
        Passes (parameterOrDots g []) (parameterTokens p.1 p.2 ++ rest) rest IsTyped :=
      passes_parameterOrDots allowed begins (read rest next).2 (read rest next).1 []
    rw [List.map_cons, Token.separated]
    refine passes_atEnd_bind.mpr (passes_else (by exact Bool.false_ne_true) ?_)
    refine (takes_outerAttributes_none rfl).passes_bind (passes_seesOperator_bind.mpr
      (passes_else (by exact Bool.false_ne_true) ?_))
    have typed {rest last : List Token} {f : ParameterOrDots → Parser Parameters}
        (next : rest = [] ∨ ∃ more, rest = .punct ',' false :: more)
        (own : ∀ attributes pattern name type start,
          Passes (f (.parameter (.typed attributes pattern name type) start)) rest last) :
        Passes (parameterOrDots g [] >>= f) (parameterTokens p.1 p.2 ++ rest) last := by
      refine (goesOn rest next).bindOf fun found own' => ?_
      rcases found with ⟨_ | _, _⟩ | _
      · exact own'.elim
      · exact own _ _ _ _ _
      · exact own'.elim
    cases params with
    | nil =>
      rw [List.map_nil, List.isEmpty_nil, Bool.not_false, Bool.and_self, if_pos rfl]
      refine typed (.inl rfl) fun _ _ _ _ _ => ?_
      exact passes_atEnd_bind.mpr (passes_if rfl (passes_pure _))
    | cons second others =>
      rw [List.map_cons, List.isEmpty_cons, Bool.false_and, if_neg Bool.false_ne_true]
      refine typed (.inr ⟨_, rfl⟩) fun _ _ _ _ _ => ?_
      refine passes_atEnd_bind.mpr (passes_else (by exact Bool.false_ne_true) ?_)
      exact (takes_operator (by decide) (by decide)).passes_bind
        ((ih (fun p member => each p (List.mem_cons_of_mem _ member)) true _ (by omega)).bind
          fun _ => passes_pure _)

/-- The tokens of a receiver, which is a reference or not. -/
def receiverTokens : Option Bool → List Token
  | none => [.ident "self"]
  | some mutable => referenceTokens mutable [.ident "self"]

theorem passes_receiver (reference : Option Bool) :
    Passes (receiver g) (receiverTokens reference) [] := by
  cases reference with
  | none =>
    refine (takes_operator?_none rfl).passes_bind ((takes_pure _).passes_bind
      ((takes_word?_none rfl).passes_bind ((takes_word "self").passes_bind ?_)))
    refine passes_seesOperator_bind.mpr (passes_else (by decide) ?_)
    exact (takes_pure _).passes_bind (passes_pure _)
  | some mutable =>
    have marked : Passes (word? "mut")
        ((if mutable then [Token.ident "mut"] else []) ++ [Token.ident "self"])
        [.ident "self"] := by
      cases mutable with
      | true => exact (takes_word?_some "mut").passes trivial
      | false => exact (takes_word?_none rfl).passes trivial
    have unnamed :
        ahead ((if mutable then [Token.ident "mut"] else []) ++ [Token.ident "self"]) .lifetime =
        false := by
      cases mutable <;> rfl
    refine (takes_operator?_some (by decide) (by decide)).passes_bind
      ((takes_lifetime?_none unnamed).passes_bind (marked.bind fun _ =>
        (takes_word "self").passes_bind ?_))
    refine passes_seesOperator_bind.mpr (passes_else (by decide) ?_)
    exact (takes_pure _).passes_bind (passes_pure _)

/-- A parameter that has been read is a receiver. -/
def IsReceived : ParameterOrDots → Prop
  | .parameter (.receiver _) _ => True
  | _ => False

theorem passes_parameterOrDots_receiver (reference : Option Bool) (attributes : List Attribute) :
    Passes (parameterOrDots g attributes) (receiverTokens reference) [] IsReceived := by
  refine passes_get_bind fun i _ _ =>
    (passes_attempt (passes_receiver reference)).bindOf fun found own => ?_
  obtain ⟨tree, rfl, -⟩ := own
  exact (takes_pure _).passes trivial

theorem passes_parametersUpTo_receiver (reference : Option Bool) (count : Nat) :
    Passes (parametersUpTo g false false (count + 1)) (receiverTokens reference) [] := by
  obtain ⟨filled, noHash, noDots⟩ : (receiverTokens reference).isEmpty = false ∧
      ahead (receiverTokens reference) (.operator "#") = false ∧
        ahead (receiverTokens reference) (.operator "...") = false := by
    cases reference <;> exact ⟨rfl, rfl, rfl⟩
  refine passes_atEnd_bind.mpr (passes_else (by simp [filled]) ?_)
  refine (takes_outerAttributes_none noHash).passes_bind (passes_seesOperator_bind.mpr
    (passes_else (by simp [noDots]) ?_))
  refine (passes_parameterOrDots_receiver reference []).bindOf fun found own => ?_
  rcases found with ⟨_ | _, _⟩ | _
  · exact passes_atEnd_bind.mpr (passes_if rfl (passes_pure _))
  · exact own.elim
  · exact own.elim

end Parameters

section Functions

/-- The tokens of a function up to its body. -/
def functionTokens (name : String) (params output : List Token) : List Token :=
  .ident "fn" :: .ident name :: .opening .parenthesis :: (params ++ .closing .parenthesis ::
    (Token.operator "->" ++ output))

theorem passes_signature {name : String} {params output : List Token}
    (allowed : isIdentifier name = true) (matched : IsMatched params)
    (readParams : Passes (do parametersUpTo g false false ((← get).rest.length + 1)) params [])
    (readOutput : Passes g.type (output ++ .opening .brace :: after) (.opening .brace :: after)) :
    Passes (signature g) (functionTokens name params (output ++ .opening .brace :: after))
      (.opening .brace :: after) := by
  have noConvention : Takes convention?
      (functionTokens name params (output ++ .opening .brace :: after)) none
      (functionTokens name params (output ++ .opening .brace :: after)) :=
    takes_seesWord_bind.mpr (takes_pure _)
  refine (takes_word?_none rfl).passes_bind ((takes_word?_none rfl).passes_bind
    ((takes_word?_none rfl).passes_bind (noConvention.passes_bind ((takes_word "fn").passes_bind
      ((takes_identifier allowed).passes_bind ?_)))))
  refine Passes.bind (passes_genericParameters (List.forall_mem_nil _) rfl) fun _ => ?_
  refine (passes_grouped readParams matched).bind fun params => ?_
  have output : Passes (output? g true)
      (Token.operator "->" ++ (output ++ .opening .brace :: after)) (.opening .brace :: after) := by
    refine passes_seesOperator_bind.mpr (passes_if rfl ?_)
    exact (takes_operator (by decide) (by decide)).passes_bind
      ((passes_if rfl readOutput).map fun _ _ => trivial)
  refine output.bind fun _ => Passes.bind (passes_withWhere (List.forall_mem_nil _) _)
    fun _ => passes_pure _

/-- The tokens of a body. -/
def bodyTokens (inner : List Token) : List Token :=
  .opening .brace :: (inner ++ [.closing .brace])

theorem passes_braced {α : Type} {p : Parser α} {inner : List Token}
    (matched : IsMatched inner) (noHash : ahead inner (.operator "#") = false)
    (read : Passes p inner []) : Passes (braced g p) (bodyTokens inner ++ after) after := by
  rw [bodyTokens, List.cons_append, List.append_assoc]
  exact passes_grouped ((takes_innerAttributes_none (.inl noHash)).passes_bind
    (read.bind fun _ => passes_pure _)) matched

/-- The tokens of a function. -/
structure PrintedFunction where
  /-- Whether the function can be seen from outside. -/
  visible : Bool
  name : String
  params : List Token
  output : List Token
  body : List Token

namespace PrintedFunction

/-- The tokens of a function one after another. -/
def tokens (f : PrintedFunction) : List Token :=
  (if f.visible then [.ident "pub"] else [])
    ++ functionTokens f.name f.params (f.output ++ bodyTokens f.body)

/-- The parts of a function can be lexed. -/
structure IsLexable (f : PrintedFunction) : Prop where
  name : Lexer.IsName f.name
  params : Token.IsLexable f.params
  output : Token.IsLexable f.output
  body : Token.IsLexable f.body

/-- All parts of a function are passed over. -/
structure IsPassed (g : Grammar) (f : PrintedFunction) : Prop where
  named : isIdentifier f.name = true
  lexable : f.IsLexable
  params : Passes (do parametersUpTo g false false ((← get).rest.length + 1)) f.params []
  output : ∀ rest, Passes g.type (f.output ++ .opening .brace :: rest) (.opening .brace :: rest)
  noHash : ahead f.body (.operator "#") = false
  body : Passes g.statements f.body []

variable {f : PrintedFunction}

theorem IsLexable.whole (lexable : f.IsLexable) : Token.IsLexable f.tokens := by
  have head : Token.IsLexable
      (functionTokens f.name f.params (f.output ++ bodyTokens f.body)) := by
    have braces : Token.IsLexable (bodyTokens f.body) := .group .brace lexable.body
    have parens : Token.IsLexable (.opening .parenthesis :: (f.params ++ .closing .parenthesis ::
        (Token.operator "->" ++ (f.output ++ bodyTokens f.body)))) := by
      have group := (Token.IsLexable.group .parenthesis lexable.params).append
        ((Token.IsLexable.operator "->" (by decide)).append (lexable.output.append braces))
      simpa using group
    exact .word (by decide) (.word lexable.name parens)
  rw [PrintedFunction.tokens]
  split
  · exact .word (by decide) head
  · exact head

theorem tokens_append (f : PrintedFunction) (after : List Token) :
    f.tokens ++ after = (if f.visible then [.ident "pub"] else []) ++ functionTokens f.name f.params
      (f.output ++ .opening .brace :: (f.body ++ .closing .brace :: after)) := by
  simp [tokens, functionTokens, bodyTokens]

theorem exists_takes_visibility (visible : Bool) (name : String) (params output : List Token) :
    ∃ found, Takes visibility
      ((if visible then [.ident "pub"] else []) ++ functionTokens name params output) found
      (functionTokens name params output) := by
  cases visible with
  | true => exact ⟨_, takes_visibility_pub "fn"⟩
  | false => exact ⟨_, takes_visibility_none rfl⟩

theorem IsPassed.method? (passed : f.IsPassed g) (attributes : List Attribute)
    (after : List Token) : Passes (method? g attributes) (f.tokens ++ after) after := by
  obtain ⟨found, visibility⟩ := exists_takes_visibility f.visible f.name f.params
    (f.output ++ .opening .brace :: (f.body ++ .closing .brace :: after))
  have body : Passes (braced g g.statements) (bodyTokens f.body ++ after) after :=
    passes_braced passed.lexable.body.matched passed.noHash passed.body
  rw [bodyTokens, List.cons_append, List.append_assoc] at body
  rw [tokens_append]
  have head := passes_signature passed.named passed.lexable.params.matched passed.params
    (passed.output (f.body ++ .closing .brace :: after))
  refine visibility.passes_bind ((takes_word?_none rfl).passes_bind (head.bind fun signature =>
    passes_seesOperator_bind.mpr (passes_else (by exact Bool.false_ne_true) ?_)))
  exact body.bind fun _ => passes_pure _

theorem IsPassed.implMember (passed : f.IsPassed g) (after : List Token) :
    Passes (implMember g) (f.tokens ++ after) after := by
  have method := passed.method? [] after
  obtain ⟨found, visibility⟩ := exists_takes_visibility f.visible f.name f.params
    (f.output ++ .opening .brace :: (f.body ++ .closing .brace :: after))
  rw [tokens_append] at method ⊢
  have noHash : ahead ((if f.visible then [.ident "pub"] else []) ++ functionTokens f.name f.params
      (f.output ++ .opening .brace :: (f.body ++ .closing .brace :: after))) (.operator "#") =
      false := by
    cases f.visible <;> rfl
  refine passes_get_bind fun i _ _ => (takes_outerAttributes_none noHash).passes_bind
    (passes_get_bind fun start none shown => ?_)
  refine visibility.passes_bind (passes_get_bind fun _ _ _ => ?_)
  refine passes_seesWord_bind.mpr (passes_peek2_bind fun flag =>
    passes_else (by exact Bool.false_ne_true) ((takes_pure _).passes_bind ?_))
  refine (takes_beginsSignature (by decide)).passes_bind (passes_if rfl ?_)
  refine passes_set_bind none shown fun _ => method.bind fun found => ?_
  cases found with
  | some method => exact passes_pure _
  | none => exact (passes_get_bind fun _ _ _ => passes_pure _).bind fun _ => passes_pure _

end PrintedFunction

end Functions

end Forwarding.Grammar.Parser
