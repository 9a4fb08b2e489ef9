import Forwarding.Proofs.Accessors
import Forwarding.Proofs.Declared
import Forwarding.Proofs.Templates
/-!
Forwarding types that parse. When what is printed of the fragments parses by itself, readers pass
over everything that is printed of the forwarding type. What has to hold of a fragment depends on
where it is put: the type of a property stands behind the sign of a reference, so that a sum of
bounds needs brackets in it.
-/

namespace Forwarding

theorem isPlain_namedSegments (isGlobal : Bool) {first : String} {names : List String}
    (segments : ∀ name ∈ first :: names, IsSegment name) (noTry : first ≠ "try") :
    (Tree.path isGlobal (namedSegments (first :: names))).IsPlain := by
  refine .path isGlobal (.ofName first) (names.map .ofName) (fun _ => noTry) ?_ ?_
  · rw [← List.map_cons, List.forall_mem_map]
    exact fun name member => Segment.isNamed_ofName (segments name member)
  · rw [← List.map_cons, List.forall_mem_map]
    exact fun name _ t inside => absurd inside List.not_mem_nil

/-- No keyword is the name of an accessor that changes a property. -/
theorem isIdentifier_mutableName {name : String} (named : Lexer.IsName name) :
    IsIdentifier (mutableName (unraw name)) := by
  have noKeyword : ∀ word ∈ Grammar.keywords, ¬ "_mut".toList <:+ word.toList := by decide
  constructor
  · have word : Lexer.WordChars (mutableName (unraw name)).toList := by
      rw [mutableName, String.toList_append]
      exact named.wordChars_unraw.append (by decide)
    rw [Lexer.IsName, Lexer.word?_eq_some_iff]
    exact ⟨_, word, rfl, .inl ⟨(List.append_nil _).symm, rfl, word.not_startsWith⟩⟩
  · rw [Grammar.isIdentifier, Bool.not_eq_true', ← Bool.not_eq_true, List.contains_iff_mem]
    intro keyword
    refine noKeyword _ keyword ?_
    rw [mutableName, String.toList_append]
    exact List.suffix_append _ _

namespace ForwardingType

open Grammar Grammar.Parser Lexer

/-- The names of a forwarding type can be printed as names. -/
structure IsWellNamed (t : ForwardingType) : Prop where
  name : IsIdentifier t.name
  constructor : IsIdentifier t.constructor
  params : ∀ p ∈ t.params, IsIdentifier p.1
  properties : ∀ p ∈ t.properties, IsIdentifier p.1
  arguments : ∀ a ∈ t.arguments, IsArgument a.tokens
  declared : ∀ p ∈ t.declared, ∀ sign ∈ parameterSigns, ∀ more,
    BeginsParameter (p.tokens ++ sign :: more)

/-- What is printed of each fragment of a forwarding type parses by itself. -/
structure IsAccepted (t : ForwardingType) : Prop where
  inner : Accepts Grammar.type t.innerTokens
  declared : ∀ p ∈ t.declared, Accepts genericParameter p.tokens
  predicates : ∀ p ∈ t.predicates, Accepts wherePredicate p.tokens
  params : ∀ p ∈ t.params, Accepts Grammar.type p.2.tokens
  properties : ∀ p ∈ t.properties, Accepts typeWithoutPlus p.2.tokens ∧
    ahead p.2.tokens .lifetime = false

/-- What is printed of each fragment of a forwarding type is lexed again as it is. -/
structure IsLexable (t : ForwardingType) : Prop where
  inner : Token.IsLexable t.innerTokens
  declared : ∀ p ∈ t.declared, Token.IsLexable p.tokens
  predicates : ∀ p ∈ t.predicates, Token.IsLexable p.tokens
  params : ∀ p ∈ t.params, Token.IsLexable p.2.tokens
  properties : ∀ p ∈ t.properties, Token.IsLexable p.2.tokens

variable {t : ForwardingType}

theorem IsAccepted.isLexable (accepted : t.IsAccepted) : t.IsLexable where
  inner := accepted.inner.isLexable
  declared p member := (accepted.declared p member).isLexable
  predicates p member := (accepted.predicates p member).isLexable
  params p member := (accepted.params p member).isLexable
  properties p member := (accepted.properties p member).1.isLexable

section Passing

open Lexeme

variable {depth : Nat} {after : List Token}

/-- A grammar is deep enough for the bodies of functions with a fragment in them. -/
structure IsWithin (t : ForwardingType) (depth : Nat) : Prop where
  inner : 4 * Token.weight t.innerTokens + 8 ≤ depth
  declared : ∀ p ∈ t.declared, 4 * Token.weight p.tokens + 8 ≤ depth
  predicates : ∀ p ∈ t.predicates, 4 * Token.weight p.tokens + 8 ≤ depth
  params : ∀ p ∈ t.params, 4 * Token.weight p.2.tokens + 8 ≤ depth
  properties : ∀ p ∈ t.properties, 4 * Token.weight p.2.tokens + 8 ≤ depth

theorem isLexable_constructor (named : t.IsWellNamed) (lexable : t.IsLexable) :
    t.printedConstructor.IsLexable where
  name := named.constructor.1
  params := by
    refine .listed ?_
    rw [List.forall_mem_map]
    exact fun p member => isLexable_parameterTokens (named.params p member).1
      (lexable.params p member)
  output := .word (by decide) .nil
  body := by
    refine isLexable_literalTokens lexable.inner named.constructor.1 ?_
    rw [List.forall_mem_map]
    exact fun p member => (named.params p member).1

theorem isLexable_printedReference (visible mutable : Bool) {name : String}
    (named : IsName name) {target : List Token} {fields : List String}
    (lexable : Token.IsLexable target) (each : ∀ field ∈ fields, IsIdentifier field) :
    (printedReference visible mutable name target fields).IsLexable where
  name := named
  params := isLexable_receiverTokens (some mutable)
  output := isLexable_referenceTokens mutable lexable
  body := isLexable_referenceTokens mutable
    (isLexable_chainTokens fun field member => (each field member).1)

theorem isLexable_unwrapping (lexable : t.IsLexable) : t.printedUnwrapping.IsLexable where
  name := (by decide : IsName "into_inner")
  params := isLexable_receiverTokens none
  output := lexable.inner
  body := isLexable_chainTokens (by decide)

theorem isLexable_functions (named : t.IsWellNamed) (lexable : t.IsLexable) :
    ∀ f ∈ t.printedFunctions, f.IsLexable := by
  have accessors : ∀ f ∈ t.properties.flatMap fun p => printedAccessors p.1 p.2.tokens,
      f.IsLexable := by
    intro f member
    obtain ⟨p, listed, member⟩ := List.mem_flatMap.mp member
    have own := named.properties p listed
    have fields : ∀ field ∈ ["inner", p.1], IsIdentifier field :=
      List.forall_mem_cons.mpr ⟨by decide, List.forall_mem_singleton.mpr own⟩
    rcases List.mem_pair.mp member with rfl | rfl
    · exact isLexable_printedReference true false own.1 (lexable.properties p listed) fields
    · exact isLexable_printedReference true true (isIdentifier_mutableName own.1).1
        (lexable.properties p listed) fields
  simp only [printedFunctions, List.forall_mem_append, List.forall_mem_cons]
  exact ⟨⟨isLexable_constructor named lexable, accessors⟩, isLexable_unwrapping lexable,
    List.forall_mem_nil _⟩

/-- A type that is a path of names. -/
theorem passes_names (isGlobal : Bool) {first : String} {names : List String}
    (segments : ∀ name ∈ first :: names, IsSegment name) (noTry : first ≠ "try")
    (short : (Tree.path isGlobal (namedSegments (first :: names))).tokens.length ≤ depth)
    (ends : Begins typeEnds after) :
    Passes (Grammar.type (ofDepth (depth + 1)))
      ((Tree.path isGlobal (namedSegments (first :: names))).tokens ++ after) after :=
  ((isPlain_namedSegments isGlobal segments noTry).rereads short true _ ends).passes trivial

theorem begins_brace (rest : List Token) : Begins typeEnds (.opening .brace :: rest) := by
  rintro t first
  cases first
  decide

theorem passes_params (named : t.IsWellNamed) (accepted : t.IsAccepted)
    (deep : t.IsWithin depth) :
    Passes (do parametersUpTo (ofDepth (depth + 7)) false false ((← get).rest.length + 1))
      t.printedConstructor.params [] := by
  have whole : t.printedConstructor.params = Token.separated "," false
      ((t.params.map fun p => (p.1, p.2.tokens)).map fun p => parameterTokens p.1 p.2) := by
    rw [List.map_map]
    rfl
  refine passes_get_bind fun i _ shown => ?_
  rw [whole] at shown ⊢
  rw [← List.append_nil (Token.separated _ _ _)] at shown
  have enough := Shows.length_le (isMatched_of_noBracket (by decide)) ?_ shown
  rotate_left
  · rw [List.map_map, List.forall_mem_map]
    exact fun p member => ⟨(isLexable_parameterTokens (named.params p member).1
      (accepted.params p member).isLexable).matched, List.cons_ne_nil _ _⟩
  refine passes_parametersUpTo ?_ false false (by simpa using enough)
  rw [List.forall_mem_map]
  intro p member
  have own := accepted.params p member
  refine ⟨(named.params p member).2, own.beginsType, fun rest next => ⟨?_, ?_⟩⟩
  · refine own.fits_type _ _ ((deep.params p member).trans (by omega)) ?_
    exact next.imp_right fun ⟨more, same⟩ => ⟨.operator ",", by decide, same ▸ rfl⟩
  · exact passes_patternOf_name (named.params p member).2

theorem isPassed_constructor (named : t.IsWellNamed) (accepted : t.IsAccepted)
    (deep : t.IsWithin depth) : t.printedConstructor.IsPassed (ofDepth (depth + 7)) where
  named := named.constructor.2
  lexable := isLexable_constructor named accepted.isLexable
  params := passes_params named accepted deep
  output rest := by
    have short : (Tree.path false (namedSegments ["Self"])).tokens.length ≤ depth + 6 :=
      Nat.le_add_left_of_le (by decide)
    exact passes_names false (by decide) (by decide) short (begins_brace rest)
  noHash := rfl
  body := by
    refine passes_statements_literal depth named.constructor.2 ?_ accepted.inner.isLexable.matched
      fun rest => ?_
    · rw [List.forall_mem_map]
      exact fun p member => (named.params p member).2
    · exact accepted.inner.fits_type _ _ (deep.inner.trans (by omega))
        (.inr ⟨.operator ">", by decide, rfl⟩)

theorem isPassed_printedReference (visible mutable : Bool) {name : String}
    (allowed : IsIdentifier name) {target : List Token} {fields : List String}
    (lexable : Token.IsLexable target) (named : ∀ field ∈ fields, IsIdentifier field)
    (filled : fields ≠ [])
    (output : ∀ rest, Passes (Grammar.type (ofDepth (depth + 7)))
      (referenceTokens mutable target ++ .opening .brace :: rest) (.opening .brace :: rest)) :
    (printedReference visible mutable name target fields).IsPassed (ofDepth (depth + 7)) where
  named := allowed.2
  lexable := isLexable_printedReference visible mutable allowed.1 lexable named
  params := passes_get_bind fun _ _ _ => passes_parametersUpTo_receiver (some mutable) _
  output
  noHash := by cases mutable <;> rfl
  body := passes_statements_reference (depth + 3) mutable
    (fun name member => (named name member).2) filled

theorem isPassed_unwrapping (accepted : t.IsAccepted) (deep : t.IsWithin depth) :
    t.printedUnwrapping.IsPassed (ofDepth (depth + 7)) where
  named := rfl
  lexable := isLexable_unwrapping accepted.isLexable
  params := passes_get_bind fun _ _ _ => passes_parametersUpTo_receiver none _
  output rest := accepted.inner.fits_type _ _ (deep.inner.trans (by omega))
    (.inr ⟨.group .brace, by decide, rfl⟩)
  noHash := rfl
  body := passes_statements_fields (depth + 4) (by decide) (List.cons_ne_nil _ _)

theorem isPlain_target : (Tree.path false (namedSegments ["Self", "Target"])).IsPlain :=
  isPlain_namedSegments false (by decide) (by decide)

/-- What dereferencing gives: a reference to the target. -/
theorem passes_target (mutable : Bool) (ends : Begins typeEnds after) :
    Passes (Grammar.type (ofDepth (depth + 7))) (referenceTokens mutable targetTokens ++ after)
      after := by
  have short : (Tree.path false (namedSegments ["Self", "Target"])).tokens.length ≤ depth + 5 :=
    Nat.le_add_left_of_le (by decide)
  have read := takes_typeOf_reference true none mutable isPlain_target
    (isPlain_target.rereads short) ends
  rw [referenceTokens, List.cons_append, List.append_assoc]
  exact read.passes trivial

theorem isMember_of_isPassed {g : Grammar} {f : PrintedFunction} (passed : f.IsPassed g) :
    IsMember g f.tokens where
  lexable := passed.lexable.whole
  filled := by
    rw [PrintedFunction.tokens]
    exact List.append_ne_nil_of_right_ne_nil _ (List.cons_ne_nil _ _)
  noHash rest := by
    rw [PrintedFunction.tokens]
    cases f.visible <;> rfl
  read := passed.implMember

theorem isMember_alias (accepted : t.IsAccepted) (deep : t.IsWithin depth) :
    IsMember (ofDepth (depth + 7)) (aliasTokens "Target" t.innerTokens) where
  lexable := isLexable_aliasTokens (by decide) accepted.inner.isLexable
  filled := List.cons_ne_nil _ _
  noHash _ := rfl
  read _ := passes_implMember_alias (by decide) (accepted.inner.fits_type _ _
    (deep.inner.trans (by omega)) (.inr ⟨.operator ";", by decide, rfl⟩))

theorem isMember_functions (named : t.IsWellNamed) (accepted : t.IsAccepted)
    (deep : t.IsWithin depth) :
    ∀ part ∈ t.printedFunctions.map PrintedFunction.tokens,
      IsMember (ofDepth (depth + 7)) part := by
  rw [List.forall_mem_map]
  have accessors : ∀ f ∈ t.properties.flatMap fun p => printedAccessors p.1 p.2.tokens,
      f.IsPassed (ofDepth (depth + 7)) := by
    intro f member
    obtain ⟨p, listed, member⟩ := List.mem_flatMap.mp member
    obtain ⟨accepts, unnamed⟩ := accepted.properties p listed
    have own := named.properties p listed
    have fields : ∀ field ∈ ["inner", p.1], IsIdentifier field :=
      List.forall_mem_cons.mpr ⟨by decide, List.forall_mem_singleton.mpr own⟩
    have output (mutable : Bool) (rest : List Token) :
        Passes (Grammar.type (ofDepth (depth + 7)))
          (referenceTokens mutable p.2.tokens ++ .opening .brace :: rest)
          (.opening .brace :: rest) := by
      rw [referenceTokens, List.cons_append, List.append_assoc]
      exact passes_reference accepts unnamed mutable ((deep.properties p listed).trans (by omega))
        (.inr ⟨.group .brace, by decide, rfl⟩)
    rcases List.mem_pair.mp member with rfl | rfl
    · exact isPassed_printedReference true false own accepts.isLexable fields
        (List.cons_ne_nil _ _) (output false)
    · exact isPassed_printedReference true true (isIdentifier_mutableName own.1)
        accepts.isLexable fields (List.cons_ne_nil _ _) (output true)
  simp only [printedFunctions, List.forall_mem_append, List.forall_mem_cons]
  exact ⟨⟨isMember_of_isPassed (isPassed_constructor named accepted deep),
    fun f member => isMember_of_isPassed (accessors f member)⟩,
    isMember_of_isPassed (isPassed_unwrapping accepted deep), List.forall_mem_nil _⟩

theorem isDeclared_tokens (named : t.IsWellNamed) (accepted : t.IsAccepted)
    (deep : t.IsWithin depth) :
    ∀ part ∈ t.declaredTokens, IsDeclared (ofDepth (depth + 7)) part := by
  rw [declaredTokens, List.forall_mem_map]
  intro p member
  have own := accepted.declared p member
  exact ⟨own.isLexable, named.declared p member, fun rest ended =>
    own.fits_listedParameter _ _ ((deep.declared p member).trans (by omega)) ended⟩

theorem isRequired_tokens (accepted : t.IsAccepted) (deep : t.IsWithin depth) :
    ∀ part ∈ t.predicateTokens, IsRequired (ofDepth (depth + 7)) part := by
  rw [predicateTokens, List.forall_mem_map]
  intro p member
  have own := accepted.predicates p member
  exact ⟨own.isLexable, own.beginsType_wherePredicate, fun rest ended =>
    own.fits_wherePredicate _ _ ((deep.predicates p member).trans (by omega)) ended⟩

theorem isIdentifier_dereference (mutable : Bool) :
    IsIdentifier (printedDereference mutable).name := by
  cases mutable
  · exact (by decide : IsIdentifier "deref")
  · exact (by decide : IsIdentifier "deref_mut")

theorem isPassed_dereference (mutable : Bool) :
    (printedDereference mutable).IsPassed (ofDepth (depth + 7)) :=
  isPassed_printedReference false mutable (isIdentifier_dereference mutable)
    isPlain_target.isLexable (by decide) (List.cons_ne_nil _ _)
    fun rest => passes_target mutable (begins_brace rest)

theorem isLexable_dereference (mutable : Bool) : (printedDereference mutable).IsLexable :=
  isLexable_printedReference false mutable (isIdentifier_dereference mutable).1
    isPlain_target.isLexable (by decide)

theorem passes_selfTokens (named : t.IsWellNamed) (ends : Begins typeEnds after) :
    Passes (Grammar.type (ofDepth (depth + 7))) (t.selfTokens ++ after) after := by
  refine passes_type_name (depth + 4) named.name.2 ?_ ends
  rw [List.forall_mem_map]
  exact named.arguments

theorem passes_inherent (named : t.IsWellNamed) (accepted : t.IsAccepted) (deep : t.IsWithin depth)
    (attributes : List Attribute) :
    Passes (implItem (ofDepth (depth + 7)) attributes)
      (t.inherentTokens ++ after) after := by
  have plain (e : Expectation)
      (listed : e ∈ [Expectation.operator "<", .word "const", .operator "?", .operator "!"])
      (rest : List Token) : ahead (t.selfTokens ++ rest) e = false := by
    simp only [List.mem_cons, List.not_mem_nil, or_false] at listed
    rcases listed with rfl | rfl | rfl | rfl
    · rfl
    · exact isIdentifier_ne named.name.2 (by decide)
    · rfl
    · rfl
  exact passes_implItem attributes (isDeclared_tokens named accepted deep)
    (isRequired_tokens accepted deep) (isMember_functions named accepted deep)
    (fun _ member => absurd member (Option.not_mem_none _))
    (fun rest ends => passes_selfTokens named ends) plain

theorem passes_dereferencing (named : t.IsWellNamed) (accepted : t.IsAccepted)
    (deep : t.IsWithin depth) {trait : String} (allowed : IsSegment trait)
    {members : List (List Token)} (holds : ∀ part ∈ members, IsMember (ofDepth (depth + 7)) part)
    (attributes : List Attribute) :
    Passes (implItem (ofDepth (depth + 7)) attributes)
      (t.dereferenceTokens trait members ++ after) after := by
  have read (rest : List Token) :
      Passes (Grammar.type (ofDepth (depth + 7))) (traitTokens trait ++ .ident "for" :: rest)
        (.ident "for" :: rest) := by
    have segments : ∀ name ∈ ["core", "ops", trait], IsSegment name :=
      List.forall_mem_cons.mpr ⟨by decide,
        List.forall_mem_cons.mpr ⟨by decide, List.forall_mem_singleton.mpr allowed⟩⟩
    refine passes_names true segments (by decide) ?_ ?_
    · show 9 ≤ depth + 6
      have := deep.inner
      omega
    · rintro t first
      cases first
      decide
  have plain (e : Expectation)
      (listed : e ∈ [Expectation.operator "<", .word "const", .operator "?", .operator "!"])
      (rest : List Token) :
      ahead ((traitTokens trait ++ [.ident "for"]) ++ t.selfTokens ++ rest) e = false := by
    simp only [List.mem_cons, List.not_mem_nil, or_false] at listed
    rcases listed with rfl | rfl | rfl | rfl <;> rfl
  refine passes_implItem attributes (isDeclared_tokens named accepted deep)
    (isRequired_tokens accepted deep) holds ?_ (fun rest ends => passes_selfTokens named ends) plain
  rintro _ ⟨⟩ rest
  exact read rest

end Passing

section Files

variable {depth : Nat}

/-- The declarations of an artifact as printed. -/
def printedItems (t : ForwardingType) (documentation : List String) : List (List Token) :=
  [(structAttributes documentation).flatten ++ t.declarationTokens,
    inherentAttributes.flatten ++ t.inherentTokens,
    t.dereferenceTokens "Deref"
      [aliasTokens "Target" t.innerTokens, (printedDereference false).tokens],
    t.dereferenceTokens "DerefMut" [(printedDereference true).tokens]]

theorem flatten_printedItems (documentation : List String) :
    (t.printedItems documentation).flatten = Tree.tokensOf (t.declaration documentation)
      ++ (Tree.tokensOf t.inherent ++ Tree.tokensOf t.dereferencing) := by
  rw [tokensOf_struct, tokensOf_inherent, tokensOf_dereferencing]
  simp [printedItems]

/-- What an artifact consists of is lexed again as it is printed, whether it parses or not. -/
theorem isLexable_printedItems (named : t.IsWellNamed) (lexable : t.IsLexable)
    (documentation : List String) :
    ∀ part ∈ t.printedItems documentation, Token.IsLexable part ∧ part ≠ [] := by
  have declares : ∀ part ∈ t.declaredTokens, Token.IsLexable part :=
    List.forall_mem_map.mpr lexable.declared
  have requires : ∀ part ∈ t.predicateTokens, Token.IsLexable part :=
    List.forall_mem_map.mpr lexable.predicates
  have own : Token.IsLexable t.selfTokens :=
    .word named.name.1 (isLexable_angledTokens (List.forall_mem_map.mpr fun a member =>
      (named.arguments a member).isLexable.1))
  have trait {name : String} (word : IsName name) : ∀ trait ∈ some (traitTokens name),
      Token.IsLexable trait := by
    rintro _ ⟨⟩
    exact isLexable_traitTokens word
  have struct := (isLexable_flatten fun part member =>
      (isAttribute_structAttributes (ofDepth 0) documentation part member).lexable).append
    (isLexable_structTokens named.name.1 (by decide : IsName "inner") declares requires
      lexable.inner)
  have block : Token.IsLexable t.inherentTokens :=
    isLexable_implTokens declares (fun _ member => absurd member (Option.not_mem_none _)) own
      requires (List.forall_mem_map.mpr fun f member =>
        (isLexable_functions named lexable f member).whole)
  have inherent := (isLexable_flatten fun part member =>
    (isAttribute_inherentAttributes (ofDepth 0) part member).lexable).append block
  have reading : Token.IsLexable (printedDereference false).tokens :=
    (isLexable_dereference false).whole
  have changing : Token.IsLexable (printedDereference true).tokens :=
    (isLexable_dereference true).whole
  simp only [printedItems, List.forall_mem_cons]
  refine ⟨⟨struct, ?_⟩, ⟨inherent, ?_⟩, ⟨isLexable_implTokens declares
    (trait (by decide)) own requires ?_, List.cons_ne_nil _ _⟩,
    ⟨isLexable_implTokens declares (trait (by decide)) own requires ?_,
      List.cons_ne_nil _ _⟩, List.forall_mem_nil _⟩
  · exact List.append_ne_nil_of_right_ne_nil _ (List.cons_ne_nil _ _)
  · exact List.append_ne_nil_of_right_ne_nil _ (List.cons_ne_nil _ _)
  · exact List.forall_mem_cons.mpr ⟨isLexable_aliasTokens (by decide) lexable.inner,
      List.forall_mem_singleton.mpr reading⟩
  · exact List.forall_mem_singleton.mpr changing

theorem passes_printedItems (named : t.IsWellNamed) (accepted : t.IsAccepted)
    (deep : t.IsWithin depth) (documentation : List String) :
    ∀ part ∈ t.printedItems documentation, ∀ after,
      Passes (Grammar.item (ofDepth (depth + 8))) (part ++ after) after := by
  have struct (after : List Token) : Passes (Grammar.item (ofDepth (depth + 8)))
      ((structAttributes documentation).flatten ++ t.declarationTokens ++ after) after := by
    rw [List.append_assoc]
    refine passes_itemOf_struct (isAttribute_structAttributes _ documentation) fun attributes => ?_
    refine passes_structItem attributes named.name.2 rfl (isDeclared_tokens named accepted deep)
      (isRequired_tokens accepted deep) accepted.inner.isLexable.matched ?_
    exact accepted.inner.fits_type _ _ (deep.inner.trans (by omega))
      (.inr ⟨.operator ",", by decide, rfl⟩)
  have inherent (after : List Token) : Passes (Grammar.item (ofDepth (depth + 8)))
      (inherentAttributes.flatten ++ t.inherentTokens ++ after) after := by
    rw [List.append_assoc]
    exact passes_itemOf_impl (isAttribute_inherentAttributes _) fun attributes =>
      passes_inherent named accepted deep attributes
  have dereferencing {trait : String} (allowed : IsSegment trait) {members : List (List Token)}
      (holds : ∀ part ∈ members, IsMember (ofDepth (depth + 7)) part) (after : List Token) :
      Passes (Grammar.item (ofDepth (depth + 8))) (t.dereferenceTokens trait members ++ after)
        after :=
    passes_itemOf_impl (List.forall_mem_nil _) fun attributes =>
      passes_dereferencing named accepted deep allowed holds attributes
  simp only [printedItems, List.forall_mem_cons]
  refine ⟨struct, inherent, dereferencing (by decide) ?_,
    dereferencing (by decide) ?_, List.forall_mem_nil _⟩
  · exact List.forall_mem_cons.mpr ⟨isMember_alias accepted deep,
      List.forall_mem_singleton.mpr (isMember_of_isPassed (isPassed_dereference false))⟩
  · exact List.forall_mem_singleton.mpr (isMember_of_isPassed (isPassed_dereference true))

end Files

section Weights

variable {part : List Token}

theorem sublist_separated {separator : String} {trailing : Bool} {parts : List (List Token)}
    (member : part ∈ parts) : part.Sublist (Token.separated separator trailing parts) := by
  induction parts with
  | nil => cases member
  | cons first others ih =>
    rw [Token.separated]
    rcases List.mem_cons.mp member with rfl | later
    · exact List.sublist_append_left _ _
    · refine List.Sublist.trans ?_ (List.sublist_append_right _ _)
      have filled : others.isEmpty = false := by
        cases others with
        | nil => cases later
        | cons => rfl
      rw [filled, Bool.false_and, if_neg Bool.false_ne_true]
      exact (ih later).trans (List.sublist_append_right _ _)

theorem sublist_angledTokens {parts : List (List Token)} (member : part ∈ parts) :
    part.Sublist (angledTokens parts) := by
  have filled : parts.isEmpty = false := List.isEmpty_eq_false_iff.mpr (List.ne_nil_of_mem member)
  rw [angledTokens, filled, if_neg Bool.false_ne_true]
  exact ((sublist_separated member).trans (List.sublist_append_left _ _)).cons _

theorem sublist_whereTokens {parts : List (List Token)} (member : part ∈ parts) :
    part.Sublist (whereTokens parts) := by
  have filled : parts.isEmpty = false := List.isEmpty_eq_false_iff.mpr (List.ne_nil_of_mem member)
  rw [whereTokens, filled, if_neg Bool.false_ne_true]
  exact (sublist_separated member).cons _

theorem sublist_tokens (f : PrintedFunction) :
    f.params.Sublist f.tokens ∧ f.output.Sublist f.tokens := by
  have head : (functionTokens f.name f.params (f.output ++ bodyTokens f.body)).Sublist f.tokens :=
    List.sublist_append_right _ _
  constructor
  · refine List.Sublist.trans ?_ head
    exact (((List.sublist_append_left _ _).cons _).cons _).cons _
  · refine List.Sublist.trans ?_ head
    refine (((List.Sublist.trans ?_ (List.sublist_append_right _ _)).cons _).cons _).cons _
    exact ((List.sublist_append_left _ _).trans (List.sublist_append_right _ _)).cons _

theorem sublist_implTokens_members {declared predicates members : List (List Token)}
    {trait? : Option (List Token)} {self : List Token} (member : part ∈ members) :
    part.Sublist (implTokens declared trait? self predicates members) := by
  have body : part.Sublist (bodyTokens members.flatten) :=
    ((List.sublist_flatten_of_mem member).trans (List.sublist_append_left _ _)).cons _
  exact (((body.trans (List.sublist_append_right _ _)).trans (List.sublist_append_right _ _)).trans
    (List.sublist_append_right _ _)).cons _

/-- The tokens of a fragment are all but two of those of a whole artifact at most. -/
theorem weight_of_sublist (documentation : List String)
    (held : part.Sublist t.inherentTokens) :
    4 * Token.weight part + 8 ≤ 4 * Token.weight (t.printedItems documentation).flatten := by
  have own : Token.weight part ≤ Token.weight t.inherentTokens := held.countP_le
  have head : 2 ≤ Token.weight t.declarationTokens := by
    rw [declarationTokens, structTokens, Token.weight, List.countP_cons_of_pos rfl,
      List.countP_cons_of_pos rfl]
    exact Nat.le_add_left 2 _
  simp only [printedItems, List.flatten_cons, Token.weight_append]
  omega

theorem sublist_function {f : PrintedFunction} (member : f ∈ t.printedFunctions) :
    f.tokens.Sublist t.inherentTokens :=
  sublist_implTokens_members (List.mem_map_of_mem member)

theorem isWithin_weight (documentation : List String) :
    t.IsWithin (4 * Token.weight (t.printedItems documentation).flatten) where
  inner := by
    have member : t.printedUnwrapping ∈ t.printedFunctions :=
      List.mem_append_right _ List.mem_cons_self
    exact weight_of_sublist documentation ((sublist_tokens _).2.trans (sublist_function member))
  declared p member := by
    refine weight_of_sublist documentation (List.Sublist.cons _ ?_)
    exact (sublist_angledTokens (List.mem_map_of_mem member)).trans (List.sublist_append_left _ _)
  predicates p member := by
    refine weight_of_sublist documentation (List.Sublist.cons _ ?_)
    exact (((sublist_whereTokens (List.mem_map_of_mem member)).trans
      (List.sublist_append_left _ _)).trans (List.sublist_append_right _ _)).trans
        (List.sublist_append_right _ _)
  params p member := by
    have function : t.printedConstructor ∈ t.printedFunctions := List.mem_cons_self
    have type : p.2.tokens.Sublist (parameterTokens p.1 p.2.tokens) :=
      ((List.Sublist.refl _).cons _).cons _
    have listed : p.2.tokens.Sublist t.printedConstructor.params :=
      type.trans (sublist_separated (List.mem_map_of_mem (f := fun p : String × Tree =>
        parameterTokens p.1 p.2.tokens) member))
    exact weight_of_sublist documentation
      (listed.trans ((sublist_tokens _).1.trans (sublist_function function)))
  properties p member := by
    have function : printedReference true false p.1 p.2.tokens ["inner", p.1] ∈
        t.printedFunctions :=
      List.mem_cons_of_mem _ (List.mem_append_left _ (List.mem_flatMap.mpr
        ⟨p, member, List.mem_cons_self⟩))
    have type : p.2.tokens.Sublist (referenceTokens false p.2.tokens) :=
      (List.sublist_append_right _ _).cons _
    exact weight_of_sublist documentation
      (type.trans ((sublist_tokens _).2.trans (sublist_function function)))

end Weights

end ForwardingType

end Forwarding
