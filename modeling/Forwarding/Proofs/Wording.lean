import Forwarding.Proofs.DeclaredNames
import Forwarding.Proofs.KeepingItems
/-!
The words ahead of readers. Where every word ahead is a name, a reader that succeeds has read names
and leaves names ahead of the next reader. So every declaration of a text is named by identifiers,
and so are its fields, its functions and what they bind.
-/

set_option mvcgen.warning false

open Std.Do

namespace Forwarding

namespace Lexeme

variable {ahead rest : List Lexeme}

/-- Every word among some lexemes is a name. -/
def Worded (lexemes : List Lexeme) : Prop :=
  ∀ name, .ident name ∈ tokensOf lexemes → Lexer.IsName name

theorem worded_cons {lexeme : Lexeme} :
    Worded (lexeme :: rest) ↔
      (∀ name, .ident name ∈ lexeme.tokens → Lexer.IsName name) ∧ Worded rest := by
  simp only [Worded, tokensOf, List.mem_append, or_imp, forall_and]

@[simp]
theorem worded_ident {name : String} {place : Position} :
    Worded (.leaf (.ident name) place :: rest) ↔ Lexer.IsName name ∧ Worded rest := by
  simp [worded_cons, tokens]

@[simp]
theorem worded_group {delimiter : Delimiter} {body : List Lexeme} {start stop : Position} :
    Worded (.group delimiter body start stop :: rest) ↔ Worded body ∧ Worded rest := by
  rw [worded_cons]
  simp [tokens, Worded]

theorem Worded.of_suffix (worded : Worded ahead) (suffix : rest <:+ ahead) : Worded rest := by
  obtain ⟨before, rfl⟩ := suffix
  intro name member
  exact worded name (by rw [tokensOf_append]; exact List.mem_append_right _ member)

end Lexeme

namespace Grammar

open Forwarding.Grammar.Parser
open Lexeme (Worded)

/-- The names among the lexemes ahead. -/
@[reducible]
def worded : Invasive :=
  .ofSuffix Worded Worded.of_suffix fun known => (Lexeme.worded_group.mp known).1

attribute [local instance] worded

@[simp]
theorem holds_worded {lexemes : List Lexeme} : Invariant.Holds lexemes ↔ Worded lexemes :=
  Iff.rfl

theorem yields_identifier :
    Yields identifier fun name => Lexer.IsName name ∧ isIdentifier name = true := by
  unfold identifier
  mvcgen <;> first | with_reducible exact And.left ‹_› | simp_all

theorem yields_lifetime : Yields lifetime Lexer.IsName := by
  unfold lifetime
  mvcgen
  rename_i known name _ found
  obtain ⟨start, place, same⟩ := dropLifetime_eq_some_iff.mp found
  rw [same, holds_worded, Lexeme.worded_cons, Lexeme.worded_ident] at known
  exact ⟨known.2.2, known.2.1⟩

/-- Between two inputs stands the name of a receiver, which may be marked as mutable. -/
def ReadsReceiver (i j : Input) : Prop :=
  ∃ mode k sign, (word? "mut").Reads i mode k ∧ (word "self").Reads k sign j

/-- A grammar whose notions leave names and give declarations with names. A pattern that binds `self`
is the name of a receiver. -/
class Sound (g : Grammar) : Prop where
  yields (n : Nonterminal) : Yields (g.parse n) n.IsNamed
  receives {i : Input} (worded : Worded i.rest) : ⦃fun s => ⌜s = i⌝⦄ g.pattern
    ⦃⇓? found j => ⌜found.form = .binding "self" → ReadsReceiver i j⌝⦄

variable {g : Grammar} [Sound g]

instance Sound.steady : Steady g :=
  ⟨fun n => keeps_of_yields (Sound.yields n)⟩

omit [Sound g] in
theorem yields_lifetimeParameter {attributes : List Attribute} :
    Yields (lifetimeParameter g attributes) GenericParameter.IsNamed := by
  unfold lifetimeParameter
  mvcgen [yields_lifetime] <;>
    first | with_reducible exact And.left ‹_› | simp_all [GenericParameter.IsNamed]

theorem yields_typeParameter {attributes : List Attribute} :
    Yields (typeParameter g attributes) GenericParameter.IsNamed := by
  unfold typeParameter
  mvcgen [yields_identifier] <;>
    first | with_reducible exact And.left ‹_› | simp_all [GenericParameter.IsNamed, IsIdentifier]

theorem yields_constParameter {attributes : List Attribute} :
    Yields (constParameter g attributes) GenericParameter.IsNamed := by
  unfold constParameter
  mvcgen [yields_identifier] <;>
    first | with_reducible exact And.left ‹_› | simp_all [GenericParameter.IsNamed, IsIdentifier]

theorem yields_listedParameter : Yields (listedParameter g) GenericParameter.IsNamed := by
  unfold listedParameter
  mvcgen [yields_lifetimeParameter, yields_typeParameter, yields_constParameter, yields_seenWord]
  simp_all [GenericParameter.IsNamed]

theorem yields_listedParameters {stop : Parser Bool} (stops : Keeps stop) :
    Yields (punctuated "," stop (listedParameter g)) fun found => ∀ p ∈ found.1, p.IsNamed :=
  yields_punctuated stops yields_listedParameter

theorem yields_genericParameters : Yields (genericParameters g) Generics.IsNamed := by
  unfold genericParameters
  mvcgen [yields_listedParameters] <;>
    first | with_reducible exact And.left ‹_› | simp_all [Generics.IsNamed, Generics.none]

theorem yields_withWhere {generics : Generics} (named : generics.IsNamed) :
    Yields (withWhere g generics) Generics.IsNamed := by
  unfold withWhere
  mvcgen [keeps_predicatesUpTo]

attribute [local spec] endsPattern readSince

/-- A pattern that is no plain identifier. -/
def Pattern.BindsNothing (pattern : Pattern) : Prop :=
  ∀ name, pattern.form ≠ .binding name

theorem yields_rangeAfter {start : Tree} : Yields (rangeAfter g start) Pattern.BindsNothing := by
  unfold rangeAfter
  mvcgen <;> first | with_reducible exact And.left ‹_› | simp_all [Pattern.BindsNothing]

theorem yields_rangeFrom : Yields (rangeFrom g) Pattern.BindsNothing := by
  unfold rangeFrom
  mvcgen <;> first | with_reducible exact And.left ‹_› | simp_all [Pattern.BindsNothing]

theorem yields_pathPattern : Yields (pathPattern g) Pattern.BindsNothing := by
  unfold pathPattern
  mvcgen [yields_rangeAfter] <;>
    first | with_reducible exact And.left ‹_› | simp_all [Pattern.BindsNothing]

theorem yields_bindingPattern : Yields (bindingPattern g) (Nonterminal.IsNamed .pattern) := by
  unfold bindingPattern
  mvcgen [yields_seenWord, yields_identifier] <;>
    simp_all [Nonterminal.IsNamed, IsIdentifier]
  all_goals
    intro name bound
    split at bound <;> simp_all

theorem receives_bindingPattern {i : Input} (worded : Worded i.rest) :
    ⦃fun s => ⌜s = i⌝⦄ bindingPattern g
      ⦃⇓? found j => ⌜Worded j.rest ∧ (found.form = .binding "self" → ReadsReceiver i j)⌝⦄ := by
  refine triple_iff.mpr fun s found j same ran => ?_
  subst same
  refine ⟨(triple_iff.mp yields_bindingPattern s found j worded ran).1, fun bound => ?_⟩
  simp only [bindingPattern, reads_bind, reads_seesWord, reads_seesOperator, reads_ite,
    reads_pure, existsAndEq] at ran
  obtain ⟨byRef, k, ref, mode, l, marked, -, ran⟩ := ran
  have binds {name : String}
      (same : (if byRef.isNone = true then PatternForm.binding name else .plain) =
        .binding "self") : k = s ∧ name = "self" := by
    split at same
    · rename_i unmarked
      rcases reads_word?.mp ref with ⟨tree, -, rfl⟩ | ⟨-, stays, -⟩
      · cases unmarked
      · cases same
        exact ⟨stays, rfl⟩
    · cases same
  rcases ran with ⟨seen, name, n, named, -, ended⟩ | ⟨unseen, name, n, named, -, ended⟩
  · rcases ended with ⟨_, _, _, _, _, _, -, rfl⟩ | ⟨-, rfl, rfl⟩
    · cases bound
    · obtain ⟨rfl, rfl⟩ := binds bound
      obtain ⟨place, rest, ahead, left⟩ := reads_anyWord.mp named
      exact ⟨mode, l, _, marked, reads_word.mpr ⟨place, rest, ahead, left, rfl⟩⟩
  · rcases ended with ⟨_, _, _, _, _, _, -, rfl⟩ | ⟨-, rfl, rfl⟩
    · cases bound
    · obtain ⟨rfl, rfl⟩ := binds bound
      obtain ⟨place, rest, -, -, allowed⟩ := reads_identifier.mp named
      exact absurd allowed (by decide)

theorem yields_patternOf : Yields (patternOf g) (Nonterminal.IsNamed .pattern) := by
  unfold patternOf
  mvcgen [tuplePattern, slicedPattern, yields_pathPattern, yields_bindingPattern,
    yields_rangeAfter, yields_rangeFrom] <;> simp_all [Nonterminal.IsNamed, Pattern.BindsNothing]

theorem receives_patternOf {i : Input} (worded : Worded i.rest) :
    ⦃fun s => ⌜s = i⌝⦄ patternOf g
      ⦃⇓? found j => ⌜found.form = .binding "self" → ReadsReceiver i j⌝⦄ := by
  have binding := receives_bindingPattern (g := g) worded
  unfold patternOf
  mvcgen [tuplePattern, slicedPattern, yields_pathPattern, binding, yields_rangeAfter,
    yields_rangeFrom] <;> simp_all [Pattern.BindsNothing]

/-- The names of a parameter, if it is one. -/
def ParameterOrDots.IsNamed : ParameterOrDots → Prop
  | .parameter param _ => param.IsNamed
  | .dots _ => True

omit [Sound g] in
/-- The name of a receiver with a type after it is a receiver. -/
theorem ReadsReceiver.typed {i j k l : Input} {colon type : Tree} (received : ReadsReceiver i j)
    (separated : (operator ":").Reads j colon k) (typed : g.type.Reads k type l) :
    ∃ tree, (receiver g).Reads i tree l := by
  obtain ⟨mode, between, sign, marked, named⟩ := received
  have noReference : sees i.rest (.operator "&") = false := by
    rcases reads_word?.mp marked with ⟨_, marked, -⟩ | ⟨-, rfl, -⟩
    · obtain ⟨_, _, ahead, -⟩ := reads_word.mp marked
      rw [ahead]
      rfl
    · obtain ⟨_, _, ahead, -⟩ := reads_word.mp named
      rw [ahead]
      rfl
  obtain ⟨rest, dropped, -⟩ := reads_operator.mp separated
  have colonAhead : sees j.rest (.operator ":") = true := sees_operator_iff.mpr ⟨rest, dropped⟩
  unfold receiver
  simp only [reads_bind]
  refine ⟨.seq (mode.toList ++ [sign, colon, type]), none, i,
    reads_operator?.mpr (.inr ⟨noReference, rfl, rfl⟩), ?_⟩
  rw [if_neg (by decide)]
  simp only [reads_bind]
  refine ⟨none, i, reads_pure.mpr ⟨rfl, rfl⟩, mode, between, marked, sign, j, named, true, j,
    reads_seesOperator.mpr ⟨rfl, colonAhead.symm⟩, ?_⟩
  rw [if_pos (by decide)]
  simp only [reads_bind]
  exact ⟨colon, k, separated, type, l, typed, _, l, reads_pure.mpr ⟨rfl, rfl⟩,
    reads_pure.mpr ⟨rfl, rfl⟩⟩

theorem yields_parameterOrDots {attributes : List Attribute} :
    Yields (parameterOrDots g attributes) ParameterOrDots.IsNamed := by
  refine triple_iff.mpr fun i found j worded ran => ?_
  refine ⟨triple_iff.mp keeps_parameterOrDots i found j worded ran, ?_⟩
  simp only [parameterOrDots, reads_bind, reads_get, existsAndEq, reads_attempt] at ran
  obtain ⟨before, tree?, k, ⟨tree, received, rfl⟩ | ⟨never, rfl, rfl⟩, ran⟩ := ran
  · rw [reads_pure] at ran
    obtain ⟨-, rfl⟩ := ran
    trivial
  simp only [reads_bind, reads_place, reads_peek, reads_peek2, reads_seesOperator,
    existsAndEq, reads_ite, reads_pure] at ran
  rcases ran.2.2.2 with ⟨-, -, -, -, rfl⟩ | ⟨-, pattern, l, bound, colon, m, separated, -, ran⟩
  · trivial
  rcases ran with ⟨-, -, -, -, rfl⟩ | ⟨-, type, typed, -, rfl⟩
  · trivial
  cases form : pattern.form with
  | binding name =>
    show IsIdentifier name
    have named := (triple_iff.mp (Sound.yields .pattern) k pattern l worded bound).2 name form
    refine named.resolve_right ?_
    rintro rfl
    have received := triple_iff.mp (Sound.receives worded) k pattern l rfl bound form
    obtain ⟨tree, taken⟩ := received.typed separated typed
    exact never tree j taken
  | _ => trivial

theorem yields_parametersUpTo {some? received : Bool} {count : Nat} :
    Yields (parametersUpTo g some? received count) fun found => ∀ p ∈ found.params, p.IsNamed := by
  induction count generalizing some? received with
  | zero =>
    unfold parametersUpTo
    mvcgen
    simp_all
  | succ count ih =>
    unfold parametersUpTo
    mvcgen [yields_parameterOrDots, ih] <;>
      first | with_reducible exact And.left ‹_› | simp_all [ParameterOrDots.IsNamed]

theorem yields_parameters {p : Parser Parameters}
    (yields : Yields p fun found => ∀ param ∈ found.params, param.IsNamed) :
    Yields (grouped .parenthesis p) fun found => ∀ param ∈ found.params, param.IsNamed :=
  yields_grouped yields

theorem yields_signature : Yields (signature g) Signature.IsNamed := by
  unfold signature
  mvcgen [yields_identifier, yields_parameters, yields_parametersUpTo] <;>
    simp_all [Signature.isNamed_iff, IsIdentifier]

theorem yields_namedField : Yields (namedField g) Field.IsNamed := by
  unfold namedField
  mvcgen [yields_identifier, yields_seenWord] <;>
    first | with_reducible exact And.left ‹_› | simp_all [Field.IsNamed, IsIdentifier]

theorem yields_fields {stop : Parser Bool} {p : Parser Field} (stops : Keeps stop)
    (yields : Yields p Field.IsNamed) :
    Yields (punctuated "," stop p) fun found => ∀ field ∈ found.1, field.IsNamed :=
  yields_punctuated stops yields

theorem yields_bracedFields {p : Parser (List Field × Bool)}
    (yields : Yields p fun found => ∀ field ∈ found.1, field.IsNamed) :
    Yields (grouped .brace p) fun found => ∀ field ∈ found.1, field.IsNamed :=
  yields_grouped yields

theorem yields_namedFields : Yields (namedFields g) Fields.IsNamed := by
  unfold namedFields
  mvcgen [yields_namedField, yields_fields, yields_bracedFields]

omit [Sound g] in
theorem yields_positionalFields : Yields (positionalFields g) Fields.IsNamed := by
  unfold positionalFields
  mvcgen

theorem yields_structBody {generics : Generics} (named : generics.IsNamed) :
    Yields (structBody g generics) fun found => found.1.IsNamed ∧ found.2.IsNamed := by
  unfold structBody
  mvcgen [yields_withWhere, yields_namedFields, yields_positionalFields] <;>
    first | with_reducible exact And.left ‹_› | simp_all [Fields.IsNamed]

theorem yields_structItem {attributes : List Attribute} :
    Yields (structItem g attributes) StructItem.IsNamed := by
  unfold structItem
  mvcgen [yields_identifier, yields_genericParameters, yields_structBody] <;>
    simp_all [StructItem.isNamed_iff, IsIdentifier]

theorem yields_method? {attributes : List Attribute} :
    Yields (method? g attributes) fun found =>
      ∀ method ∈ found, method.signature.IsNamed := by
  unfold method?
  mvcgen [yields_signature] <;> first | with_reducible exact And.left ‹_› | simp_all

theorem yields_implMember :
    Yields (implMember g) fun found =>
      ∀ method, found = .method method → method.signature.IsNamed := by
  unfold implMember
  mvcgen [yields_method?] <;> first | with_reducible exact And.left ‹_› | simp_all

theorem yields_members {p : Parser ImplMember}
    (yields : Yields p fun found => ∀ method, found = .method method → method.signature.IsNamed) :
    Yields (braced g (untilEnd p)) fun found =>
      ∀ method, .method method ∈ found.2 → method.signature.IsNamed :=
  yields_braced (Yields.mono (yields_untilEnd yields) fun _ each method member =>
    each _ member method rfl)

theorem yields_implItem {attributes : List Attribute} :
    Yields (implItem g attributes) fun found => ∀ block ∈ found, block.IsNamed := by
  unfold implItem
  refine keeps_visibility.bind fun visibility => keeps_word?.bind fun byDefault =>
    keeps_word?.bind fun unsafety => keeps_word.bind fun _ => ?_
  have bare : Generics.IsNamed .none := by simp [Generics.IsNamed, Generics.none]
  refine keeps_beginsImplGenerics.bind fun _ =>
    .either yields_genericParameters (yields_pure bare) fun generics named => ?_
  refine keeps_seesWord.bind fun _ => keeps_seesOperator.bind fun _ => keeps_peek2.bind fun _ => ?_
  extract_lets -underBinder isConst unsigned
  refine .join unsigned (fun _ => True) (fun later => ?_) fun _ _ => ?_
  · exact .ite (fun _ => keeps_operator?.bind fun _ => keeps_word.bind fun _ => later () trivial)
      fun _ => later () trivial
  have negated : Yields (some <$> operator "!") fun _ => True :=
    keeps_operator.yields.map fun _ _ => trivial
  refine keeps_seesOperator.bind fun _ => keeps_peek2.bind fun _ =>
    .either negated (yields_pure trivial) fun polarity _ => ?_
  have typed : Keeps g.type := keeps_parse
  refine typed.bind fun first => keeps_seesWord.bind fun isFor => ?_
  extract_lets -underBinder isPath ended
  refine .join ended (fun _ => True) (fun later => ?_) fun ⟨ofTrait, selfType⟩ _ => ?_
  · exact .ite (fun _ => keeps_word.bind fun _ => typed.bind fun _ =>
      (yields_pure trivial).bind later) fun _ => (yields_pure trivial).bind later
  refine (yields_withWhere named).bind fun generics named =>
    (yields_members yields_implMember).bind fun ⟨inner, members⟩ worded => ?_
  refine .ite (fun _ => yields_pure nofun) fun _ => yields_pure ?_
  rintro _ ⟨⟩
  exact ⟨named, worded⟩

theorem yields_items {p : Parser Item} (yields : Yields p Item.IsNamed) :
    Yields (braced g (untilEnd p)) fun found => Item.AreNamed found.2 :=
  yields_braced (Yields.mono (yields_untilEnd yields) fun _ each => Item.areNamed_iff.mpr each)

theorem yields_item : Yields (g.parse .item) Item.IsNamed :=
  Sound.yields .item

theorem yields_moduleItem {attributes : List Attribute} :
    Yields (moduleItem g attributes) Item.IsNamed := by
  unfold moduleItem
  mvcgen [yields_seenWord, yields_identifier, yields_item, yields_items] <;>
    simp_all [Item.IsNamed, IsIdentifier]

theorem yields_itemOf : Yields (itemOf g) Item.IsNamed := by
  unfold itemOf
  mvcgen [yields_implItem, yields_moduleItem, yields_structItem] <;>
    first | with_reducible exact And.left ‹_› | simp_all [Item.IsNamed]

theorem yields_rule (n : Nonterminal) : Yields (rule g n) n.IsNamed := by
  cases n with
  | pattern => exact yields_patternOf
  | item => exact yields_itemOf
  | type plus => exact Keeps.yields keeps_typeOf
  | bound captures constant => exact Keeps.yields keeps_boundOf
  | expression braces => exact Keeps.yields keeps_expressionOf
  | operand braces => exact Keeps.yields keeps_operandOf
  | standalone => exact Keeps.yields keeps_standaloneOf
  | statements => exact Keeps.yields keeps_statementsOf
  | imports rooted => exact Keeps.yields keeps_importsOf

/-- The grammars leave names and give declarations with names, however deep notions nest. -/
instance sound_ofDepth (depth : Nat) : Sound (ofDepth depth) := by
  induction depth with
  | zero =>
    exact ⟨fun _ => triple_iff.mpr fun _ _ _ _ ran => absurd ran reads_fail,
      fun _ => triple_iff.mpr fun _ _ _ _ ran => absurd ran reads_fail⟩
  | succ depth ih => exact ⟨yields_rule, receives_patternOf⟩

theorem yields_file : Yields (file g) Item.AreNamed := by
  have items : Yields (untilEnd g.item) Item.AreNamed :=
    Yields.mono (yields_untilEnd (Sound.yields .item)) fun _ each => Item.areNamed_iff.mpr each
  refine triple_iff.mpr fun i found j worded ran => ?_
  obtain ⟨_, k, before, ran⟩ := reads_bind.mp ran
  exact triple_iff.mp items k found j (triple_iff.mp keeps_innerAttributes i _ k worded before) ran

/-- The declarations of a text are named by identifiers. -/
theorem areNamed_of_parseFile {text : String} {items : List Item}
    (parsed : parseFile text = .ok items) : Item.AreNamed items := by
  unfold parseFile parseChars at parsed
  split at parsed
  · cases parsed
  rename_i lexemes lexed
  obtain ⟨j, read, -⟩ := runAll_eq_ok_iff.mp parsed
  exact (triple_iff.mp yields_file _ _ _ (fun _ member => Lexer.isName_of_lex lexed member) read).2

end Grammar

end Forwarding
