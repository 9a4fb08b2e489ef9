import Forwarding.Proofs.KeepingItems
import Forwarding.Proofs.LegibleTrees
/-!
What readers make of legible lexemes. What a reader keeps as it was written is legible, since it never
stops between an apostrophe and its name. Words, operators and literals are legible by themselves.
-/

set_option mvcgen.warning false

open Std.Do

namespace Forwarding

namespace Token

open Lexer

theorem Joins.not_closing {delimiter : Delimiter} : ¬ Joins apostrophe (closing delimiter) := by
  intro joins
  cases joins with
  | symbol operator => exact apostrophe_not_symbol operator

theorem Joins.not_punct {symbol : Char} {joint : Bool} : ¬ Joins apostrophe (punct symbol joint) := by
  intro joins
  cases joins with
  | symbol operator => exact apostrophe_not_symbol operator

theorem Legible.of_closing {before after : List Token} {delimiter : Delimiter}
    (legible : Legible (before ++ Token.closing delimiter :: after)) : Legible before := by
  induction before with
  | nil => exact .nil
  | cons t before ih =>
    have later := ih legible.tail
    generalize same : t :: before ++ Token.closing delimiter :: after = all at legible
    cases legible with
    | nil => cases same
    | word named => cases same; exact .word named later
    | literal whole => cases same; exact .literal whole later
    | mark => cases same; exact .mark later
    | opening delimiter => cases same; exact .opening delimiter later
    | closing delimiter => cases same; exact .closing delimiter later
    | symbol joint operator => cases same; exact .symbol joint operator later
    | apostrophe joins =>
      cases before with
      | nil =>
        cases same
        exact absurd joins Joins.not_closing
      | cons u before =>
        cases same
        exact .apostrophe joins later

theorem Legible.of_apostrophe {joint : Bool} {rest : List Token}
    (legible : Legible (.punct Token.apostrophe joint :: rest)) :
    joint = true ∧ ∃ next more, rest = next :: more ∧ Joins Token.apostrophe next := by
  generalize same : punct Token.apostrophe joint :: rest = all at legible
  cases legible with
  | symbol joint operator =>
    cases same
    exact absurd operator apostrophe_not_symbol
  | apostrophe joins =>
    cases same
    exact ⟨rfl, _, _, rfl, joins⟩
  | _ => cases same

/-- A first token that is no apostrophe is told by itself. -/
theorem Legible.first {t : Token} {rest : List Token} (legible : Legible (t :: rest))
    (noMark : ∀ joint, t ≠ .punct Token.apostrophe joint) : Legible [t] := by
  cases legible with
  | word named => exact .word named .nil
  | literal whole => exact .literal whole .nil
  | mark => exact .mark .nil
  | opening delimiter => exact .opening delimiter .nil
  | closing delimiter => exact .closing delimiter .nil
  | symbol joint operator => exact .symbol joint operator .nil
  | apostrophe joins => exact absurd rfl (noMark true)

end Token

namespace Lexeme

/-- Lexemes of legible tokens. -/
structure AreLegible (lexemes : List Lexeme) : Prop where
  shown : Shows lexemes (tokensOf lexemes)
  legible : Token.Legible (tokensOf lexemes)

namespace AreLegible

variable {before rest : List Lexeme} {t : Token} {start stop : Position} {delimiter : Delimiter}
  {body : List Lexeme}

theorem isLegible (legible : AreLegible rest) : Token.IsLegible (tokensOf rest) :=
  ⟨legible.legible, _, legible.shown⟩

theorem nil : AreLegible [] :=
  ⟨.nil, .nil⟩

theorem append (first : AreLegible before) (last : AreLegible rest) : AreLegible (before ++ rest) := by
  constructor <;> rw [tokensOf_append]
  · exact first.shown.append last.shown
  · exact first.legible.append last.legible

theorem leaf (noBracket : t.isBracket = false) (told : Token.Legible [t]) :
    AreLegible [.leaf t start] :=
  ⟨.leaf noBracket .nil, told⟩

theorem of_leaf (legible : AreLegible (.leaf t start :: rest)) :
    t.isBracket = false ∧ AreLegible rest := by
  obtain ⟨shown, told⟩ := legible
  cases shown with
  | leaf noBracket more =>
    exact ⟨noBracket, more.tokensOf_eq.symm ▸ more, told.tail⟩

theorem of_group (legible : AreLegible (.group delimiter body start stop :: rest)) :
    AreLegible body ∧ AreLegible rest := by
  obtain ⟨shown, told⟩ := legible
  have tokens : tokensOf (.group delimiter body start stop :: rest) =
      .opening delimiter :: (tokensOf body ++ .closing delimiter :: tokensOf rest) := by
    simp [tokensOf, Lexeme.tokens]
  rw [tokens] at told
  generalize tokensOf (.group delimiter body start stop :: rest) = all at shown
  cases shown with
  | group inside more =>
    exact ⟨⟨inside.tokensOf_eq.symm ▸ inside, told.tail.of_closing⟩,
      ⟨more.tokensOf_eq.symm ▸ more, told.tail.of_append.tail⟩⟩

theorem group (inside : AreLegible body) : AreLegible [.group delimiter body start stop] := by
  have legible := Token.IsLegible.group delimiter inside.isLegible
  have tokens : tokensOf [.group delimiter body start stop] =
      .opening delimiter :: (tokensOf body ++ [.closing delimiter]) := by
    simp [tokensOf, Lexeme.tokens]
  exact ⟨tokens ▸ .group inside.shown .nil, tokens ▸ legible.legible⟩

theorem of_suffix (legible : AreLegible before) (suffix : rest <:+ before) : AreLegible rest := by
  obtain ⟨front, rfl⟩ := suffix
  induction front with
  | nil => exact legible
  | cons lexeme front ih =>
    refine ih ?_
    cases lexeme with
    | leaf t start => exact legible.of_leaf.2
    | group delimiter body start stop => exact legible.of_group.2

end AreLegible

theorem head_of_dropOperator {symbols : List Char} {ahead rest : List Lexeme}
    (dropped : Grammar.dropOperator symbols ahead = some rest) :
    ∃ symbol joint start after, ahead = .leaf (.punct symbol joint) start :: after := by
  unfold Grammar.dropOperator at dropped
  split at dropped
  · exact ⟨_, _, _, _, rfl⟩
  · exact ⟨_, _, _, _, rfl⟩
  · cases dropped

/-- Lexemes that have been read from others, both of legible tokens. -/
def Splits (whole rest : List Lexeme) : Prop :=
  AreLegible rest ∧ ∃ read, whole = read ++ rest ∧ AreLegible read

namespace Splits

variable {whole rest : List Lexeme} {t : Token} {start stop : Position}

theorem step (front : List Lexeme) (split : Splits whole (front ++ rest)) (told : AreLegible front) :
    Splits whole rest := by
  obtain ⟨legible, read, rfl, before⟩ := split
  exact ⟨legible.of_suffix (List.suffix_append _ _), read ++ front, (List.append_assoc _ _ _).symm,
    before.append told⟩

theorem of_leaf (split : Splits whole (.leaf t start :: rest))
    (noMark : ∀ joint, t ≠ .punct Token.apostrophe joint) : Splits whole rest :=
  split.step [.leaf t start]
    (.leaf split.1.of_leaf.1 (split.1.legible.first noMark))

theorem of_operator {symbols : List Char} {ahead : List Lexeme} (split : Splits whole ahead)
    (dropped : Grammar.dropOperator symbols ahead = some rest) : Splits whole rest := by
  fun_induction Grammar.dropOperator symbols ahead with
  | case1 c symbol joint start after found =>
    cases dropped
    refine split.of_leaf ?_
    rintro joint' ⟨⟩
    rw [Bool.and_eq_true, beq_iff_eq, bne_iff_ne] at found
    exact found.2 found.1.symm
  | case2 => cases dropped
  | case3 c more symbol joint start after _ found ih =>
    refine ih (split.of_leaf ?_) dropped
    -- no operator goes on behind an apostrophe
    rintro joint' ⟨⟩
    obtain ⟨next, joint, place, after, rfl⟩ := head_of_dropOperator dropped
    obtain ⟨-, _, _, same, joins⟩ := split.1.legible.of_apostrophe
    obtain ⟨rfl, -⟩ := List.cons.inj same
    exact Token.Joins.not_punct joins
  | case4 => cases dropped
  | case5 => cases dropped

theorem of_lifetime {name : String} {ahead : List Lexeme} (split : Splits whole ahead)
    (dropped : Grammar.dropLifetime ahead = some (name, rest)) : Splits whole rest := by
  obtain ⟨start, place, rfl⟩ := Grammar.Parser.dropLifetime_eq_some_iff.mp dropped
  refine split.step [_, _] ⟨.leaf rfl (.leaf rfl .nil), ?_⟩
  obtain ⟨-, _, _, same, joins⟩ := split.1.legible.of_apostrophe
  obtain ⟨rfl, -⟩ := List.cons.inj same
  exact .apostrophe joins (split.1.legible.tail.first nofun)

theorem of_literal {tokens : List Token} {ahead : List Lexeme} (split : Splits whole ahead)
    (dropped : Grammar.dropLiteral ahead = some (tokens, rest)) : Splits whole rest := by
  unfold Grammar.dropLiteral at dropped
  split at dropped
  · cases dropped
    exact split.of_leaf nofun
  · split at dropped <;> cases dropped
    exact split.of_leaf nofun
  · split at dropped <;> cases dropped
    rename_i found
    refine Splits.of_leaf (split.of_leaf ?_) nofun
    rintro joint' ⟨⟩
    revert found
    simp [Token.apostrophe]
  · cases dropped

theorem of_group {delimiter : Delimiter} {body : List Lexeme}
    (split : Splits whole (.group delimiter body start stop :: rest)) : Splits whole rest :=
  split.step [.group delimiter body start stop] (.group split.1.of_group.1)

theorem of_all (split : Splits whole rest) : Splits whole [] := by
  obtain ⟨legible, read, rfl, before⟩ := split
  exact ⟨.nil, _, (List.append_nil _).symm, before.append legible⟩

theorem refl (legible : AreLegible whole) : Splits whole whole :=
  ⟨legible, [], rfl, .nil⟩

/-- What stands between two places is legible. -/
theorem piece {after : List Lexeme} (split : Splits whole rest) (split' : Splits whole after) :
    Token.IsLegible (tokensOf (rest.take (rest.length - after.length))) := by
  obtain ⟨-, read, rfl, -⟩ := split
  obtain ⟨-, read', same, before⟩ := split'
  rcases List.append_eq_append_iff.mp same with ⟨between, rfl, rfl⟩ | ⟨between, rfl, rfl⟩
  · simpa using (before.of_suffix (List.suffix_append _ _)).isLegible
  · simpa [tokensOf] using Token.IsLegible.nil

end Splits

end Lexeme

namespace Tree

theorem isLegible_ofTokens {tokens : List Token} (told : Token.IsLegible tokens) :
    (ofTokens tokens).IsLegible := by
  rw [ofTokens, IsLegible]
  refine .inl fun f _ => ?_
  have kept : mapNamesAll f (tokens.map token) = tokens.map token := by
    rw [mapNamesAll_eq_map, List.map_map]
    rfl
  rwa [kept, tokensOf_map_token]

@[simp]
theorem isLegible_word {name : String} : (word name).IsLegible ↔ Lexer.IsName name := by
  rw [word, IsLegible]
  refine ⟨fun told => ?_, .word⟩
  cases told.legible with
  | word named => exact named

theorem isLegible_operator {symbols : String}
    (each : ∀ c ∈ symbols.toList, c ∈ '/' :: Lexer.operatorSymbols) : (operator symbols).IsLegible :=
  isLegible_ofTokens (.symbols each)

/-- The signs that are printed. -/
@[simp]
theorem isLegible_signs :
    (operator ",").IsLegible ∧ (operator "+").IsLegible ∧ (operator ":").IsLegible ∧
      (operator ";").IsLegible ∧ (operator "::").IsLegible ∧ (operator "<").IsLegible ∧
      (operator ">").IsLegible ∧ (operator "=").IsLegible ∧ (operator "->").IsLegible ∧
      (operator "&").IsLegible ∧ (operator "*").IsLegible ∧ (operator "!").IsLegible ∧
      (operator "?").IsLegible ∧ (operator "|").IsLegible ∧ (operator "@").IsLegible ∧
      (operator "#").IsLegible ∧ (operator ".").IsLegible ∧ (operator "...").IsLegible ∧
      (operator "..=").IsLegible := by
  refine ⟨?_, ?_, ?_, ?_, ?_, ?_, ?_, ?_, ?_, ?_, ?_, ?_, ?_, ?_, ?_, ?_, ?_, ?_, ?_⟩ <;>
    exact isLegible_operator (by decide)

@[simp]
theorem areLegible_toList {tree? : Option Tree} :
    AreLegible tree?.toList ↔ ∀ tree, tree? = some tree → tree.IsLegible := by
  cases tree? <;> simp

theorem areLegible_separated {separator : Tree} {trees : List Tree} (between : separator.IsLegible)
    (each : AreLegible trees) : AreLegible (separated separator trees) := by
  fun_induction separated separator trees with
  | case1 => trivial
  | case2 => exact each
  | case3 tree rest some ih => exact ⟨each.1, between, ih each.2⟩

end Tree

namespace Grammar

open Invariant (Holds)

/-- A fact about lexemes that tells what stands between two places at which it holds. -/
class Telling extends Invariant where
  legible {ahead : List Lexeme} : Holds ahead → Lexeme.AreLegible ahead
  piece {before after : List Lexeme} : Holds before → Holds after →
    Token.IsLegible (Lexeme.tokensOf (before.take (before.length - after.length)))

/-- The lexemes ahead are legible, and so are those before them from some place on. -/
@[reducible]
def behind (whole : List Lexeme) : Telling where
  Holds := Lexeme.Splits whole
  of_word split := split.of_leaf nofun
  of_operator := Lexeme.Splits.of_operator
  of_lifetime := Lexeme.Splits.of_lifetime
  of_literal := Lexeme.Splits.of_literal
  of_behind := Lexeme.Splits.of_group
  of_all := Lexeme.Splits.of_all
  legible split := split.1
  piece := Lexeme.Splits.piece

namespace Legibly

open Forwarding.Grammar.Parser
open Lexer (IsName)

theorem areLegible_join {separator : String} {trees : List Tree} {trailing : Bool}
    (between : (Tree.operator separator).IsLegible) (each : Tree.AreLegible trees) :
    Tree.AreLegible (join separator trees trailing) := by
  rw [join, Tree.areLegible_append]
  refine ⟨Tree.areLegible_separated between each, ?_⟩
  split
  · exact ⟨between, trivial⟩
  · trivial

theorem isName_of_leaf {name : String} {start : Position} {rest : List Lexeme}
    (known : Lexeme.AreLegible (.leaf (.ident name) start :: rest)) : IsName name := by
  cases known.legible with
  | word named => exact named

theorem symbols_of_dropOperator {symbols : List Char} {ahead rest : List Lexeme}
    (known : Lexeme.AreLegible ahead) (dropped : dropOperator symbols ahead = some rest) :
    ∀ c ∈ symbols, c ∈ '/' :: Lexer.operatorSymbols := by
  have own {c : Char} {joint : Bool} {start : Position} {after : List Lexeme}
      (known : Lexeme.AreLegible (.leaf (.punct c joint) start :: after))
      (noMark : c ≠ Token.apostrophe) : c ∈ '/' :: Lexer.operatorSymbols := by
    have first := known.legible.first (t := .punct c joint) (by
      rintro joint' ⟨⟩
      exact noMark rfl)
    cases first with
    | symbol _ operator => exact operator
  fun_induction dropOperator symbols ahead with
  | case1 c symbol joint start after found =>
    rw [Bool.and_eq_true, beq_iff_eq, bne_iff_ne] at found
    obtain ⟨rfl, noMark⟩ := found
    simpa using own known noMark
  | case2 => cases dropped
  | case3 c more symbol joint start after _ found ih =>
    rw [Bool.and_eq_true, beq_iff_eq] at found
    obtain ⟨rfl, -⟩ := found
    refine List.forall_mem_cons.mpr ⟨own known ?_, ih known.of_leaf.2 dropped⟩
    rintro rfl
    obtain ⟨next, joint, place, after, rfl⟩ := Lexeme.head_of_dropOperator dropped
    obtain ⟨-, _, _, same, joins⟩ := known.legible.of_apostrophe
    obtain ⟨rfl, -⟩ := List.cons.inj same
    exact Token.Joins.not_punct joins
  | case4 => cases dropped
  | case5 => cases dropped

theorem isLegible_leaf {t : Token} {start : Position} {rest : List Lexeme}
    (known : Lexeme.AreLegible (.leaf t start :: rest))
    (noMark : ∀ joint, t ≠ .punct Token.apostrophe joint) : Token.IsLegible [t] :=
  ⟨known.legible.first noMark, [.leaf t start], .leaf known.of_leaf.1 .nil⟩

theorem isLegible_of_dropLiteral {tokens : List Token} {ahead rest : List Lexeme}
    (known : Lexeme.AreLegible ahead) (dropped : dropLiteral ahead = some (tokens, rest)) :
    Token.IsLegible tokens := by
  unfold dropLiteral at dropped
  split at dropped
  · cases dropped
    exact isLegible_leaf known nofun
  · split at dropped <;> cases dropped
    exact isLegible_leaf known nofun
  · split at dropped <;> cases dropped
    have minus : Token.IsLegible (Token.operator "-") := .symbols (by decide)
    exact minus.append (isLegible_leaf known.of_leaf.2 nofun)
  · cases dropped

section Reading

variable [Telling]

theorem yields_word {text : String} :
    Yields (word text) fun tree => tree.IsLegible ∧ IsName text := by
  unfold word
  mvcgen
  · rename_i known seen
    obtain ⟨place, rest, ahead⟩ := sees_word_iff.mp seen
    exact Invariant.drop_word known ahead
  · rename_i known seen _ _ later
    obtain ⟨place, rest, ahead⟩ := sees_word_iff.mp seen
    have named := isName_of_leaf (ahead ▸ Telling.legible known)
    exact ⟨later, Tree.isLegible_word.mpr named, named⟩

theorem yields_anyWord : Yields anyWord IsName := by
  unfold anyWord
  mvcgen
  · rename_i known _ _ _ ahead
    exact Invariant.drop_word known ahead
  · rename_i known _ _ _ ahead _ _ later
    exact ⟨later, isName_of_leaf (ahead ▸ Telling.legible known)⟩

theorem yields_identifier : Yields identifier IsName := by
  unfold identifier
  mvcgen
  · rename_i known _ _ _ ahead _
    exact Invariant.drop_word known ahead
  · rename_i known _ _ _ ahead _ _ _ later
    exact ⟨later, isName_of_leaf (ahead ▸ Telling.legible known)⟩

theorem yields_lifetime : Yields lifetime IsName := by
  unfold lifetime
  mvcgen
  rename_i known name _ found
  obtain ⟨start, place, same⟩ := dropLifetime_eq_some_iff.mp found
  exact ⟨Invariant.of_lifetime known found,
    isName_of_leaf (same ▸ Telling.legible known).of_leaf.2⟩

theorem yields_operator {symbols : String} : Yields (operator symbols) Tree.IsLegible := by
  unfold operator
  mvcgen
  rename_i known rest dropped
  exact ⟨Invariant.of_operator known dropped,
    Tree.isLegible_operator (symbols_of_dropOperator (Telling.legible known) dropped)⟩

theorem yields_literal : Yields literal Tree.IsLegible := by
  unfold literal
  mvcgen
  rename_i known tokens rest dropped
  exact ⟨Invariant.of_literal known dropped,
    Tree.isLegible_ofTokens (isLegible_of_dropLiteral (Telling.legible known) dropped)⟩

theorem yields_stringLiteral :
    Yields stringLiteral fun found => Token.IsLegible [.literal found.1] := by
  unfold stringLiteral
  mvcgen
  · rename_i known _ _ _ ahead _ _
    exact Invariant.drop_literal known ahead
  · rename_i known _ _ _ ahead _ _ _ _ later
    exact ⟨later, isLegible_leaf (ahead ▸ Telling.legible known) (by simp)⟩

theorem yields_anyGroup : Yields anyGroup fun found => found.2.IsLegible := by
  unfold anyGroup
  mvcgen
  · rename_i known _ _ _ _ _ ahead
    exact Invariant.drop_group known ahead
  · rename_i known _ _ _ _ _ ahead _ _ later
    have inside := (ahead ▸ Telling.legible known).of_group.1
    exact ⟨later, Tree.isLegible_ofTokens (.group _ inside.isLegible)⟩

attribute [local spec high] yields_word yields_operator yields_lifetime

theorem yields_word? {text : String} :
    Yields (Parser.word? text) fun found => Tree.AreLegible found.toList := by
  unfold Parser.word?
  mvcgen
  simp_all

theorem yields_operator? {symbols : String} :
    Yields (operator? symbols) fun found => Tree.AreLegible found.toList := by
  unfold operator?
  mvcgen
  simp_all

theorem yields_lifetime? :
    Yields lifetime? fun found => Tree.AreLegible (found.map Tree.lifetime).toList := by
  unfold lifetime?
  mvcgen
  simp_all

variable {α : Type} {kind : α → Prop} {p : Parser α} {element : Parser Tree} {stop : Parser Bool}
  {separator : String} {delimiter : Delimiter}

/-- What is kept as it was written is legible. -/
theorem yields_verbatim (keeps : Keeps p) : Yields (verbatim p) Tree.IsLegible := by
  unfold verbatim
  mvcgen [keeps]
  rename_i known _ _ _ later
  exact ⟨later, Tree.isLegible_ofTokens (Telling.piece known later)⟩

/-- What is read of a group depends on its content alone. -/
theorem yields_grouped (yields : ∀ inst : Telling, @Yields α inst.toInvariant p kind) :
    Yields (grouped delimiter p) kind := by
  refine triple_iff.mpr fun i a j known ran => ?_
  obtain ⟨body, _, _, rest, m, ahead, read, rfl⟩ := reads_grouped.mp ran
  rw [ahead] at known
  have inside := (Telling.legible known).of_group.1
  exact ⟨Invariant.of_behind known,
    (triple_iff.mp (yields (behind body)) _ _ _ (Lexeme.Splits.refl inside) read).2⟩

theorem yields_groupedTree {p : Parser (List Tree)}
    (yields : ∀ inst : Telling, @Yields _ inst.toInvariant p Tree.AreLegible) :
    Yields (groupedTree delimiter p) Tree.IsLegible := by
  have inside : Yields (grouped delimiter p) Tree.AreLegible := yields_grouped yields
  unfold groupedTree
  mvcgen [inside]

theorem yields_trees {step : Parser (Option Tree)}
    (yields : Yields step fun found => Tree.AreLegible found.toList) :
    Yields (repeated step) Tree.AreLegible :=
  Yields.mono (yields_repeated (Yields.mono yields fun found each tree same => by simp_all))
    fun _ => Tree.areLegible_iff.mpr

theorem yields_untilEnd (yields : Yields element Tree.IsLegible) :
    Yields (untilEnd element) Tree.AreLegible :=
  Yields.mono (Parser.yields_untilEnd yields) fun _ => Tree.areLegible_iff.mpr

theorem yields_punctuated (stops : Keeps stop) (yields : Yields element Tree.IsLegible) :
    Yields (punctuated separator stop element) fun found => Tree.AreLegible found.1 :=
  Yields.mono (Parser.yields_punctuated stops yields) fun _ => Tree.areLegible_iff.mpr

theorem yields_sum (stops : Keeps stop) (yields : Yields element Tree.IsLegible) :
    Yields (sum stop element) fun found => Tree.AreLegible found.1 :=
  Yields.mono (Parser.yields_sum stops yields) fun _ => Tree.areLegible_iff.mpr

theorem yields_commaList (yields : Yields element Tree.IsLegible) :
    Yields (commaList element) Tree.AreLegible := by
  have stops : Keeps atEnd := by mvcgen [atEnd]
  have items : Yields (punctuated "," atEnd element) fun found => Tree.AreLegible found.1 :=
    yields_punctuated stops yields
  unfold commaList
  mvcgen [items]
  simp_all [areLegible_join]

end Reading

end Legibly

end Grammar

end Forwarding
