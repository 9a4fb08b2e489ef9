import Forwarding.Proofs.Declared
import Forwarding.Proofs.LegibleDeclarations
import Forwarding.Proofs.Occurrences
import Forwarding.Proofs.PlainSources
import Mathlib.Logic.Function.Basic
/-!
Hygiene of canonical forms. A canonical form names parameters by placeholders, one for each position.
As long as nothing else in a type is spelled like a placeholder, the form tells the parameters from
all other names: two types with the same form are the same whatever their parameters are called. A
type may spell a placeholder itself, since these are names as any other, and is then confused with
one that has a parameter in its place.
-/

namespace Forwarding

namespace Token

theorem gap_settle (t : Token) (rest : List Token) : gap t (settle rest) = gap t rest := by
  cases rest with
  | nil => rfl
  | cons u rest =>
    cases u with
    | punct symbol joint => cases t <;> rfl
    | _ => rw [settle] <;> first | rfl | simp

/-- Nothing is lost by settling joints. -/
theorem renderChars_settle (tokens : List Token) :
    renderChars (settle tokens) = renderChars tokens := by
  induction tokens with
  | nil => rfl
  | cons t rest ih =>
    cases t with
    | punct symbol joint =>
      -- a joint that is dropped stands at the end or before a bracket that closes without a blank
      have close : gap (punct symbol (joint && goesOn rest)) (settle rest) =
          gap (punct symbol joint) rest := by
        rw [gap_settle]
        cases rest with
        | nil => rfl
        | cons u rest => cases u <;> simp [gap, spaced, goesOn]
      rw [settle, renderChars_cons, renderChars_cons, close, ih]
      rfl
    | _ =>
      rw [settle, renderChars_cons, renderChars_cons, gap_settle, ih]
      simp

/-- Names stand where they have stood. -/
theorem getElem?_settle_ident {tokens : List Token} {i : Nat} {name : String} :
    (settle tokens)[i]? = some (ident name) ↔ tokens[i]? = some (ident name) := by
  induction tokens generalizing i with
  | nil => rfl
  | cons t rest ih =>
    cases i with
    | zero => cases t <;> simp [settle]
    | succ i => cases t <;> simp [settle, ih]

/-- The token with a new name. -/
def renamed (σ : String → String) : Token → Token
  | ident name => ident (σ name)
  | t => t

theorem settle_map_renamed (σ : String → String) (tokens : List Token) :
    settle (tokens.map (renamed σ)) = (settle tokens).map (renamed σ) := by
  induction tokens with
  | nil => rfl
  | cons t rest ih =>
    have goesOn : goesOn (rest.map (renamed σ)) = goesOn rest := by
      cases rest with
      | nil => rfl
      | cons u rest => cases u <;> rfl
    cases t with
    | punct symbol joint => simp only [List.map_cons, renamed, settle, goesOn, ih]
    | _ => simp only [List.map_cons, renamed, settle, ih]

end Token

/-- The position of the parameter that a mention leads to, by its sort. -/
def GenericNames.place (names : GenericNames) : Mention → Option (Nat ⊕ Nat)
  | .value name => (names.valuePosition name).map .inl
  | .lifetime name => (names.lifetimePosition name).map .inr

/-- The position of the parameter that a piece of a text is. -/
def Piece.place (names : GenericNames) : Piece → Option (Nat ⊕ Nat)
  | token _ => none
  | name m => names.place m

namespace Renaming

/-- A name that stands for a position. -/
def IsPlaceholder (name : String) : Prop :=
  ∃ position, name = positional.value position ∨ name = positional.lifetime position

/-- Takes the names of parameters away. -/
def blank : Renaming :=
  ⟨fun _ => "", fun _ => ""⟩

/-- The name of a position, by its sort. -/
def place (r : Renaming) : Nat ⊕ Nat → String :=
  Sum.elim r.value r.lifetime

/-- A placeholder is spelled with two underscores, the letter of its sort and the digits of its
position. -/
theorem toList_place_positional (place : Nat ⊕ Nat) : ∃ letter position,
    (letter = 'G' ∧ place = .inl position ∨ letter = 'g' ∧ place = .inr position) ∧
      (positional.place place).toList = '_' :: '_' :: letter :: Nat.toDigits 10 position := by
  have digits (position : Nat) : (toString position).toList = Nat.toDigits 10 position :=
    Nat.toList_repr
  cases place with
  | inl position =>
    refine ⟨'G', position, .inl ⟨rfl, rfl⟩, ?_⟩
    rw [← digits]
    exact String.toList_append
  | inr position =>
    refine ⟨'g', position, .inr ⟨rfl, rfl⟩, ?_⟩
    rw [← digits]
    exact String.toList_append

theorem positional_place_injective : Function.Injective positional.place := by
  intro place other same
  obtain ⟨letter, position, sort, chars⟩ := toList_place_positional place
  obtain ⟨letter', position', sort', chars'⟩ := toList_place_positional other
  rw [same, chars'] at chars
  obtain ⟨rfl, digits⟩ := List.cons.inj (List.cons.inj (List.cons.inj chars).2).2
  have positions : position' = position := by
    have value := congrArg (Nat.ofDigitChars 10 · 0) digits
    simpa only [Nat.ofDigitChars_ten_toDigits] using value
  subst positions
  rcases sort with ⟨rfl, rfl⟩ | ⟨rfl, rfl⟩ <;> rcases sort' with ⟨letters, rfl⟩ | ⟨letters, rfl⟩
  · rfl
  · exact absurd letters (by decide)
  · exact absurd letters (by decide)
  · rfl

/-- A placeholder is an identifier like any other. -/
theorem isIdentifier_place_positional (place : Nat ⊕ Nat) :
    IsIdentifier (positional.place place) := by
  obtain ⟨letter, position, sort, chars⟩ := toList_place_positional place
  have starts : Text.isIdentStart '_' = true := by decide
  have continues : Text.isIdentContinue '_' = true := by decide
  have sorts : Text.isIdentContinue letter = true := by
    rcases sort with ⟨rfl, -⟩ | ⟨rfl, -⟩ <;> decide
  have digits : ∀ c ∈ Nat.toDigits 10 position, Text.isIdentContinue c = true := by
    intro c member
    have digit : c.isDigit = true := Nat.isDigit_of_mem_toDigits (by decide) (by decide) member
    exact Literal.isIdentContinue_of_hexValue (if_pos digit)
  constructor
  · rw [Lexer.IsName, chars]
    refine Lexer.word?_eq_some_iff.mpr ⟨_, .cons starts ?_, rfl,
      .inl ⟨(List.append_nil _).symm, rfl, rfl⟩⟩
    simp only [List.forall_mem_cons]
    exact ⟨continues, sorts, digits⟩
  · have apart : ∀ word ∈ Grammar.keywords, word.toList.take 2 ≠ ['_', '_'] := by decide
    rw [Grammar.isIdentifier, Bool.not_eq_true', List.contains_eq_mem, decide_eq_false_iff_not]
    exact fun member => apart _ member (by rw [chars]; rfl)

theorem isPlaceholder_iff {name : String} :
    IsPlaceholder name ↔ ∃ place, positional.place place = name := by
  simp only [IsPlaceholder, Sum.exists, ← exists_or, place, Sum.elim_inl, Sum.elim_inr, eq_comm]

/-- Placeholders begin alike. -/
theorem IsPlaceholder.begins {name : String} (placeholder : IsPlaceholder name) :
    name.toList.take 2 = ['_', '_'] := by
  obtain ⟨place, rfl⟩ := isPlaceholder_iff.mp placeholder
  obtain ⟨letter, position, -, chars⟩ := toList_place_positional place
  rw [chars]
  rfl

/-- Gives placeholders the names of their positions. -/
noncomputable def decoded (r : Renaming) : String → String :=
  Function.extend positional.place r.place id

theorem decoded_place (r : Renaming) (place : Nat ⊕ Nat) :
    r.decoded (positional.place place) = r.place place :=
  positional_place_injective.extend_apply _ _ _

theorem decoded_of_not_isPlaceholder (r : Renaming) {name : String}
    (apart : ¬ IsPlaceholder name) : r.decoded name = name :=
  Function.extend_apply' _ _ _ fun found => apart (isPlaceholder_iff.mpr found)

theorem ofMention_eq (r : Renaming) (names : GenericNames) (m : Mention) :
    r.ofMention names m = ((names.place m).map r.place).getD m.name := by
  cases m with
  | value name =>
    rw [ofMention, ofValue, GenericNames.place]
    cases names.valuePosition name <;> rfl
  | lifetime name =>
    rw [ofMention, ofLifetime, GenericNames.place]
    cases names.lifetimePosition name <;> rfl

/-- The name of a position is found by its placeholder. -/
theorem decoded_ofMention (r : Renaming) {names : GenericNames} {m : Mention}
    (apart : names.place m = none → ¬ IsPlaceholder m.name) :
    r.decoded (positional.ofMention names m) = r.ofMention names m := by
  rw [ofMention_eq, ofMention_eq]
  cases found : names.place m with
  | none => exact r.decoded_of_not_isPlaceholder (apart found)
  | some place => exact r.decoded_place place

theorem keepsWords_positional (names : GenericNames) :
    Mention.KeepsWords (positional.ofMention names) := by
  have each (m : Mention) : positional.ofMention names m = m.name ∨
      IsIdentifier (positional.ofMention names m) := by
    rw [ofMention_eq]
    cases names.place m with
    | none => exact .inl rfl
    | some place => exact .inr (isIdentifier_place_positional place)
  exact ⟨fun name => each (.value name), fun name => (each (.lifetime name)).imp_right And.left⟩

theorem keepsNames_positional (names : GenericNames) :
    Tree.KeepsNames (positional.ofMention names) := by
  intro m named
  cases m with
  | value name =>
    rcases (keepsWords_positional names).values name with same | identifier
    · rwa [same]
    · exact identifier.1
  | lifetime name => exact (keepsWords_positional names).isName named

end Renaming

namespace Tree

open Renaming (IsPlaceholder blank positional)

/-- The tokens of a tree as its text tells them. -/
def settled (tree : Tree) : List Token :=
  Token.settle tree.tokens

/-- Whether nothing in a tree is spelled like a placeholder, its parameters aside. -/
def Unreserved (tree : Tree) (names : GenericNames) : Prop :=
  ∀ name, .ident name ∈ (blank.apply names tree).tokens → ¬ IsPlaceholder name

variable {tree other : Tree} {names names' : GenericNames}

theorem unreserved_of_begins (each : ∀ t ∈ (blank.apply names tree).tokens,
    t.chars.take 2 ≠ ['_', '_']) : tree.Unreserved names :=
  fun _ member placeholder => each _ member placeholder.begins

/-- The position of the parameter that is the token at some place of the text of a tree, if this token
is one. -/
def parameterAt (tree : Tree) (names : GenericNames) (i : Nat) : Option (Nat ⊕ Nat) :=
  tree.pieces[i]?.bind (Piece.place names)

/-- Trees with the same text have the same tokens. -/
theorem render_eq_iff (legible : Token.IsLegible tree.tokens)
    (legible' : Token.IsLegible other.tokens) :
    tree.render = other.render ↔ tree.settled = other.settled := by
  constructor
  · exact fun same => legible.legible.settle_eq legible'.legible (String.ofList_injective same)
  · intro same
    have texts := congrArg Token.renderChars same
    rw [settled, settled, Token.renderChars_settle, Token.renderChars_settle] at texts
    rw [render, render, Token.render, Token.render, texts]

namespace Unreserved

variable (free : tree.Unreserved names)
include free

theorem not_isPlaceholder {m : Mention} (mentioned : .name m ∈ tree.pieces)
    (unbound : names.place m = none) : ¬ IsPlaceholder m.name := by
  refine free m.name ?_
  rw [Renaming.apply_eq_mapNames, tokens_mapNames]
  refine List.mem_map.mpr ⟨_, mentioned, ?_⟩
  rw [Piece.printed, Renaming.ofMention_eq, unbound]
  rfl

theorem not_isPlaceholder_own {name : String} (own : .token (.ident name) ∈ tree.pieces) :
    ¬ IsPlaceholder name := by
  refine free name ?_
  rw [Renaming.apply_eq_mapNames, tokens_mapNames]
  exact List.mem_map.mpr ⟨_, own, rfl⟩

/-- A placeholder in a canonical form is the parameter at its position. -/
theorem place_eq {p : Piece} (member : p ∈ tree.pieces) {place : Nat ⊕ Nat}
    (printed : p.printed (positional.ofMention names) = .ident (positional.place place)) :
    p.place names = some place := by
  have reserved : IsPlaceholder (positional.place place) :=
    Renaming.isPlaceholder_iff.mpr ⟨place, rfl⟩
  cases p with
  | token t =>
    change t = _ at printed
    subst printed
    exact absurd reserved (free.not_isPlaceholder_own member)
  | name m =>
    -- a name that is no parameter's is printed as it is
    have same : positional.ofMention names m = positional.place place := Token.ident.inj printed
    rw [Renaming.ofMention_eq] at same
    cases bound : names.place m with
    | none =>
      rw [bound] at same
      change m.name = _ at same
      exact absurd (same ▸ reserved) (free.not_isPlaceholder member bound)
    | some other =>
      rw [bound] at same
      rw [Piece.place, bound, Renaming.positional_place_injective same]

/-- Under any names the text is that of the canonical form, placeholders replaced. -/
theorem tokens_apply (r : Renaming) : (r.apply names tree).tokens =
    (positional.apply names tree).tokens.map (Token.renamed r.decoded) := by
  rw [Renaming.apply_eq_mapNames, Renaming.apply_eq_mapNames, tokens_mapNames, tokens_mapNames,
    List.map_map]
  refine List.map_congr_left fun p member => ?_
  cases p with
  | token t =>
    cases t with
    | ident name =>
      exact congrArg Token.ident
        (r.decoded_of_not_isPlaceholder (free.not_isPlaceholder_own member)).symm
    | _ => rfl
  | name m =>
    exact congrArg Token.ident (r.decoded_ofMention (free.not_isPlaceholder member)).symm

theorem settled_apply (r : Renaming) : (r.apply names tree).settled =
    (positional.apply names tree).settled.map (Token.renamed r.decoded) := by
  rw [settled, free.tokens_apply, Token.settle_map_renamed, settled]

/-- Where a text has a placeholder, the type has the parameter. -/
theorem parameterAt_of_settled {i : Nat} {place : Nat ⊕ Nat}
    (printed : (positional.apply names tree).settled[i]? = some (.ident (positional.place place))) :
    tree.parameterAt names i = some place := by
  rw [settled, Token.getElem?_settle_ident, Renaming.apply_eq_mapNames, tokens_mapNames,
    List.getElem?_map] at printed
  obtain ⟨p, found, own⟩ := Option.map_eq_some_iff.mp printed
  rw [parameterAt, found]
  exact free.place_eq (List.mem_of_getElem? found) own

/-- Under any names the tree is the canonical one, placeholders replaced. -/
theorem apply_eq (r : Renaming) : r.apply names tree =
    (positional.apply names tree).mapNames fun m => r.decoded m.name := by
  rw [Renaming.apply_eq_mapNames, Renaming.apply_eq_mapNames, mapNames_mapNames, mapNames_eq_iff]
  intro m mentioned
  rw [Mention.name_renamed,
    r.decoded_ofMention (free.not_isPlaceholder (name_mem_pieces mentioned))]

end Unreserved

/-- Every parameter has its placeholder in the canonical form. -/
theorem settled_of_parameterAt {i : Nat} {place : Nat ⊕ Nat}
    (parameter : tree.parameterAt names i = some place) :
    (positional.apply names tree).settled[i]? = some (.ident (positional.place place)) := by
  obtain ⟨p, found, bound⟩ := Option.bind_eq_some_iff.mp parameter
  rw [settled, Token.getElem?_settle_ident, Renaming.apply_eq_mapNames, tokens_mapNames,
    List.getElem?_map, found]
  cases p with
  | token t => cases bound
  | name m =>
    rw [Piece.place] at bound
    rw [Option.map_some, Piece.printed, Renaming.ofMention_eq, bound]
    rfl

/-- Canonical forms with the same tokens have the same parameters at the same places. -/
theorem parameterAt_congr (free : tree.Unreserved names) (free' : other.Unreserved names')
    (same : (positional.apply names tree).settled = (positional.apply names' other).settled)
    (i : Nat) : tree.parameterAt names i = other.parameterAt names' i := by
  refine Option.ext fun place => ⟨fun parameter => ?_, fun parameter => ?_⟩
  · exact free'.parameterAt_of_settled (same ▸ settled_of_parameterAt parameter)
  · exact free.parameterAt_of_settled (same.symm ▸ settled_of_parameterAt parameter)

end Tree

namespace Grammar

open Lexer in
/-- The tree of a type can be told from its text. -/
theorem isLegible_of_parseText {text : String} {tree : Tree}
    (parsed : parseText Grammar.type text = .ok tree) : tree.IsLegible := by
  obtain ⟨lexemes, lexed, parsed⟩ := parseText_eq_ok_iff.mp parsed
  obtain ⟨j, read, -⟩ := Parser.runAll_eq_ok_iff.mp parsed
  have legible : Lexeme.AreLegible lexemes :=
    ⟨(lex_shows lexed).1, (isLexable_of_lex lexed).printable.legible⟩
  let inst := behind lexemes
  exact (triple_iff.mp (Legible.yields (.type true)) _ _ _ (Lexeme.Splits.refl legible) read).2

end Grammar

namespace Tree

open Renaming (positional)

/-- The canonical form of a type in an everyday form is read back. -/
theorem IsPlain.parseText_canonical {t : Tree} (plain : t.IsPlain) (names : GenericNames) :
    Grammar.parseText Grammar.type (t.canonical names) = .ok (positional.apply names t) := by
  rw [canonical, Renaming.apply_eq_mapNames]
  exact (plain.mapNames (Renaming.keepsWords_positional names)).parseText_render

/-- Canonical forms are hygienic where no type spells a placeholder. They are the same exactly if the
same tokens are written for both types whatever the positions of parameters are called. The same
parameters then stand at the same places, so that none compares equal to another name. Where the
forms are read back, they are the same exactly if both types are the same trees whatever the
positions are called. -/
theorem canonical_eq_iff {text text' : String} {names names' : GenericNames} {t t' : Tree}
    (read : Grammar.parseText Grammar.type text = .ok t)
    (read' : Grammar.parseText Grammar.type text' = .ok t')
    (free : t.Unreserved names) (free' : t'.Unreserved names') :
    (t.canonical names = t'.canonical names' ↔
        ∀ r : Renaming, (r.apply names t).settled = (r.apply names' t').settled) ∧
      (t.canonical names = t'.canonical names' →
        ∀ i, t.parameterAt names i = t'.parameterAt names' i) ∧
      (Grammar.parseText Grammar.type (t.canonical names) = .ok (positional.apply names t) →
        Grammar.parseText Grammar.type (t'.canonical names') = .ok (positional.apply names' t') →
          (t.canonical names = t'.canonical names' ↔
            ∀ r : Renaming, r.apply names t = r.apply names' t')) := by
  have legible {text : String} {names : GenericNames} {t : Tree}
      (read : Grammar.parseText Grammar.type text = .ok t) :
      Token.IsLegible (positional.apply names t).tokens := by
    rw [Renaming.apply_eq_mapNames]
    exact (Grammar.isLegible_of_parseText read).tokens (Renaming.keepsNames_positional names)
  have texts : t.canonical names = t'.canonical names' ↔
      (positional.apply names t).settled = (positional.apply names' t').settled :=
    render_eq_iff (legible read) (legible read')
  refine ⟨⟨fun same r => ?_, fun each => texts.mpr (each positional)⟩,
    fun same => parameterAt_congr free free' (texts.mp same), fun reread reread' => ⟨fun same r => ?_, fun each => ?_⟩⟩
  · rw [free.settled_apply, free'.settled_apply, texts.mp same]
  -- one text is read back as both renamed trees, and the names of positions lead from these on
  · rw [same, reread', Except.ok.injEq] at reread
    rw [free.apply_eq, free'.apply_eq, reread]
  · rw [canonical, canonical, each positional]

/-- The type of lists of a named type. -/
def listOf (name : String) : Tree :=
  .path false [.segment "Vec" [.arguments false [.path false [.segment name []]] false]]

/-- The type of borrowed lists of a named type. -/
def borrowedList (lifetime name : String) : Tree :=
  .seq [.operator "&", .lifetime lifetime, listOf name]

theorem isPlain_listOf {name : String} (identifier : IsIdentifier name) : (listOf name).IsPlain := by
  have begins : name ≠ "try" := by
    rintro rfl
    exact absurd identifier (by decide)
  have element : (Tree.path false [.segment name []]).IsPlain :=
    .path false ⟨name, false, [], [], false⟩ [] (fun _ => begins)
      (by simpa using ⟨⟨identifier.1, .inl identifier.2⟩, fun _ => rfl, by simp⟩) (by simp)
  have vec : IsSegment "Vec" := by decide
  exact .path false ⟨"Vec", false, [], [_], false⟩ [] (by simp)
    (by simpa using ⟨vec, by simp, by simp⟩) (by simpa using element)

theorem parseText_listOf {text name : String} (identifier : IsIdentifier name)
    (spelled : text = (listOf name).render) :
    Grammar.parseText Grammar.type text = .ok (listOf name) :=
  spelled ▸ (isPlain_listOf identifier).parseText_render

theorem isPlain_borrowedList {lifetime name : String} (named : Lexer.IsName lifetime)
    (identifier : IsIdentifier name) : (borrowedList lifetime name).IsPlain :=
  .reference (some lifetime) false (by simpa using named) (isPlain_listOf identifier)

theorem parseText_borrowedList {text lifetime name : String} (named : Lexer.IsName lifetime)
    (identifier : IsIdentifier name) (spelled : text = (borrowedList lifetime name).render) :
    Grammar.parseText Grammar.type text = .ok (borrowedList lifetime name) :=
  spelled ▸ (isPlain_borrowedList named identifier).parseText_render

/-- Parameters of other names at the same positions give the same canonical form. -/
theorem canonical_eq_iff_borrowed :
    Grammar.parseText Grammar.type "& 'a Vec < T >" = .ok (borrowedList "a" "T") ∧
      Grammar.parseText Grammar.type "& 'x Vec < U >" = .ok (borrowedList "x" "U") ∧
      (borrowedList "a" "T").canonical ⟨[("T", 1)], [("a", 0)]⟩ = "& '__g0 Vec < __G1 >" ∧
      ∀ r : Renaming, r.apply ⟨[("T", 1)], [("a", 0)]⟩ (borrowedList "a" "T") =
        r.apply ⟨[("U", 1)], [("x", 0)]⟩ (borrowedList "x" "U") := by
  have plain : (borrowedList "a" "T").IsPlain := isPlain_borrowedList (by decide) (by decide)
  have plain' : (borrowedList "x" "U").IsPlain := isPlain_borrowedList (by decide) (by decide)
  have read : Grammar.parseText Grammar.type "& 'a Vec < T >" = .ok (borrowedList "a" "T") :=
    parseText_borrowedList (by decide) (by decide) (by decide +kernel)
  have read' : Grammar.parseText Grammar.type "& 'x Vec < U >" = .ok (borrowedList "x" "U") :=
    parseText_borrowedList (by decide) (by decide) (by decide +kernel)
  have free : (borrowedList "a" "T").Unreserved ⟨[("T", 1)], [("a", 0)]⟩ :=
    unreserved_of_begins (by decide +kernel)
  have free' : (borrowedList "x" "U").Unreserved ⟨[("U", 1)], [("x", 0)]⟩ :=
    unreserved_of_begins (by decide +kernel)
  have same : (borrowedList "a" "T").canonical ⟨[("T", 1)], [("a", 0)]⟩ =
      (borrowedList "x" "U").canonical ⟨[("U", 1)], [("x", 0)]⟩ := by decide +kernel
  exact ⟨read, read', by decide +kernel, ((canonical_eq_iff read read' free free').2.2
    (plain.parseText_canonical _) (plain'.parseText_canonical _)).mp same⟩

/-- A type that spells a placeholder has the canonical form of one with a parameter in its place. -/
theorem canonical_eq_reserved : ∃ t t',
    Grammar.parseText Grammar.type "Vec < T >" = .ok t ∧
      Grammar.parseText Grammar.type "Vec < __G0 >" = .ok t' ∧
      t.canonical ⟨[("T", 0)], []⟩ = t'.canonical .none ∧
      ∃ r : Renaming, (r.apply ⟨[("T", 0)], []⟩ t).settled ≠ (r.apply .none t').settled := by
  have read : Grammar.parseText Grammar.type "Vec < T >" = .ok (listOf "T") :=
    parseText_listOf (by decide) (by decide +kernel)
  have read' : Grammar.parseText Grammar.type "Vec < __G0 >" = .ok (listOf "__G0") :=
    parseText_listOf (by decide) (by decide +kernel)
  exact ⟨_, _, read, read', by decide +kernel, ⟨fun _ => "T", fun _ => "a"⟩, by decide +kernel⟩

end Tree

end Forwarding
