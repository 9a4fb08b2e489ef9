import Forwarding.Proofs.PlainTypes
import Forwarding.Proofs.Rereading
import Mathlib.Data.List.Forall2
/-!
Types read back. What is printed of a type in an everyday form parses, and gives the type back. The
readers are followed along the tokens of the type up to what may stand after it.
-/

namespace Forwarding

/-- Whether no operator goes on after a token. -/
def Token.isSingle : Token → Bool
  | punct _ joint => !joint
  | _ => true

namespace Grammar

open Lexeme

/-- Tokens of which the first one, if there is one, is among some others. -/
def Begins (listed : List Token) (tokens : List Token) : Prop :=
  ∀ t, tokens.head? = some t → t ∈ listed

theorem Begins.noOperator {listed tokens : List Token} {symbols : String}
    (begins : Begins listed tokens)
    (none : ∀ t ∈ listed, t.isSingle = true ∧ ahead [t] (.operator symbols) = false) :
    ahead tokens (.operator symbols) = false := by
  cases tokens with
  | nil =>
    simp only [ahead, sees, leaves, List.map_nil]
    rcases symbols.toList with _ | ⟨c, _ | ⟨d, others⟩⟩ <;> rfl
  | cons t more =>
    obtain ⟨single, absent⟩ := none t (begins t rfl)
    cases t with
    | punct symbol joint =>
      cases joint with
      | true => cases single
      | false =>
        simp only [ahead, sees, leaves, List.map_cons] at absent ⊢
        rcases split : symbols.toList with _ | ⟨c, _ | ⟨d, others⟩⟩
        · rfl
        · simpa [split, dropOperator] using absent
        · simp [dropOperator]
    | _ =>
      simp only [ahead, sees, leaves, List.map_cons]
      rcases symbols.toList with _ | ⟨c, _ | ⟨d, others⟩⟩ <;> rfl

theorem Begins.mono {listed others tokens : List Token} (begins : Begins listed tokens)
    (more : listed ⊆ others) : Begins others tokens :=
  fun t first => more (begins t first)

/-- What may stand after a generic argument. -/
def argumentEnds : List Token :=
  [.punct ',' false, .punct '>' false]

/-- What may stand after a type. -/
def typeEnds : List Token :=
  .punct ':' false :: .ident "where" :: .ident "for" :: .opening .brace :: argumentEnds

/-- What may stand after a path. -/
def pathEnds : List Token :=
  .punct '+' false :: typeEnds

section
variable {first : Token} {rest : List Token}

theorem ahead_word_of_startsType (starts : first.StartsType) (word : String)
    (keyword : word ∈ keywords) (noSegment : word ∉ segmentNames) :
    ahead (first :: rest) (.word word) = false := by
  cases first with
  | ident name =>
    have other := IsSegment.ne_of_keyword starts word keyword noSegment
    simp [ahead, sees, leaves, other]
  | _ => rfl

theorem ahead_lifetime_of_startsType (starts : first.StartsType) :
    ahead (first :: rest) .lifetime = false := by
  cases first with
  | punct symbol joint =>
    have each : ∀ c ∈ [':', '&', '*', '!'], c ≠ Token.apostrophe := by decide
    have noMark := each symbol starts
    cases joint with
    | false => rfl
    | true =>
      rcases rest with _ | ⟨_ | _, rest⟩ <;> simp [ahead, sees, leaves, dropLifetime, noMark]
  | _ => rfl

theorem ahead_literal_of_startsType (starts : first.StartsType) :
    ahead (first :: rest) .literal = false := by
  cases first with
  | ident name =>
    have noTrue := IsSegment.ne_of_keyword starts "true" (by decide) (by decide)
    have noFalse := IsSegment.ne_of_keyword starts "false" (by decide) (by decide)
    simp [ahead, sees, leaves, dropLiteral, noTrue, noFalse]
  | punct symbol joint =>
    have each : ∀ c ∈ [':', '&', '*', '!'], c ≠ '-' := by decide
    have noMinus := each symbol starts
    rcases rest with _ | ⟨_ | _, rest⟩ <;> simp [ahead, sees, leaves, dropLiteral, noMinus]
  | literal text => cases starts
  | opening delimiter => rfl
  | closing delimiter => rfl

theorem ahead_brace_of_startsType (starts : first.StartsType) :
    ahead (first :: rest) (.group .brace) = false := by
  cases first with
  | opening delimiter =>
    have noBrace : delimiter ≠ .brace := starts
    simp [ahead, noBrace]
  | _ => rfl

theorem ahead_operator_of_startsType (starts : first.StartsType) (symbols : String)
    (others : ∀ c ∈ symbols.toList, c ∉ [':', '&', '*', '!']) :
    ahead (first :: rest) (.operator symbols) = false := by
  cases first with
  | punct symbol joint =>
    simp only [ahead, sees, leaves, List.map_cons]
    rcases split : symbols.toList with _ | ⟨c, _ | ⟨d, more⟩⟩
    · rfl
    all_goals
      have other : symbol ≠ c := by
        rintro rfl
        exact others symbol (by simp [split]) starts
      simp [dropOperator, other]
  | _ =>
    simp only [ahead, sees, leaves, List.map_cons]
    rcases symbols.toList with _ | ⟨c, _ | ⟨d, more⟩⟩ <;> rfl

end

namespace Parser

variable {g : Grammar} {after : List Token}

/-- The words that begin the type of a function. -/
abbrev functionWords : List Expectation :=
  [.word "fn", .word "unsafe", .word "extern"]

/-- What begins a type that is a path. -/
abbrev pathBeginnings : List Expectation :=
  .identifier :: .operator "::" :: .operator "<" :: typePathWords

/-- A grammar reads a printed type back. -/
def Rereads (g : Grammar) (t : Tree) : Prop :=
  ∀ plus after, Begins typeEnds after → Takes (g.parse (.type plus)) (t.tokens ++ after) t after

theorem takes_genericArgument_lifetime (name : String) (ends : Begins argumentEnds after) :
    Takes (genericArgument g) (Token.lifetime name ++ after) (.lifetime name) after := by
  have lifetime : ahead (Token.lifetime name ++ after) .lifetime = true := rfl
  have noPlus : ahead after (.operator "+") = false :=
    ends.noOperator (by decide)
  unfold genericArgument
  rw [(tests_peek .lifetime).takes_bind, lifetime, takes_peek2_lifetime_bind, noPlus, Bool.not_false,
    Bool.and_self, if_pos rfl]
  exact (takes_lifetime name).bind (takes_pure _)

theorem takes_genericArgument {t : Tree} (plain : t.IsPlain) (rereads : Rereads g t)
    (ends : Begins argumentEnds after) :
    Takes (genericArgument g) (t.tokens ++ after) t after := by
  obtain ⟨first, rest, same, starts⟩ := plain.startsType
  have noLifetime : ahead (t.tokens ++ after) .lifetime = false := by
    rw [same]
    exact ahead_lifetime_of_startsType starts
  have noConstant : [Expectation.literal, .group .brace].any (ahead (t.tokens ++ after)) = false := by
    rw [same]
    simp only [List.any_cons, List.any_nil, List.cons_append, ahead_literal_of_startsType starts,
      ahead_brace_of_startsType starts, Bool.or_self]
  have noEquals : ahead after (.operator "=") = false :=
    ends.noOperator (by decide)
  have noColon : ahead after (.operator ":") = false :=
    ends.noOperator (by decide)
  unfold genericArgument
  rw [(tests_peek .lifetime).takes_bind, noLifetime]
  refine takes_peek2_bind fun flag => ?_
  rw [Bool.false_and, if_neg Bool.false_ne_true, (tests_peekAny _).takes_bind, noConstant,
    if_neg Bool.false_ne_true]
  refine (rereads true after (ends.mono (by decide))).bind ?_
  split
  · rw [(tests_seesOperator "=").takes_bind, noEquals, if_neg Bool.false_ne_true,
      (tests_seesOperator ":").takes_bind, noColon]
    exact takes_pure _
  · exact takes_pure _

theorem takes_genericArguments {s : Segment} (some : s.items ≠ []) (named : s.IsNamed)
    (types : ∀ t ∈ s.types, t.IsPlain ∧ Rereads g t) (after : List Token) :
    Takes (genericArguments g) ((if s.turbofish then Token.operator "::" else []) ++
      (Token.operator "<" ++ (Token.separated "," s.trailing (s.items.map Tree.tokens)
        ++ (Token.operator ">" ++ after)))) (.arguments s.turbofish s.items s.trailing) after := by
  have each : List.Forall₂ (fun part value => ∀ rest, rest = Token.operator ">" ++ after ∨
      (∃ more, rest = Token.operator "," ++ more) →
        ahead (part ++ rest) (.operator ">") = false ∧
          Takes (genericArgument g) (part ++ rest) value rest) (s.items.map Tree.tokens) s.items := by
    refine List.forall₂_map_left_iff.mpr (List.forall₂_same.mpr fun t member rest follows => ?_)
    have ends : Begins argumentEnds rest := by
      rcases follows with rfl | ⟨more, rfl⟩
      all_goals
        rintro t first
        cases first
        decide
    rcases List.mem_append.mp member with inLifetimes | inTypes
    · obtain ⟨name, -, rfl⟩ := List.mem_map.mp inLifetimes
      exact ⟨rfl, takes_genericArgument_lifetime name ends⟩
    · obtain ⟨plain, rereads⟩ := types t inTypes
      obtain ⟨first, others, same, starts⟩ := plain.startsType
      refine ⟨?_, takes_genericArgument plain rereads ends⟩
      rw [same]
      exact ahead_operator_of_startsType starts ">" (by decide)
  have parted : ∀ part ∈ s.items.map Tree.tokens, IsMatched part ∧ part ≠ [] := by
    intro part member
    obtain ⟨t, listed, rfl⟩ := List.mem_map.mp member
    rcases List.mem_append.mp listed with inLifetimes | inTypes
    · obtain ⟨name, given, rfl⟩ := List.mem_map.mp inLifetimes
      exact ⟨(Token.IsLexable.lifetime (named.lifetimes name given)).matched, List.cons_ne_nil _ _⟩
    · obtain ⟨plain, -⟩ := types t inTypes
      obtain ⟨first, others, same, -⟩ := plain.startsType
      exact ⟨plain.isLexable.matched, same ▸ List.cons_ne_nil _ _⟩
  unfold genericArguments
  have colons : ∃ found : Option Tree, found.isSome = s.turbofish ∧ ∀ more,
      Takes (operator? "::") ((if s.turbofish then Token.operator "::" else []) ++
        (Token.operator "<" ++ more)) found (Token.operator "<" ++ more) := by
    cases s.turbofish with
    | true => exact ⟨_, rfl, fun more => takes_operator?_some (by decide) (by decide)⟩
    | false => exact ⟨_, rfl, fun more => takes_operator?_none rfl⟩
  obtain ⟨found, same, colons⟩ := colons
  refine (colons _).bind ((takes_operator (by decide) (by decide)).bind ?_)
  refine (takes_punctuated (by decide) (by decide) (tests_seesOperator ">") each rfl (fun _ => rfl)
    (.inl (by simpa using some)) (isMatched_of_noBracket (by decide)) parted).bind ?_
  refine (takes_operator (by decide) (by decide)).bind ?_
  rw [same]
  exact takes_pure _

/-- What may stand after a segment: the end of the path, or another segment. -/
def FollowsSegment (tokens : List Token) : Prop :=
  Begins pathEnds tokens ∨ ∃ name more, tokens = Token.operator "::" ++ .ident name :: more

theorem takes_name_bind {β : Type} {name : String} {middle : List Token}
    (allowed : name ≠ "Self" → isIdentifier name = true) {f : String → Parser β} {b : β}
    (next : Takes (f name) middle b after) :
    Takes (if (name == "Self") = true then anyWord >>= f else identifier >>= f)
      (.ident name :: middle) b after := by
  split
  · exact (takes_anyWord name).bind next
  · rename_i other
    exact (takes_identifier (allowed (by simpa using other))).bind next

theorem takes_segment {s : Segment} (named : s.IsNamed)
    (types : ∀ t ∈ s.types, t.IsPlain ∧ Rereads g t) (follows : FollowsSegment after) :
    Takes (segment g false) (s.tree.tokens ++ after) s.tree after := by
  have tokens := s.tokens_tree fun t member => (types t member).1.isLifetime
  have bare : segmentWords.any (ahead (s.tree.tokens ++ after)) = true ↔
      s.name ∈ ["super", "self", "crate", "try"] := by
    rw [tokens]
    simp [segmentWords, ahead, sees, leaves]
  unfold segment
  rw [(tests_peekAny _).takes_bind]
  split
  · rename_i word
    have none := named.bare (bare.mp word)
    have tree : s.tree = .segment s.name [] := by rw [Segment.tree, none]; rfl
    rw [tokens, none, tree]
    exact (takes_anyWord s.name).bind (takes_pure _)
  · rename_i noWord
    rw [bare] at noWord
    have allowed : s.name ≠ "Self" → isIdentifier s.name = true := by
      intro other
      refine named.name.2.resolve_right fun listed => noWord ?_
      simpa [segmentNames, other] using listed
    have self : ahead (s.tree.tokens ++ after) (.word "Self") = (s.name == "Self") := by
      rw [tokens]
      rfl
    rw [(tests_seesWord "Self").takes_bind, self, tokens, List.cons_append]
    refine takes_name_bind allowed ?_
    rw [(tests_seesOperator "<").takes_bind, (tests_seesOperator "<=").takes_bind,
      (tests_seesOperator "::").takes_bind]
    by_cases none : s.items = []
    · have tree : s.tree = .segment s.name [] := by rw [Segment.tree, none]; rfl
      rw [none, tree, List.isEmpty_nil, if_pos rfl, List.nil_append]
      rcases follows with ends | ⟨name, more, rfl⟩
      · have noLess : ahead after (.operator "<") = false :=
          ends.noOperator (by decide)
        have noColons : ahead after (.operator "::") = false :=
          ends.noOperator (by decide)
        refine takes_peek3_bind fun flag => ?_
        simp only [noLess, noColons, Bool.and_false, Bool.false_and, Bool.or_self,
          Bool.false_eq_true, if_false]
        exact takes_pure _
      · rw [takes_peek3_colons_bind]
        exact takes_pure _
    · have tree : s.tree = .segment s.name [.arguments s.turbofish s.items s.trailing] := by
        rw [Segment.tree, if_neg (by simpa using none)]
      have arguments := takes_genericArguments none named types after
      rw [if_neg (by simpa using none), tree]
      cases turbofish : s.turbofish with
      | true =>
        rw [turbofish, if_pos rfl] at arguments
        rw [if_pos rfl]
        simp only [List.append_assoc] at arguments ⊢
        rw [takes_peek3_colons_bind]
        exact arguments.bind (takes_pure _)
      | false =>
        rw [turbofish] at arguments
        refine takes_peek3_bind fun flag => ?_
        simp only [Bool.false_eq_true, if_false, List.nil_append, List.append_assoc] at arguments ⊢
        exact arguments.bind (takes_pure _)

/-- The tokens of the segments after the first one. -/
def tailTokens (segments : List Tree) : List Token :=
  if segments.isEmpty then [] else
    Token.operator "::" ++ Token.separated "::" false (segments.map Tree.tokens)

theorem separated_cons (segment : Tree) (segments : List Tree) :
    Token.separated "::" false ((segment :: segments).map Tree.tokens) =
      segment.tokens ++ tailTokens segments := by
  rw [List.map_cons, Token.separated, tailTokens, List.isEmpty_map, Bool.not_false, Bool.and_true]

theorem followsSegment_tailTokens (segments : List Segment) (ends : Begins pathEnds after) :
    FollowsSegment (tailTokens (segments.map Segment.tree) ++ after) := by
  cases segments with
  | nil => exact .inl ends
  | cons s more =>
    have own : ∃ rest, s.tree.tokens = .ident s.name :: rest := by
      rw [Segment.tree, Tree.tokens]
      exact ⟨_, rfl⟩
    obtain ⟨rest, own⟩ := own
    rw [List.map_cons, tailTokens, List.isEmpty_cons, if_neg Bool.false_ne_true, separated_cons, own,
      List.append_assoc, List.append_assoc]
    exact .inr ⟨_, _, rfl⟩

/-- Every segment takes up at least one lexeme. -/
theorem length_le_tailTokens {segments : List Tree}
    (parted : ∀ part ∈ segments.map Tree.tokens, IsMatched part ∧ part ≠ []) {lexemes : List Lexeme}
    (shown : Shows lexemes (tailTokens segments ++ after)) : segments.length ≤ lexemes.length := by
  rw [tailTokens] at shown
  split at shown
  · rename_i none
    rw [List.isEmpty_iff.mp none]
    exact Nat.zero_le _
  · rw [List.append_assoc] at shown
    obtain ⟨colons, rest, rfl, -, later⟩ :=
      shown.exists_append (isMatched_of_noBracket (by decide))
    have := Shows.length_le (isMatched_of_noBracket (by decide)) parted later
    rw [List.length_map] at this
    rw [List.length_append]
    omega

theorem takes_moreSegments {segments : List Segment} (named : ∀ s ∈ segments, s.IsNamed)
    (types : ∀ s ∈ segments, ∀ t ∈ s.types, t.IsPlain ∧ Rereads g t)
    (ends : Begins pathEnds after) :
    Takes (moreSegments g false) (tailTokens (segments.map Segment.tree) ++ after)
      (segments.map Segment.tree) after := by
  refine takes_get_bind fun i shown => ?_
  have parted : ∀ part ∈ (segments.map Segment.tree).map Tree.tokens, IsMatched part ∧ part ≠ [] := by
    simp only [List.mem_map, exists_exists_and_eq_and]
    rintro _ ⟨s, member, rfl⟩
    have lexable := (named s member).isLexable fun t inside =>
      ⟨(types s member t inside).1.isLifetime, (types s member t inside).1.isLexable⟩
    refine ⟨lexable.matched, ?_⟩
    rw [Segment.tree, Tree.tokens]
    exact List.cons_ne_nil _ _
  have enough := Nat.lt_succ_of_le (length_le_tailTokens parted shown)
  rw [List.length_map, Nat.succ_eq_add_one] at enough
  clear shown parted
  generalize i.rest.length + 1 = count at enough
  induction segments generalizing count with
  | nil =>
    obtain ⟨count, rfl⟩ : ∃ n, count = n + 1 := ⟨count - 1, by omega⟩
    rw [repeatUpTo]
    have noColons : ahead after (.operator "::") = false :=
      ends.noOperator (by decide)
    refine Takes.bind (a := none) ?_ (takes_pure _)
    rw [List.map_nil, tailTokens, List.isEmpty_nil, if_pos rfl, List.nil_append,
      (tests_seesOperator "::").takes_bind, noColons]
    exact takes_peek3_bind fun flag => takes_pure _
  | cons s more ih =>
    obtain ⟨count, rfl⟩ : ∃ n, count = n + 1 := ⟨count - 1, by omega⟩
    rw [repeatUpTo]
    have follows := followsSegment_tailTokens more ends
    have own := takes_segment (named s List.mem_cons_self) (types s List.mem_cons_self) follows
    have noGroup : ahead (s.tree.tokens ++ (tailTokens (more.map Segment.tree) ++ after))
        (.group .parenthesis) = false := by
      rw [Segment.tree, Tree.tokens]
      rfl
    refine Takes.bind (a := some s.tree) ?_ ((ih
      (fun s member => named s (List.mem_cons_of_mem _ member))
      (fun s member => types s (List.mem_cons_of_mem _ member)) count (by simpa using enough)).bind
        (takes_pure _))
    rw [List.map_cons, tailTokens, List.isEmpty_cons, if_neg Bool.false_ne_true, separated_cons,
      List.append_assoc, List.append_assoc, (tests_seesOperator "::").takes_bind,
      takes_peek3_colons_bind, noGroup]
    exact (takes_operator (by decide) (by decide)).bind own.map

theorem exists_tokens_path (isGlobal : Bool) (first : Segment) (more : List Segment)
    (after : List Token) :
    ∃ rest, (Tree.path isGlobal ((first :: more).map Segment.tree)).tokens ++ after =
      (if isGlobal then Token.operator "::" else []) ++ .ident first.name :: rest := by
  rw [Tree.tokens_path, List.map_cons, separated_cons, Segment.tree, Tree.tokens, List.append_assoc]
  exact ⟨_, rfl⟩

theorem takes_path (isGlobal : Bool) {first : Segment} {more : List Segment}
    (named : ∀ s ∈ first :: more, s.IsNamed)
    (types : ∀ s ∈ first :: more, ∀ t ∈ s.types, t.IsPlain ∧ Rereads g t)
    (ends : Begins pathEnds after) :
    Takes (path g false)
      ((Tree.path isGlobal ((first :: more).map Segment.tree)).tokens ++ after)
      (.path isGlobal ((first :: more).map Segment.tree)) after := by
  unfold path
  rw [Tree.tokens_path, List.map_cons, separated_cons, List.append_assoc, List.append_assoc]
  have colons : ∃ found : Option Tree, found.isSome = isGlobal ∧ 
      Takes (operator? "::") ((if isGlobal then Token.operator "::" else []) ++
        (first.tree.tokens ++ (tailTokens (more.map Segment.tree) ++ after))) found
          (first.tree.tokens ++ (tailTokens (more.map Segment.tree) ++ after)) := by
    cases isGlobal with
    | true => exact ⟨_, rfl, takes_operator?_some (by decide) (by decide)⟩
    | false =>
      refine ⟨_, rfl, takes_operator?_none ?_⟩
      rw [Segment.tree, Tree.tokens]
      rfl
  obtain ⟨found, same, colons⟩ := colons
  refine colons.bind ((takes_segment (named first List.mem_cons_self) (types first List.mem_cons_self)
    (followsSegment_tailTokens more ends)).bind ?_)
  rw [same]
  exact (takes_moreSegments (fun s member => named s (List.mem_cons_of_mem _ member))
    (fun s member => types s (List.mem_cons_of_mem _ member)) ends).bind (takes_pure _)

theorem takes_binder?_none {tokens : List Token} (absent : ahead tokens (.word "for") = false) :
    Takes (binder? g) tokens none tokens := by
  unfold binder?
  rw [(tests_seesWord "for").takes_bind, absent]
  exact takes_pure _

theorem takes_pathType (plus isGlobal : Bool) {first : Segment} {more : List Segment}
    (named : ∀ s ∈ first :: more, s.IsNamed)
    (types : ∀ s ∈ first :: more, ∀ t ∈ s.types, t.IsPlain ∧ Rereads g t)
    (ends : Begins typeEnds after) :
    Takes (pathType g plus none)
      ((Tree.path isGlobal ((first :: more).map Segment.tree)).tokens ++ after)
      (.path isGlobal ((first :: more).map Segment.tree)) after := by
  have noLess : ahead ((Tree.path isGlobal ((first :: more).map Segment.tree)).tokens ++ after)
      (.operator "<") = false := by
    rw [Tree.tokens_path, List.map_cons, separated_cons, Segment.tree, Tree.tokens]
    cases isGlobal <;> rfl
  have noBang : ahead after (.operator "!") = false :=
    ends.noOperator (by decide)
  have noPlus : ahead after (.operator "+") = false :=
    ends.noOperator (by decide)
  unfold pathType qualifiedPath
  simp only [takes_seesOperator_bind, bind_assoc, noLess, Bool.not_false, if_true]
  refine (takes_path isGlobal named types (ends.mono (by decide))).bind ?_
  simp only [takes_seesOperator_bind, noBang, noPlus, Bool.false_and, Bool.and_false,
    Option.isSome_none, Bool.or_self, Bool.false_eq_true, if_false]
  exact takes_pure _

theorem takes_typeOf_path (plus isGlobal : Bool) {first : Segment} {more : List Segment}
    (begins : isGlobal = false → first.name ≠ "try") (named : ∀ s ∈ first :: more, s.IsNamed)
    (types : ∀ s ∈ first :: more, ∀ t ∈ s.types, t.IsPlain ∧ Rereads g t)
    (ends : Begins typeEnds after) :
    Takes (typeOf g plus) ((Tree.path isGlobal ((first :: more).map Segment.tree)).tokens ++ after)
      (.path isGlobal ((first :: more).map Segment.tree)) after := by
  have read := takes_pathType plus isGlobal named types ends
  obtain ⟨rest, start⟩ := exists_tokens_path isGlobal first more after
  have tests (tokens : List Token)
      (same : tokens = (if isGlobal then Token.operator "::" else []) ++ .ident first.name :: rest) :
      ahead tokens (.word "for") = false ∧ ahead tokens (.group .parenthesis) = false ∧
        [Expectation.word "fn", .word "unsafe", .word "extern"].any (ahead tokens) = false ∧
        (Expectation.identifier :: .operator "::" :: .operator "<" :: typePathWords).any
          (ahead tokens) = true := by
    subst same
    have segment := (named first List.mem_cons_self).name
    have noKeyword := segment.ne_of_keyword
    cases isGlobal with
    | true => exact ⟨rfl, rfl, rfl, rfl⟩
    | false =>
      refine ⟨?_, rfl, ?_, ?_⟩
      · simp [ahead, sees, leaves, noKeyword "for" (by decide) (by decide)]
      · simp [ahead, sees, leaves, noKeyword "fn" (by decide) (by decide),
          noKeyword "unsafe" (by decide) (by decide), noKeyword "extern" (by decide) (by decide)]
      · rcases segment.2 with allowed | listed
        · simp [ahead, sees, leaves, allowed]
        · have := begins rfl
          simp_all [ahead, sees, leaves, typePathWords, segmentNames]
  obtain ⟨noFor, noGroup, noFunction, path⟩ := tests _ rfl
  unfold typeOf
  refine takes_place_bind fun position => ?_
  rw [start] at read ⊢
  refine (takes_binder?_none noFor).bind ?_
  simp only [takes_peek_bind, takes_peekAny_bind, noGroup, noFunction, path, Bool.and_false,
    Option.isSome_none, Bool.false_eq_true, if_false, if_true]
  exact read

theorem takes_bracketedType {t : Tree} (plain : t.IsPlain) (rereads : Rereads g t)
    (after : List Token) :
    Takes (bracketedType g) (.opening .bracket :: (t.tokens ++ .closing .bracket :: after))
      (.group .bracket [t]) after := by
  have read := rereads true [] (by rintro t first; cases first)
  rw [List.append_nil] at read
  unfold bracketedType groupedTree
  refine (takes_grouped (a := [t]) ?_ plain.isLexable.matched).bind (takes_pure _)
  refine read.bind ?_
  rw [takes_seesOperator_bind]
  exact takes_pure _

theorem takes_parenthesizedType_unit (plus : Bool) :
    Takes (parenthesizedType g plus) (.opening .parenthesis :: .closing .parenthesis :: after)
      (.group .parenthesis []) after := by
  have content : Takes (parenthesizedType.content g) [] ([], .complete) [] := by
    unfold parenthesizedType.content
    rw [tests_atEnd.takes_bind]
    exact takes_pure _
  exact (takes_grouped content ⟨_, .nil⟩).bind (takes_pure _)

theorem takes_commaList {trees : List Tree} (trailing : Bool)
    (each : ∀ t ∈ trees, t.IsPlain ∧ Rereads g t) :
    Takes (commaList g.type) (Token.separated "," trailing (trees.map Tree.tokens))
      (join "," trees trailing) [] := by
  have parted : ∀ part ∈ trees.map Tree.tokens, IsMatched part ∧ part ≠ [] := by
    intro part member
    obtain ⟨t, listed, rfl⟩ := List.mem_map.mp member
    obtain ⟨plain, -⟩ := each t listed
    obtain ⟨first, others, same, -⟩ := plain.startsType
    exact ⟨plain.isLexable.matched, same ▸ List.cons_ne_nil _ _⟩
  have elements : List.Forall₂ (fun part value => ∀ rest, rest = [] ∨
      (∃ more, rest = Token.operator "," ++ more) →
        (part ++ rest).isEmpty = false ∧ Takes g.type (part ++ rest) value rest)
      (trees.map Tree.tokens) trees := by
    refine List.forall₂_map_left_iff.mpr (List.forall₂_same.mpr fun t member rest follows => ?_)
    obtain ⟨plain, rereads⟩ := each t member
    have filled := (parted _ (List.mem_map_of_mem member)).2
    refine ⟨by simp [filled], rereads true rest ?_⟩
    rcases follows with rfl | ⟨more, rfl⟩
    all_goals
      rintro t first
      cases first
    decide
  -- a list without elements counts as one that ends with a comma
  have counted : ∃ flag, join "," trees flag = join "," trees trailing ∧
      Token.separated "," flag (trees.map Tree.tokens) =
        Token.separated "," trailing (trees.map Tree.tokens) ∧
      (trees.map Tree.tokens ≠ [] ∨ flag = true) := by
    cases trees with
    | nil => exact ⟨true, by simp [join], rfl, .inr rfl⟩
    | cons t rest => exact ⟨trailing, rfl, rfl, .inl (List.cons_ne_nil _ _)⟩
  obtain ⟨flag, sameTrees, sameTokens, filled⟩ := counted
  have read := takes_punctuated (by decide) (by decide) tests_atEnd elements rfl (fun _ => rfl)
    filled (isMatched_of_noBracket (by decide)) parted
  rw [List.append_nil, sameTokens] at read
  rw [← sameTrees]
  exact read.bind (takes_pure _)

theorem takes_parenthesizedType_tuple (plus : Bool) {first : Tree} {more : List Tree}
    {trailing : Bool} (each : ∀ t ∈ first :: more, t.IsPlain ∧ Rereads g t) :
    Takes (parenthesizedType g plus) (.opening .parenthesis :: (first.tokens ++ (Token.operator "," ++
        Token.separated "," trailing (more.map Tree.tokens)) ++ .closing .parenthesis :: after))
      (.group .parenthesis (first :: .operator "," :: join "," more trailing)) after := by
  obtain ⟨plain, rereads⟩ := each first List.mem_cons_self
  obtain ⟨start, rest, same, starts⟩ := plain.startsType
  have others := takes_commaList trailing fun t member => each t (List.mem_cons_of_mem _ member)
  have lexable : Token.IsLexable (first.tokens ++ (Token.operator "," ++
      Token.separated "," trailing (more.map Tree.tokens))) := by
    refine plain.isLexable.append (.append (.operator "," (by decide))
      (.separated _ (.operator "," (by decide)) ?_))
    simp only [List.mem_map]
    rintro _ ⟨t, member, rfl⟩
    exact (each t (List.mem_cons_of_mem _ member)).1.isLexable
  have content : Takes (parenthesizedType.content g) (first.tokens ++ (Token.operator "," ++
      Token.separated "," trailing (more.map Tree.tokens)))
      (first :: .operator "," :: join "," more trailing, .complete) [] := by
    have ends : Begins typeEnds (Token.operator "," ++
        Token.separated "," trailing (more.map Tree.tokens)) := by
      rintro t first
      cases first
      decide
    have read := rereads true _ ends
    have comma (tokens : List Token) : ahead (Token.operator "," ++ tokens) (.operator ",") = true :=
      rfl
    unfold parenthesizedType.content
    rw [same] at read ⊢
    rw [tests_atEnd.takes_bind, List.cons_append, List.isEmpty_cons, if_neg Bool.false_ne_true,
      takes_peek_bind, ahead_lifetime_of_startsType starts, if_neg Bool.false_ne_true,
      takes_seesOperator_bind, ahead_operator_of_startsType starts "?" (by decide),
      if_neg Bool.false_ne_true]
    refine read.bind ?_
    rw [takes_seesOperator_bind, comma]
    exact (takes_operator (by decide) (by decide)).bind (others.bind (takes_pure _))
  exact (takes_grouped content lexable.matched).bind (takes_pure _)

theorem takes_typeOf_group (plus : Bool) {t : Tree} {rest : List Token}
    (read : Takes (parenthesizedType g plus) (.opening .parenthesis :: rest) t after) :
    Takes (typeOf g plus) (.opening .parenthesis :: rest) t after := by
  unfold typeOf
  refine takes_place_bind fun position => (takes_binder?_none rfl).bind ?_
  rw [Option.isSome_none, if_neg Bool.false_ne_true]
  dsimp only
  rw [takes_peek_bind]
  exact read

theorem takes_typeOf_slice (plus : Bool) {t : Tree} (plain : t.IsPlain) (rereads : Rereads g t) :
    Takes (typeOf g plus) (.opening .bracket :: (t.tokens ++ .closing .bracket :: after))
      (.group .bracket [t]) after := by
  have read := takes_bracketedType plain rereads after
  generalize rest : Token.opening .bracket :: (t.tokens ++ .closing .bracket :: after) = tokens
    at read ⊢
  have noGroup : ahead tokens (.group .parenthesis) = false := by rw [← rest]; rfl
  have noFunction : functionWords.any (ahead tokens) = false := by rw [← rest]; rfl
  have noPath : pathBeginnings.any (ahead tokens) = false := by rw [← rest]; rfl
  have noDyn : ahead tokens (.word "dyn") = false := by rw [← rest]; rfl
  have bracket : ahead tokens (.group .bracket) = true := by rw [← rest]; rfl
  have noFor : ahead tokens (.word "for") = false := by rw [← rest]; rfl
  unfold typeOf
  refine takes_place_bind fun position => (takes_binder?_none noFor).bind ?_
  simp only [takes_peek_bind, takes_peekAny_bind, takes_seesWord_bind, noGroup, noFunction, noPath,
    noDyn, bracket, Bool.and_false, Option.isSome_none, Bool.false_eq_true, if_false, if_true]
  exact read

/-- What is no type of another kind begins with an operator. -/
structure BeginsWithOperator (tokens : List Token) : Prop where
  noFor : ahead tokens (.word "for") = false
  noGroup : ahead tokens (.group .parenthesis) = false
  noFunction : functionWords.any (ahead tokens) = false
  noPath : pathBeginnings.any (ahead tokens) = false
  noDyn : ahead tokens (.word "dyn") = false
  noBracket : ahead tokens (.group .bracket) = false

theorem beginsWithOperator {symbol : Char} (listed : symbol ∈ ['&', '*', '!'])
    (rest : List Token) : BeginsWithOperator (.punct symbol false :: rest) := by
  simp only [List.mem_cons, List.not_mem_nil, or_false] at listed
  rcases listed with rfl | rfl | rfl <;> exact ⟨rfl, rfl, rfl, rfl, rfl, rfl⟩

theorem takes_typeOf_pointer (plus mutable : Bool) {t : Tree} (rereads : Rereads g t)
    (ends : Begins typeEnds after) :
    Takes (typeOf g plus)
      (.punct '*' false :: .ident (if mutable then "mut" else "const") :: (t.tokens ++ after))
      (.seq [.operator "*", .word (if mutable then "mut" else "const"), t]) after := by
  have read := rereads false after ends
  generalize t.tokens ++ after = rest at read ⊢
  have tests := beginsWithOperator (by decide : '*' ∈ _)
    (.ident (if mutable then "mut" else "const") :: rest)
  have star (rest : List Token) : ahead (.punct '*' false :: rest) (.operator "*") = true := rfl
  unfold typeOf
  refine takes_place_bind fun position => (takes_binder?_none tests.noFor).bind ?_
  simp only [takes_peek_bind, takes_peekAny_bind, takes_seesWord_bind, takes_seesOperator_bind,
    tests.noGroup, tests.noFunction, tests.noPath, tests.noDyn, tests.noBracket, star,
    Bool.and_false, Option.isSome_none, Bool.false_eq_true, if_false, if_true]
  refine (takes_operator (by decide) (by decide)).bind ?_
  rw [takes_seesWord_bind, takes_seesWord_bind]
  cases mutable with
  | true => exact (takes_word "mut").bind (read.bind (takes_pure _))
  | false => exact (takes_word "const").bind (read.bind (takes_pure _))

theorem takes_typeOf_reference (plus : Bool) (name : Option String) (mutable : Bool) {t : Tree}
    (plain : t.IsPlain) (rereads : Rereads g t) (ends : Begins typeEnds after) :
    Takes (typeOf g plus) (.punct '&' false :: ((name.map Token.lifetime).getD [] ++
        ((if mutable then [Token.ident "mut"] else []) ++ (t.tokens ++ after))))
      (.seq (.operator "&" :: ((name.map Tree.lifetime).toList
        ++ (if mutable then some (Tree.word "mut") else none).toList ++ [t]))) after := by
  have read := rereads false after ends
  obtain ⟨first, rest, same, starts⟩ := plain.startsType
  have noLifetime : ahead ((if mutable then [Token.ident "mut"] else []) ++ (t.tokens ++ after))
      .lifetime = false := by
    cases mutable with
    | true => rfl
    | false => rw [same]; exact ahead_lifetime_of_startsType starts
  have target : ∃ found : Option Tree, found = (if mutable then some (Tree.word "mut") else none) ∧
      Takes (word? "mut") ((if mutable then [Token.ident "mut"] else []) ++ (t.tokens ++ after))
        found (t.tokens ++ after) := by
    cases mutable with
    | true => exact ⟨_, rfl, takes_word?_some "mut"⟩
    | false =>
      refine ⟨_, rfl, takes_word?_none ?_⟩
      rw [same]
      exact ahead_word_of_startsType starts "mut" (by decide) (by decide)
  obtain ⟨found, sameWord, word⟩ := target
  generalize ((if mutable then [Token.ident "mut"] else []) ++ (t.tokens ++ after)) = middle at *
  have lifetime : Takes lifetime? ((name.map Token.lifetime).getD [] ++ middle) name middle := by
    cases name with
    | some name => exact takes_lifetime?_some name
    | none => exact takes_lifetime?_none noLifetime
  have tests := beginsWithOperator (by decide : '&' ∈ _)
    ((name.map Token.lifetime).getD [] ++ middle)
  have noStar (rest : List Token) : ahead (.punct '&' false :: rest) (.operator "*") = false := rfl
  have sign (rest : List Token) : ahead (.punct '&' false :: rest) (.operator "&") = true := rfl
  unfold typeOf
  refine takes_place_bind fun position => (takes_binder?_none tests.noFor).bind ?_
  simp only [takes_peek_bind, takes_peekAny_bind, takes_seesWord_bind, takes_seesOperator_bind,
    tests.noGroup, tests.noFunction, tests.noPath, tests.noDyn, tests.noBracket, noStar, sign,
    Bool.and_false, Option.isSome_none, Bool.false_eq_true, if_false, if_true]
  refine (takes_operator (by decide) (by decide)).bind (lifetime.bind (word.bind (read.bind ?_)))
  rw [sameWord]
  exact takes_pure _

theorem takes_typeOf_never (plus : Bool) :
    Takes (typeOf g plus) (.punct '!' false :: after) (.operator "!") after := by
  have tests := beginsWithOperator (by decide : '!' ∈ _) after
  have noStar : ahead (.punct '!' false :: after) (.operator "*") = false := rfl
  have noSign : ahead (.punct '!' false :: after) (.operator "&") = false := rfl
  have bang : ahead (.punct '!' false :: after) (.operator "!") = true := rfl
  have noEquals : ahead (.punct '!' false :: after) (.operator "=") = false := rfl
  unfold typeOf
  refine takes_place_bind fun position => (takes_binder?_none tests.noFor).bind ?_
  simp only [takes_peek_bind, takes_peekAny_bind, takes_seesWord_bind, takes_seesOperator_bind,
    tests.noGroup, tests.noFunction, tests.noPath, tests.noDyn, tests.noBracket, noStar, noSign,
    bang, noEquals, Bool.and_false, Option.isSome_none, Bool.false_eq_true, if_false, Bool.not_false,
    Bool.and_self, if_true]
  exact takes_operator (by decide) (by decide)

end Parser

end Grammar

namespace Tree

open Grammar Grammar.Parser

/-- A type that is printed is read back, at any depth that its tokens do not exceed. -/
theorem IsPlain.rereads {t : Tree} (plain : t.IsPlain) {depth : Nat}
    (deep : t.tokens.length ≤ depth) : Rereads (ofDepth (depth + 1)) t := by
  induction plain generalizing depth with
  | path isGlobal first more begins named types ih =>
    intro plus after ends
    refine takes_typeOf_path plus isGlobal begins named (fun s listed t member => ?_) ends
    have shorter := length_type_lt_path isGlobal listed
      (fun u inside => (types s listed u inside).isLifetime) member
    obtain ⟨depth, rfl⟩ : ∃ n, depth = n + 1 := ⟨depth - 1, by omega⟩
    exact ⟨types s listed t member, ih s listed t member (by omega)⟩
  | @reference name mutable target named plain ih =>
    intro plus after ends
    have printed := tokens_reference name mutable target
    rw [printed, List.length_cons, List.length_append, List.length_append] at deep
    obtain ⟨depth, rfl⟩ : ∃ n, depth = n + 1 := ⟨depth - 1, by omega⟩
    rw [printed, List.cons_append, List.append_assoc, List.append_assoc]
    exact takes_typeOf_reference plus name mutable plain (ih (by omega)) ends
  | @pointer mutable target plain ih =>
    intro plus after ends
    rw [tokens_pointer, List.length_cons, List.length_cons] at deep
    obtain ⟨depth, rfl⟩ : ∃ n, depth = n + 1 := ⟨depth - 1, by omega⟩
    rw [tokens_pointer]
    exact takes_typeOf_pointer plus mutable (ih (by omega)) ends
  | @slice element plain ih =>
    intro plus after ends
    rw [tokens, tokensOf, tokensOf, List.append_nil] at deep ⊢
    rw [List.length_cons, List.length_append] at deep
    obtain ⟨depth, rfl⟩ : ∃ n, depth = n + 1 := ⟨depth - 1, by omega⟩
    rw [List.cons_append, List.append_assoc]
    exact takes_typeOf_slice plus plain (ih (by omega))
  | unit =>
    intro plus after ends
    exact takes_typeOf_group plus (takes_parenthesizedType_unit plus)
  | tuple first more trailing plain ih =>
    intro plus after ends
    have printed : (group .parenthesis (first :: operator "," :: join "," more trailing)).tokens =
        .opening .parenthesis :: (first.tokens ++ (Token.operator "," ++
          Token.separated "," trailing (more.map tokens)) ++ [.closing .parenthesis]) := by
      rw [tokens, tokensOf, tokensOf, tokens_operator, tokensOf_join]
    rw [printed, List.length_cons, List.length_append, List.length_append,
      List.length_append] at deep
    obtain ⟨depth, rfl⟩ : ∃ n, depth = n + 1 := ⟨depth - 1, by omega⟩
    rw [printed, List.cons_append, List.append_assoc]
    refine takes_typeOf_group plus (takes_parenthesizedType_tuple plus fun t member => ?_)
    refine ⟨plain t member, ih t member ?_⟩
    rcases List.mem_cons.mp member with rfl | later
    · omega
    · have := Token.length_le_separated "," trailing
        (List.mem_map_of_mem (f := tokens) later)
      omega
  | never =>
    intro plus after ends
    exact takes_typeOf_never plus

/-- What is printed of a type in an everyday form parses as this type. -/
theorem IsPlain.parseText_render {t : Tree} (plain : t.IsPlain) :
    parseText Grammar.type t.render = .ok t := by
  have text : t.render.toList = Token.renderChars t.tokens := String.toList_ofList
  have lexable := plain.isLexable
  refine parseText_of_takes (text ▸ lexable.spells) lexable.matched fun depth deep => ?_
  obtain ⟨depth, rfl⟩ : ∃ n, depth = n + 1 := ⟨depth - 1, by omega⟩
  have read := plain.rereads (Nat.le_of_lt_succ deep) true [] (by rintro t first; cases first)
  rwa [List.append_nil] at read

end Tree

end Forwarding
