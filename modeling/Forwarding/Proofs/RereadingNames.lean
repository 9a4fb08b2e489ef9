import Forwarding.Proofs.Declared
import Forwarding.Proofs.RereadingParameters
import Forwarding.Source.Module
/-!
Paths of names read back. The path of a declaration is printed as names between colons; it parses as
a path exactly when each of the names may be a segment of one.
-/

namespace Forwarding

/-- A segment without generic arguments. -/
def Segment.ofName (name : String) : Segment :=
  ⟨name, false, [], [], false⟩

theorem Segment.isNamed_ofName {name : String} (segment : IsSegment name) : (ofName name).IsNamed :=
  ⟨segment, fun _ => rfl, fun _ member => by cases member⟩

theorem Segment.tokens_ofName (name : String) : (ofName name).tree.tokens = [.ident name] :=
  rfl

/-- A type that is only a name is in an everyday form. -/
theorem Tree.IsPlain.of_ident? {t : Tree} {name : String} (sole : t.ident? = some name)
    (segment : IsSegment name) (noTry : name ≠ "try") : t.IsPlain := by
  unfold ident? at sole
  split at sole
  · cases sole
    exact .path false (Segment.ofName name) [] (fun _ => noTry)
      (by simpa using Segment.isNamed_ofName segment) (by simp [Segment.ofName])
  · cases sole

/-- The trees of the segments that some names stand for. -/
def namedSegments (names : List String) : List Tree :=
  (names.map Segment.ofName).map Segment.tree

theorem namedSegments_cons (name : String) (names : List String) :
    namedSegments (name :: names) = (Segment.ofName name).tree :: namedSegments names :=
  rfl

namespace Grammar.Parser

open Lexeme

variable {α β : Type} {tokens after : List Token}

/-- A reader fails on the tokens ahead. -/
def Refuses (p : Parser α) (tokens : List Token) : Prop :=
  ∀ i : Input, Shows i.rest tokens → ∀ a j, ¬ Reads p i a j

theorem Refuses.bind {p : Parser α} {f : α → Parser β} (refused : Refuses p tokens) :
    Refuses (p >>= f) tokens := by
  intro i shown b k ran
  obtain ⟨a, j, first, -⟩ := reads_bind.mp ran
  exact refused i shown a j first

theorem Refuses.map {p : Parser α} {f : α → β} (refused : Refuses p tokens) :
    Refuses (f <$> p) tokens := by
  intro i shown b k ran
  obtain ⟨a, first, -⟩ := reads_map.mp ran
  exact refused i shown a k first

theorem Takes.refuses_bind {p : Parser α} {f : α → Parser β} {a : α} {middle : List Token}
    (taken : Takes p tokens a middle) (refused : Refuses (f a) middle) :
    Refuses (p >>= f) tokens := by
  intro i shown b k ran
  obtain ⟨rest, shown', own⟩ := taken i shown
  obtain ⟨a', j, first, next⟩ := reads_bind.mp ran
  -- what a reader takes is determined
  cases Except.ok.inj (own.symm.trans first)
  exact refused _ shown' b k next

theorem Tests.refuses_bind {test : Parser α} {answer : List Token → α} (tested : Tests test answer)
    {f : α → Parser β} (refused : Refuses (f (answer tokens)) tokens) :
    Refuses (test >>= f) tokens :=
  Takes.refuses_bind (fun i shown => ⟨i.rest, shown, (tested i tokens shown _ _).mpr ⟨rfl, rfl⟩⟩)
    refused

theorem refuses_get_bind {f : Input → Parser β}
    (each : ∀ i : Input, Shows i.rest tokens → Refuses (f i) tokens) :
    Refuses (get >>= f) tokens := by
  intro i shown b k ran
  obtain ⟨a, j, first, next⟩ := reads_bind.mp ran
  obtain ⟨rfl, rfl⟩ := reads_get.mp first
  exact each _ shown _ shown b k next

theorem refuses_identifier {name : String} (keyword : isIdentifier name = false) :
    Refuses identifier (.ident name :: after) := by
  intro i shown found j ran
  obtain ⟨place, rest, same, -⟩ := shown.exists_leaf rfl
  obtain ⟨place', rest', same', -, allowed⟩ := reads_identifier.mp ran
  cases same.symm.trans same'
  rw [keyword] at allowed
  cases allowed

variable {g : Grammar}

theorem refuses_segment {name : String} (named : Lexer.IsName name) (other : ¬ IsSegment name) :
    Refuses (segment g false) (.ident name :: after) := by
  rw [IsSegment, not_and, not_or, Bool.not_eq_true] at other
  obtain ⟨keyword, unlisted⟩ := other named
  simp only [segmentNames, List.mem_cons, List.not_mem_nil, or_false, not_or] at unlisted
  have noWord : segmentWords.any (ahead (.ident name :: after)) = false := by
    simp [segmentWords, ahead, sees, leaves, unlisted]
  have noSelf : ahead (.ident name :: after) (.word "Self") = false := by
    simp [ahead, sees, leaves, unlisted]
  unfold segment
  refine (tests_peekAny _).refuses_bind ?_
  rw [noWord, if_neg Bool.false_ne_true]
  refine (tests_seesWord "Self").refuses_bind ?_
  rw [noSelf, if_neg Bool.false_ne_true]
  exact (refuses_identifier keyword).bind

theorem tailTokens_cons (name : String) (names : List String) :
    tailTokens (namedSegments (name :: names)) =
      Token.operator "::" ++ .ident name :: tailTokens (namedSegments names) := by
  rw [tailTokens, namedSegments_cons, List.isEmpty_cons, if_neg Bool.false_ne_true, separated_cons,
    Segment.tokens_ofName]
  rfl

theorem takes_namedSegment {name : String} (segment : IsSegment name) (names : List String) :
    Takes (Grammar.segment g false) (.ident name :: tailTokens (namedSegments names))
      (Segment.ofName name).tree (tailTokens (namedSegments names)) := by
  have follows := followsSegment_tailTokens (names.map Segment.ofName)
    (show Begins pathEnds [] by rintro t first; cases first)
  rw [List.append_nil] at follows
  exact takes_segment (Segment.isNamed_ofName segment) (fun t member => by cases member) follows

/-- A name that is no segment is refused wherever it stands in a path. -/
theorem refuses_moreSegments {names : List String} (words : ∀ name ∈ names, Lexer.IsName name)
    (other : ∃ name ∈ names, ¬ IsSegment name) :
    Refuses (moreSegments g false) (tailTokens (namedSegments names)) := by
  refine refuses_get_bind fun i shown => ?_
  have parted : ∀ part ∈ (namedSegments names).map Tree.tokens, IsMatched part ∧ part ≠ [] := by
    simp only [namedSegments, List.mem_map, exists_exists_and_eq_and]
    rintro _ ⟨name, -, rfl⟩
    exact ⟨isMatched_of_noBracket (by simp [Segment.tokens_ofName, Token.isBracket]),
      List.cons_ne_nil _ _⟩
  rw [← List.append_nil (tailTokens _)] at shown
  have enough := Nat.lt_succ_of_le (length_le_tailTokens parted shown)
  rw [namedSegments, List.length_map, List.length_map, Nat.succ_eq_add_one] at enough
  clear shown parted
  generalize i.rest.length + 1 = count at enough
  induction names generalizing count with
  | nil =>
    obtain ⟨name, member, -⟩ := other
    cases member
  | cons name names ih =>
    obtain ⟨count, rfl⟩ : ∃ n, count = n + 1 := ⟨count - 1, by omega⟩
    have noGroup : ahead (.ident name :: tailTokens (namedSegments names)) (.group .parenthesis) =
        false := rfl
    rw [repeatUpTo, tailTokens_cons]
    by_cases segment : IsSegment name
    · have later := fun n member => words n (List.mem_cons_of_mem name member)
      refine Takes.refuses_bind (a := some (Segment.ofName name).tree) ?_
        (ih later ?_ count (by simpa using enough)).bind
      · rw [(tests_seesOperator "::").takes_bind, takes_peek3_colons_bind, noGroup]
        exact (takes_operator (by decide) (by decide)).bind (takes_namedSegment segment names).map
      · obtain ⟨bad, member, refused⟩ := other
        rcases List.mem_cons.mp member with rfl | later
        · exact absurd segment refused
        · exact ⟨bad, later, refused⟩
    · have peeked : Takes (peek3 (.group .parenthesis))
          (Token.operator "::" ++ .ident name :: tailTokens (namedSegments names)) false _ :=
        bind_pure (peek3 (.group .parenthesis)) ▸ takes_peek3_colons_bind.mpr (takes_pure _)
      refine Refuses.bind ((tests_seesOperator "::").refuses_bind (peeked.refuses_bind ?_))
      exact (takes_operator (by decide) (by decide)).refuses_bind
        (refuses_segment (words name List.mem_cons_self) segment).map

/-- The tokens of a path of names. -/
def pathTokens (names : List String) : List Token :=
  Token.separated "::" false (names.map fun name => [.ident name])

theorem pathTokens_cons (name : String) (names : List String) :
    pathTokens (name :: names) = .ident name :: tailTokens (namedSegments names) := by
  have same (names : List String) : (namedSegments names).map Tree.tokens =
      names.map fun name => [.ident name] := by
    rw [namedSegments, List.map_map, List.map_map]
    rfl
  rw [pathTokens, ← same, namedSegments_cons, separated_cons]
  rfl

theorem takes_namedPath {first : String} {names : List String}
    (segments : ∀ name ∈ first :: names, IsSegment name) :
    Takes (path g false) (pathTokens (first :: names))
      (.path false (namedSegments (first :: names))) [] := by
  have named : ∀ s ∈ names.map Segment.ofName, s.IsNamed := by
    simpa using fun name member =>
      Segment.isNamed_ofName (segments name (List.mem_cons_of_mem _ member))
  have types : ∀ s ∈ names.map Segment.ofName, ∀ t ∈ s.types, t.IsPlain ∧ Rereads g t := by
    simp [Segment.ofName]
  have ends : Begins pathEnds [] := by
    intro t first
    cases first
  have more := @takes_moreSegments g [] _ named types ends
  rw [List.append_nil] at more
  rw [pathTokens_cons]
  unfold path
  exact (takes_operator?_none rfl).bind
    ((takes_namedSegment (segments first List.mem_cons_self) names).bind (more.bind (takes_pure _)))

theorem refuses_namedPath {first : String} {names : List String}
    (words : ∀ name ∈ first :: names, Lexer.IsName name)
    (other : ∃ name ∈ first :: names, ¬ IsSegment name) :
    Refuses (path g false) (pathTokens (first :: names)) := by
  rw [pathTokens_cons]
  unfold path
  refine (takes_operator?_none rfl).refuses_bind ?_
  by_cases segment : IsSegment first
  · refine (takes_namedSegment segment names).refuses_bind (refuses_moreSegments
      (fun name member => words name (List.mem_cons_of_mem _ member)) ?_).bind
    obtain ⟨name, member, refused⟩ := other
    rcases List.mem_cons.mp member with rfl | later
    · exact absurd segment refused
    · exact ⟨name, later, refused⟩
  · exact (refuses_segment (words first List.mem_cons_self) segment).bind

end Grammar.Parser

open Lexer in
/-- A text does not parse when the reader fails on the tokens that it spells. -/
theorem Grammar.parseText_ne_ok_of_refuses {α : Type} {p : Grammar → Grammar.Parser α}
    {tokens : List Token} {text : String} (spelled : Spells [] text.toList tokens)
    (matched : Lexeme.IsMatched tokens) (refused : ∀ g, (p g).Refuses tokens) (a : α) :
    parseText p text ≠ .ok a := by
  obtain ⟨lexemes, lexed, shown⟩ := lex_of_spells spelled matched
  intro parsed
  obtain ⟨_, same, read⟩ := parseText_eq_ok_iff.mp parsed
  cases lexed.symm.trans same
  obtain ⟨j, ran, -⟩ := Parser.runAll_eq_ok_iff.mp read
  exact refused _ _ shown a j ran

namespace Grammar

open Lexer

theorem parseText_identifier {name : String} (named : IsIdentifier name) :
    parseText (fun _ => Parser.identifier) name = .ok name := by
  have spelled := spells_name named.1 endsWord_nil
  rw [List.append_nil] at spelled
  exact parseText_of_takes spelled (Token.IsLexable.word named.1 .nil).matched
    fun _ _ => Parser.takes_identifier named.2

theorem parseText_lifetime {name : String} (named : IsName name) :
    parseText (fun _ => Parser.lifetime) (Tree.lifetime name).render = .ok name := by
  have spelled := spells_lifetime named endsWord_nil
  rw [List.append_nil] at spelled
  exact parseText_of_takes spelled (Token.IsLexable.lifetime named).matched
    fun _ _ => (List.append_nil (Token.lifetime name)) ▸ Parser.takes_lifetime name

end Grammar

namespace ModulePath

open Grammar Grammar.Parser Lexer

theorem spells_render {names : List String} (words : ∀ name ∈ names, IsName name) :
    Spells [] (render names).toList (pathTokens names) := by
  induction names with
  | nil => exact .done
  | cons name names ih =>
    have own := words name List.mem_cons_self
    cases names with
    | nil =>
      have spelled := spells_name own endsWord_nil
      rw [List.append_nil] at spelled
      rw [render, String.intercalate_singleton]
      exact spelled
    | cons next rest =>
      have later := ih fun n member => words n (List.mem_cons_of_mem _ member)
      have first : ∃ more, (render (next :: rest)).toList = next.toList ++ more := by
        cases rest with
        | nil => exact ⟨[], by simp [render]⟩
        | cons third rest =>
          rw [render, String.intercalate_cons_cons, String.toList_append, String.toList_append,
            List.append_assoc]
          exact ⟨_, rfl⟩
      obtain ⟨more, first⟩ := first
      have noSymbol : punct? (render (next :: rest)).toList = none := by
        rw [first]
        exact (words next (by simp)).punct?_append more
      have second : Token.Stands (render (next :: rest)).toList (.punct ':' false) := by
        have colon : ':' ∈ Lexer.operatorSymbols := by decide
        have stands := Token.Stands.operator (render (next :: rest)).toList colon
        rwa [noSymbol] at stands
      have third : Token.Stands (':' :: (render (next :: rest)).toList) (.punct ':' true) :=
        .operator _ (by decide)
      have split : (render (name :: next :: rest)).toList =
          name.toList ++ ':' :: ':' :: (render (next :: rest)).toList := by
        rw [render, String.intercalate_cons_cons, String.toList_append, String.toList_append,
          List.append_assoc]
        rfl
      rw [split]
      exact (spells_name own (endsWord_colon _)).append (.token third (.token second later))

theorem member_eq_render {module : List String} (words : ∀ name ∈ module, IsName name)
    (name : String) : member module name = render (module ++ [name]) := by
  cases module with
  | nil => rfl
  | cons first rest =>
    have own : first ≠ "" := by
      rintro rfl
      exact absurd (words "" List.mem_cons_self) (by decide)
    have filled : render (first :: rest) ≠ "" := by
      cases rest with
      | nil => simpa [render] using own
      | cons next rest => simp [render, own]
    have long : render (first :: rest ++ [name]) = render (first :: rest) ++ "::" ++ name := by
      rw [render, String.intercalate_append_of_ne_nil (List.cons_ne_nil _ _) (List.cons_ne_nil _ _),
        String.intercalate_singleton]
      rfl
    rw [long]
    exact if_neg (by simpa using filled)

/-- The path of a declaration is read back exactly when its names may be segments. -/
theorem parseText_render_iff {first : String} {names : List String}
    (words : ∀ name ∈ first :: names, IsName name) :
    Parses (fun g => Grammar.path g false) (render (first :: names)) ↔
      ∀ name ∈ first :: names, IsSegment name := by
  have spelled := spells_render words
  have matched : Lexeme.IsMatched (pathTokens (first :: names)) := by
    refine (Token.IsLexable.separated false (.operator "::" (by decide)) ?_).matched
    simp only [List.mem_map]
    rintro _ ⟨name, member, rfl⟩
    exact .word (words name member) .nil
  constructor
  · rintro ⟨tree, parsed⟩
    by_contra refused
    simp only [not_forall] at refused
    obtain ⟨name, member, other⟩ := refused
    exact parseText_ne_ok_of_refuses spelled matched
      (fun g => refuses_namedPath words ⟨name, member, other⟩) tree parsed
  · intro segments
    exact ⟨_, parseText_of_takes spelled matched fun depth _ => takes_namedPath segments⟩

end ModulePath

end Forwarding
