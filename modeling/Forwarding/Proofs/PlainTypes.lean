import Forwarding.Proofs.DeclaredNames
import Forwarding.Proofs.Trees
/-!
Types in an everyday form. They are built from paths with generic arguments, references, pointers,
slices and tuples. Their tokens are read back from what is printed of them.
-/

namespace Forwarding

/-- Words that stand in a path although they name nothing. -/
def segmentNames : List String :=
  ["super", "self", "Self", "crate", "try"]

/-- A word that may be a segment of a path. -/
def IsSegment (name : String) : Prop :=
  Lexer.IsName name ∧ (Grammar.isIdentifier name = true ∨ name ∈ segmentNames)

instance (name : String) : Decidable (IsSegment name) :=
  inferInstanceAs (Decidable (_ ∧ _))

theorem IsSegment.ne_of_keyword {name : String} (segment : IsSegment name) (word : String)
    (keyword : word ∈ Grammar.keywords) (noSegment : word ∉ segmentNames) : name ≠ word := by
  rintro rfl
  rcases segment.2 with allowed | listed
  · simp [Grammar.isIdentifier, keyword] at allowed
  · exact noSegment listed

/-- A segment of a path: a name and its generic arguments, of which lifetimes come first. -/
structure Segment where
  name : String
  turbofish : Bool
  lifetimes : List String
  types : List Tree
  trailing : Bool

namespace Segment

/-- The generic arguments. -/
def items (s : Segment) : List Tree :=
  s.lifetimes.map Tree.lifetime ++ s.types

/-- The tree of a segment. -/
def tree (s : Segment) : Tree :=
  .segment s.name (if s.items.isEmpty then [] else [.arguments s.turbofish s.items s.trailing])

/-- The names in a segment. -/
structure IsNamed (s : Segment) : Prop where
  name : IsSegment s.name
  bare : s.name ∈ ["super", "self", "crate", "try"] → s.items = []
  lifetimes : ∀ name ∈ s.lifetimes, Lexer.IsName name

end Segment

/-- A type in an everyday form. -/
inductive Tree.IsPlain : Tree → Prop
  | path (isGlobal : Bool) (first : Segment) (more : List Segment)
      (begins : isGlobal = false → first.name ≠ "try") (named : ∀ s ∈ first :: more, s.IsNamed)
      (types : ∀ s ∈ first :: more, ∀ t ∈ s.types, IsPlain t) :
      IsPlain (.path isGlobal ((first :: more).map Segment.tree))
  | reference (name : Option String) (mutable : Bool) {target : Tree}
      (named : ∀ text ∈ name, Lexer.IsName text) (plain : IsPlain target) :
      IsPlain (.seq (.operator "&" :: ((name.map Tree.lifetime).toList
        ++ (if mutable then some (Tree.word "mut") else none).toList ++ [target])))
  | pointer (mutable : Bool) {target : Tree} (plain : IsPlain target) :
      IsPlain (.seq [.operator "*", .word (if mutable then "mut" else "const"), target])
  | slice {element : Tree} (plain : IsPlain element) : IsPlain (.group .bracket [element])
  | unit : IsPlain (.group .parenthesis [])
  | tuple (first : Tree) (more : List Tree) (trailing : Bool)
      (plain : ∀ t ∈ first :: more, IsPlain t) :
      IsPlain (.group .parenthesis
        (first :: .operator "," :: Grammar.Parser.join "," more trailing))
  | never : IsPlain (.operator "!")

namespace Segment

theorem tokens_tree (s : Segment) (types : ∀ t ∈ s.types, t.isLifetime = false) :
    s.tree.tokens = .ident s.name :: if s.items.isEmpty then [] else
      (if s.turbofish then Token.operator "::" else []) ++ (Token.operator "<"
        ++ (Token.separated "," s.trailing (s.items.map Tree.tokens) ++ Token.operator ">")) := by
  have sorted : Tree.lifetimesFirst (Tree.tokensMarked s.items) s.trailing =
      Token.separated "," s.trailing (s.items.map Tree.tokens) := by
    rw [items, Tree.tokensMarked_eq_map, List.map_append, Tree.lifetimesFirst_of_sorted]
    · simp only [List.map_append, List.map_map]
      rfl
    · simp [Tree.isLifetime]
    · simpa using types
  rw [tree, Tree.tokens]
  split
  · rfl
  · rw [Tree.tokensOf, Tree.tokens, sorted, Tree.tokensOf, List.append_nil, List.append_assoc,
      List.append_assoc]

theorem IsNamed.isLexable {s : Segment} (named : s.IsNamed)
    (types : ∀ t ∈ s.types, t.isLifetime = false ∧ Token.IsLexable t.tokens) :
    Token.IsLexable s.tree.tokens := by
  have colons : Token.IsLexable (if s.turbofish then Token.operator "::" else []) := by
    split
    · exact .operator "::" (by decide)
    · exact .nil
  have items : ∀ part ∈ s.items.map Tree.tokens, Token.IsLexable part := by
    simp only [items, List.map_append, List.mem_append, List.mem_map]
    rintro part (⟨_, ⟨name, member, rfl⟩, rfl⟩ | ⟨t, member, rfl⟩)
    · exact .lifetime (named.lifetimes name member)
    · exact (types t member).2
  rw [s.tokens_tree fun t member => (types t member).1]
  refine .word named.name.1 ?_
  split
  · exact .nil
  · exact colons.append (.append (.operator "<" (by decide)) (.append
      (.separated _ (.operator "," (by decide)) items) (.operator ">" (by decide))))

end Segment

namespace Tree

theorem IsPlain.isLifetime {t : Tree} (plain : t.IsPlain) : t.isLifetime = false := by
  cases plain <;> rfl

theorem isLexable_path (isGlobal : Bool) {segments : List Segment}
    (named : ∀ s ∈ segments, s.IsNamed)
    (types : ∀ s ∈ segments, ∀ t ∈ s.types, t.isLifetime = false ∧ Token.IsLexable t.tokens) :
    Token.IsLexable (path isGlobal (segments.map Segment.tree)).tokens := by
  rw [tokens_path]
  refine .append ?_ (.separated _ (.operator "::" (by decide)) ?_)
  · split
    · exact .operator "::" (by decide)
    · exact .nil
  · simp only [List.mem_map, exists_exists_and_eq_and]
    rintro _ ⟨s, member, rfl⟩
    exact (named s member).isLexable (types s member)

theorem IsPlain.isLexable {t : Tree} (plain : t.IsPlain) : Token.IsLexable t.tokens := by
  induction plain with
  | path isGlobal first more begins named types ih =>
    exact isLexable_path isGlobal named fun s member t inside =>
      ⟨(types s member t inside).isLifetime, ih s member t inside⟩
  | reference name mutable named plain ih =>
    rw [tokens_reference]
    refine .append (.operator "&" (by decide)) (.append ?_ (.append ?_ ih))
    · cases name with
      | none => exact .nil
      | some name => exact .lifetime (named name rfl)
    · split
      · exact .word (by decide +kernel) .nil
      · exact .nil
  | @pointer mutable target plain ih =>
    rw [tokens_pointer]
    refine .append (.operator "*" (by decide)) (.word ?_ ih)
    cases mutable <;> decide +kernel
  | slice plain ih =>
    rw [tokens, tokensOf, tokensOf, List.append_nil]
    exact ih.group _
  | unit => exact Token.IsLexable.nil.group _
  | tuple first more trailing plain ih =>
    rw [tokens, tokensOf, tokensOf, tokens_operator, tokensOf_join]
    refine Token.IsLexable.group _ (.append (ih first List.mem_cons_self)
      (.append (.operator "," (by decide)) (.separated _ (.operator "," (by decide)) ?_)))
    simp only [List.mem_map]
    rintro _ ⟨t, member, rfl⟩
    exact ih t (List.mem_cons_of_mem _ member)
  | never => exact .operator "!" (by decide)

end Tree

/-- A token that begins a type in an everyday form. -/
def Token.StartsType : Token → Prop
  | ident name => IsSegment name
  | punct symbol _ => symbol ∈ [':', '&', '*', '!']
  | opening delimiter => delimiter ≠ .brace
  | _ => False

theorem Tree.IsPlain.startsType {t : Tree} (plain : t.IsPlain) :
    ∃ first rest, t.tokens = first :: rest ∧ first.StartsType := by
  cases plain with
  | path isGlobal first more begins named types =>
    rw [tokens_path]
    cases isGlobal with
    | true => exact ⟨.punct ':' true, _, rfl, by simp [Token.StartsType]⟩
    | false =>
      have own : ∃ rest, first.tree.tokens = .ident first.name :: rest := by
        rw [Segment.tree, tokens]
        exact ⟨_, rfl⟩
      obtain ⟨rest, own⟩ := own
      rw [List.map_cons, List.map_cons, Token.separated, own]
      exact ⟨_, _, rfl, (named first List.mem_cons_self).name⟩
  | reference name mutable named plain =>
    exact ⟨.punct '&' false, _, rfl, by simp [Token.StartsType]⟩
  | pointer mutable plain => exact ⟨.punct '*' false, _, rfl, by simp [Token.StartsType]⟩
  | slice plain => exact ⟨.opening .bracket, _, rfl, by simp [Token.StartsType]⟩
  | unit => exact ⟨.opening .parenthesis, _, rfl, by simp [Token.StartsType]⟩
  | tuple first more trailing plain =>
    exact ⟨.opening .parenthesis, _, rfl, by simp [Token.StartsType]⟩
  | never => exact ⟨.punct '!' false, _, rfl, by simp [Token.StartsType]⟩

/-- The types in a path have fewer tokens than the path. -/
theorem Tree.length_type_lt_path (isGlobal : Bool) {segments : List Segment} {s : Segment}
    (member : s ∈ segments) (types : ∀ t ∈ s.types, t.isLifetime = false) {t : Tree}
    (inside : t ∈ s.types) :
    t.tokens.length < (path isGlobal (segments.map Segment.tree)).tokens.length := by
  have listed : t ∈ s.items := List.mem_append_right _ inside
  have inSegment := Token.length_le_separated "," s.trailing
    (List.mem_map_of_mem (f := tokens) listed)
  have inPath := Token.length_le_separated "::" false
    (List.mem_map_of_mem (f := tokens) (List.mem_map_of_mem (f := Segment.tree) member))
  rw [s.tokens_tree types, if_neg (by simpa using List.ne_nil_of_mem listed), List.length_cons,
    List.length_append, List.length_append, List.length_append] at inPath
  rw [tokens_path, List.length_append]
  omega

end Forwarding
