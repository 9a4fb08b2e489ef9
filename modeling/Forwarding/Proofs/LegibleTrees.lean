import Forwarding.Proofs.Legibility
import Forwarding.Proofs.Renaming
import Forwarding.Proofs.Reprinting
/-!
Trees with legible tokens. Where every piece of a tree is legible by itself, so is everything that is
printed of the tree, with the names that it mentions or with other ones, and every bracket in it is
matched.
-/

namespace Forwarding

namespace Token

open Lexer Lexeme

/-- Tokens that can be told from their text, with matching brackets. -/
structure IsLegible (tokens : List Token) : Prop where
  legible : Legible tokens
  matched : IsMatched tokens

theorem IsLexable.isLegible {tokens : List Token} (lexable : IsLexable tokens) : IsLegible tokens :=
  ⟨lexable.printable.legible, lexable.matched⟩

namespace IsLegible

theorem nil : IsLegible [] :=
  IsLexable.nil.isLegible

theorem append {before after : List Token} (first : IsLegible before) (last : IsLegible after) :
    IsLegible (before ++ after) := by
  obtain ⟨_, shown⟩ := first.matched
  obtain ⟨_, shown'⟩ := last.matched
  exact ⟨first.legible.append last.legible, _, shown.append shown'⟩

theorem cons {t : Token} {rest : List Token} (first : IsLegible [t]) (last : IsLegible rest) :
    IsLegible (t :: rest) :=
  first.append last

theorem word {name : String} (named : IsName name) : IsLegible [ident name] :=
  (IsLexable.word named .nil).isLegible

theorem literal {text : String} (whole : IsLiteral text) : IsLegible [.literal text] :=
  ⟨.literal whole .nil, isMatched_of_noBracket (by simp [isBracket])⟩

theorem lifetime {name : String} (named : IsName name) : IsLegible (Token.lifetime name) :=
  (IsLexable.lifetime named).isLegible

theorem group (delimiter : Delimiter) {inner : List Token} (inside : IsLegible inner) :
    IsLegible (opening delimiter :: (inner ++ [closing delimiter])) := by
  obtain ⟨legible, body, shown⟩ := inside
  exact ⟨.opening _ (legible.append (.closing _ .nil)),
    [.group delimiter body .first .first], .group shown .nil⟩

theorem flatMap {α : Type} {f : α → List Token} {items : List α}
    (each : ∀ item ∈ items, IsLegible (f item)) : IsLegible (items.flatMap f) := by
  induction items with
  | nil => exact nil
  | cons item items ih =>
    exact (each item List.mem_cons_self).append
      (ih fun other member => each other (List.mem_cons_of_mem _ member))

/-- The characters of an operator may stand anywhere. -/
theorem symbols {symbols : String} (each : ∀ c ∈ symbols.toList, c ∈ '/' :: operatorSymbols) :
    IsLegible (Token.operator symbols) := by
  unfold Token.operator
  generalize symbols.toList = chars at each
  have noBracket : ∀ t ∈ operatorChars chars, t.isBracket = false := by
    clear each
    fun_induction operatorChars chars with
    | case1 => simp
    | case2 c => simp [isBracket]
    | case3 c rest some ih => simpa [isBracket] using ih
  refine ⟨?_, isMatched_of_noBracket noBracket⟩
  clear noBracket
  fun_induction operatorChars chars with
  | case1 => exact .nil
  | case2 c => exact .symbol false (each c List.mem_cons_self) .nil
  | case3 c rest some ih =>
    exact .symbol true (each c List.mem_cons_self)
      (ih fun d member => each d (List.mem_cons_of_mem _ member))

end IsLegible

end Token

namespace Tree

open Lexer

/-- New names for names. -/
def KeepsNames (f : Mention → String) : Prop :=
  ∀ m, IsName m.name → IsName (f m)

/-- Trees that can be told from their text together, whatever the names that they mention become, though
maybe not each by itself: an apostrophe is told with what it joins. -/
def PrintLegibly (children : List Tree) : Prop :=
  ∀ f, KeepsNames f → Token.IsLegible (tokensOf (mapNamesAll f children))

mutual

/-- Whether every piece of a tree can be told from its text. -/
def IsLegible : Tree → Prop
  | token t => Token.IsLegible [t]
  | lifetime name => IsName name
  | group _ children => AreLegible children
  | seq children => PrintLegibly children ∨ AreLegible children
  | path _ segments => AreLegible segments
  | segment name args => IsName name ∧ AreLegible args
  | arguments _ items _ => AreLegible items
  | qualified selfType traitPath rest =>
    IsLegible selfType ∧ AreLegible traitPath ∧ AreLegible rest
  | record target body => IsLegible target ∧ AreLegible body
  | initializer attributes member value =>
    AreLegible attributes ∧ Token.IsLegible [member] ∧ AreLegible value
  | constrained head between clause => AreLegible head ∧ AreLegible between ∧ AreLegible clause
  | block head attributes body => AreLegible head ∧ AreLegible attributes ∧ AreLegible body

/-- The same for each of some trees. -/
def AreLegible : List Tree → Prop
  | [] => True
  | tree :: rest => IsLegible tree ∧ AreLegible rest

end

attribute [simp] IsLegible

@[simp]
theorem areLegible_nil : AreLegible [] :=
  trivial

@[simp]
theorem areLegible_cons {tree : Tree} {rest : List Tree} :
    AreLegible (tree :: rest) ↔ tree.IsLegible ∧ AreLegible rest := by
  rw [AreLegible]

theorem areLegible_iff {trees : List Tree} : AreLegible trees ↔ ∀ tree ∈ trees, tree.IsLegible := by
  induction trees with
  | nil => simp
  | cons tree rest ih => simp [ih]

@[simp]
theorem areLegible_append {before after : List Tree} :
    AreLegible (before ++ after) ↔ AreLegible before ∧ AreLegible after := by
  simp [areLegible_iff, or_imp, forall_and]

section Printing

variable {f : Mention → String}

theorem isLegible_lifetimesFirst {items : List (Bool × List Token)} {trailing : Bool}
    (each : ∀ item ∈ items, Token.IsLegible item.2) :
    Token.IsLegible (lifetimesFirst items trailing) := by
  have comma : Token.IsLegible [.punct ',' false] :=
    Token.IsLegible.symbols (show ∀ c ∈ ",".toList, _ from by decide)
  have comma? (needed : Bool) : Token.IsLegible (if needed then [.punct ',' false] else []) := by
    split
    · exact comma
    · exact .nil
  have put : ∀ item ∈ items.mapIdx (fun i item =>
      (item.1, item.2, trailing || decide (i + 1 < items.length))),
      Token.IsLegible (item.2.1 ++ if item.2.2 = true then [.punct ',' false] else []) := by
    intro item member
    obtain ⟨i, inside, rfl⟩ := List.mem_mapIdx.mp member
    exact (each _ (List.getElem_mem inside)).append (comma? _)
  unfold lifetimesFirst
  exact .append (.append (.flatMap fun item member => put item (List.mem_filter.mp member).1)
    (comma? _)) (.flatMap fun item member => put item (List.mem_filter.mp member).1)

theorem isLegible_joinColons {parts : List (List Token)}
    (each : ∀ part ∈ parts, Token.IsLegible part) : Token.IsLegible (joinColons parts) := by
  have colons : Token.IsLegible (Token.operator "::") := .symbols (by decide)
  induction parts with
  | nil => exact .nil
  | cons part rest ih =>
    have first := each part List.mem_cons_self
    have later := ih fun p member => each p (List.mem_cons_of_mem _ member)
    cases rest with
    | nil => exact first
    | cons next rest => exact (first.append colons).append later

theorem isLegible_braces {inner : List Token} (inside : Token.IsLegible inner) :
    Token.IsLegible (.opening .brace :: (inner ++ [.closing .brace])) :=
  .group .brace inside

mutual

/-- What is printed of a legible tree is legible, whatever the names that it mentions become. -/
theorem IsLegible.tokens {tree : Tree} (legible : tree.IsLegible) (named : KeepsNames f) :
    Token.IsLegible (tree.mapNames f).tokens := by
  cases tree with
  | token t =>
    simpa only [mapNames, Tree.tokens, IsLegible] using legible
  | lifetime name => exact .lifetime (named (.lifetime name) (IsLegible.eq_2 _ ▸ legible))
  | group delimiter children =>
    exact .group delimiter (AreLegible.tokensOf (IsLegible.eq_3 _ _ ▸ legible) named)
  | seq children =>
    rw [IsLegible] at legible
    rcases legible with together | each
    · exact together f named
    · exact AreLegible.tokensOf each named
  | path isGlobal segments =>
    rw [IsLegible] at legible
    have colons : Token.IsLegible (Token.operator "::") := .symbols (by decide)
    cases isGlobal with
    | true => exact colons.append (isLegible_joinColons (AreLegible.tokensEach legible named))
    | false => exact isLegible_joinColons (AreLegible.tokensEach_mapHead legible named)
  | segment name args =>
    rw [IsLegible] at legible
    exact .cons (.word legible.1) (AreLegible.tokensOf legible.2 named)
  | arguments turbofish items trailing =>
    rw [IsLegible] at legible
    have inside : Token.IsLegible (lifetimesFirst (Tree.tokensMarked (mapNamesAll f items)) trailing) :=
      isLegible_lifetimesFirst (AreLegible.tokensMarked legible named)
    refine ((Token.IsLegible.append ?_ (.symbols (by decide))).append inside).append
      (.symbols (by decide))
    split
    · exact .symbols (by decide)
    · exact .nil
  | qualified selfType traitPath rest =>
    rw [IsLegible] at legible
    obtain ⟨inType, inTrait, inRest⟩ := legible
    have path := AreLegible.tokensOf inTrait named
    have after := isLegible_joinColons (AreLegible.tokensEach inRest named)
    refine ((((Token.IsLegible.append (.symbols (by decide))
      (IsLegible.tokens inType named)).append ?_).append (.symbols (by decide))).append
        (.symbols (by decide))).append after
    split
    · exact .nil
    · exact .cons (.word (by decide)) path
  | record target body =>
    rw [IsLegible] at legible
    exact (IsLegible.tokens legible.1 named).append
      (isLegible_braces (AreLegible.tokensOf legible.2 named))
  | initializer attributes member value =>
    rw [IsLegible] at legible
    obtain ⟨before, own, after⟩ := legible
    refine (Token.IsLegible.append (AreLegible.tokensOf before named)
      (.cons own ?_)).append (AreLegible.tokensOf after named)
    split
    · exact .nil
    · exact .symbols (by decide)
  | constrained head between clause =>
    rw [IsLegible] at legible
    obtain ⟨inHead, inBetween, inClause⟩ := legible
    exact (AreLegible.tokensOf inHead named).append
      ((AreLegible.tokensOf inBetween named).append (AreLegible.tokensOf inClause named))
  | block head attributes body =>
    rw [IsLegible] at legible
    obtain ⟨inHead, inAttributes, inBody⟩ := legible
    exact (AreLegible.tokensOf inHead named).append (isLegible_braces
      ((AreLegible.tokensOf inAttributes named).append (AreLegible.tokensOf inBody named)))

theorem AreLegible.tokensOf {trees : List Tree} (legible : AreLegible trees)
    (named : KeepsNames f) : Token.IsLegible (Tree.tokensOf (mapNamesAll f trees)) := by
  cases trees with
  | nil => exact .nil
  | cons tree rest =>
    rw [AreLegible] at legible
    exact (IsLegible.tokens legible.1 named).append (AreLegible.tokensOf legible.2 named)

theorem AreLegible.tokensEach {trees : List Tree} (legible : AreLegible trees)
    (named : KeepsNames f) :
    ∀ part ∈ Tree.tokensEach (mapNamesAll f trees), Token.IsLegible part := by
  cases trees with
  | nil => exact nofun
  | cons tree rest =>
    rw [AreLegible] at legible
    rw [mapNamesAll, Tree.tokensEach, List.forall_mem_cons]
    exact ⟨IsLegible.tokens legible.1 named, AreLegible.tokensEach legible.2 named⟩

theorem AreLegible.tokensEach_mapHead {trees : List Tree} (legible : AreLegible trees)
    (named : KeepsNames f) :
    ∀ part ∈ Tree.tokensEach (mapHead f (mapNamesAll f trees)), Token.IsLegible part := by
  cases trees with
  | nil => exact nofun
  | cons tree rest =>
    rw [AreLegible] at legible
    have later := AreLegible.tokensEach legible.2 named
    have first := IsLegible.tokens legible.1 named
    cases tree with
    | segment name args =>
      rw [IsLegible] at legible
      rw [mapNamesAll, mapNames, mapHead, Tree.tokensEach, List.forall_mem_cons]
      exact ⟨.cons (.word (named (.value name) legible.1.1)) (AreLegible.tokensOf legible.1.2 named), later⟩
    | _ =>
      rw [mapNamesAll]
      simp only [mapNames, mapHead, Tree.tokensEach, List.forall_mem_cons] at first ⊢
      exact ⟨first, later⟩

theorem AreLegible.tokensMarked {trees : List Tree} (legible : AreLegible trees)
    (named : KeepsNames f) :
    ∀ item ∈ Tree.tokensMarked (mapNamesAll f trees), Token.IsLegible item.2 := by
  cases trees with
  | nil => exact nofun
  | cons tree rest =>
    rw [AreLegible] at legible
    rw [mapNamesAll, Tree.tokensMarked, List.forall_mem_cons]
    exact ⟨IsLegible.tokens legible.1 named, AreLegible.tokensMarked legible.2 named⟩

end

end Printing

end Tree

end Forwarding
