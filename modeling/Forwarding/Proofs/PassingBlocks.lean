import Forwarding.Proofs.PassingItems
/-!
Blocks and files. Readers of impl blocks, structs and whole files pass over what is printed of a
forwarding type.
-/

namespace Forwarding.Grammar.Parser

open Lexeme

variable {g : Grammar} {after : List Token}

/-- Of two values either is given. -/
theorem passes_pure_ite {α : Type} {condition : Prop} [Decidable condition] (a b : α) :
    Passes (if condition then pure a else pure b) after after := by
  split
  · exact passes_pure a
  · exact passes_pure b

section Members

/-- The tokens of an associated type with its value. -/
def aliasTokens (name : String) (type : List Token) : List Token :=
  .ident "type" :: .ident name :: .punct '=' false :: (type ++ [.punct ';' false])

theorem passes_typeAlias {name : String} {type : List Token} (allowed : isIdentifier name = true)
    (read : Passes g.type (type ++ .punct ';' false :: after) (.punct ';' false :: after)) :
    Passes (typeAlias g true .afterValue) (aliasTokens name type ++ after) after := by
  have split : aliasTokens name type ++ after =
      .ident "type" :: .ident name :: .punct '=' false :: (type ++ .punct ';' false :: after) := by
    simp [aliasTokens]
  have noParts : Passes (genericParameters g)
      (.punct '=' false :: (type ++ .punct ';' false :: after))
      (.punct '=' false :: (type ++ .punct ';' false :: after)) :=
    passes_seesOperator_bind.mpr (passes_if rfl (passes_pure _))
  rw [split]
  refine (takes_visibility_none rfl).passes_bind (passes_if rfl ((takes_word?_none rfl).passes_bind
    ((takes_word "type").passes_bind ((takes_identifier allowed).passes_bind
      (noParts.bind fun generics => (takes_operator?_none rfl).passes_bind ?_)))))
  refine passes_else (by exact Bool.false_ne_true) ((takes_pure _).passes_bind (passes_if rfl
    ((takes_pure _).passes_bind (passes_seesOperator_bind.mpr (passes_if rfl ?_)))))
  refine (takes_operator (by decide) (by decide)).passes_bind (read.bind fun value => ?_)
  have noClause : Passes (withWhere g generics) (.punct ';' false :: after)
      (.punct ';' false :: after) :=
    passes_seesWord_bind.mpr (passes_if rfl (passes_pure _))
  refine (takes_pure _).passes_bind (noClause.bind fun full => ?_)
  exact (takes_operator (by decide) (by decide)).passes_bind (passes_pure _)

theorem passes_implMember_alias {name : String} {type : List Token}
    (allowed : isIdentifier name = true)
    (read : Passes g.type (type ++ .punct ';' false :: after) (.punct ';' false :: after)) :
    Passes (implMember g) (aliasTokens name type ++ after) after := by
  have declared := passes_typeAlias allowed read
  refine passes_get_bind fun i _ _ => (takes_outerAttributes_none rfl).passes_bind
    (passes_get_bind fun start none shown => ?_)
  refine (takes_visibility_none rfl).passes_bind (passes_get_bind fun _ _ _ => ?_)
  refine passes_seesWord_bind.mpr (passes_peek2_bind fun flag =>
    passes_else (by exact Bool.false_ne_true) ((takes_pure _).passes_bind ?_))
  refine (takes_beginsSignature (by decide)).passes_bind (passes_else (by decide) ?_)
  refine passes_seesWord_bind.mpr (passes_else (by exact Bool.false_ne_true) ?_)
  refine passes_seesWord_bind.mpr (passes_if rfl ?_)
  refine passes_set_bind none shown fun _ => declared.bind fun found => ?_
  split
  · exact (passes_get_bind fun _ _ _ => passes_pure _).bind fun _ => passes_pure _
  · exact passes_pure _

end Members

section Blocks

/-- The tokens of a member of an impl block. -/
structure IsMember (g : Grammar) (part : List Token) : Prop where
  lexable : Token.IsLexable part
  filled : part ≠ []
  noHash : ∀ rest, ahead (part ++ rest) (.operator "#") = false
  read : ∀ rest, Passes (implMember g) (part ++ rest) rest

variable {declared predicates members : List (List Token)}

theorem whereTokens_append (predicates : List (List Token)) (after : List Token) :
    Begins typeEnds (whereTokens predicates ++ .opening .brace :: after) ∧
      ahead (whereTokens predicates ++ .opening .brace :: after) (.word "for") = false := by
  have listed : Begins [.ident "where", .opening .brace]
      (whereTokens predicates ++ .opening .brace :: after) := by
    cases predicates
    all_goals
      rintro t first
      cases first
      decide
  refine ⟨listed.mono (by decide), ?_⟩
  cases predicates <;> rfl

theorem passes_braced_members (each : ∀ part ∈ members, IsMember g part) :
    Passes (braced g (untilEnd (implMember g))) (bodyTokens members.flatten ++ after) after := by
  refine passes_braced (.flatten fun part member => (each part member).lexable.matched) ?_
    (passes_untilEnd fun part member =>
      ⟨⟨(each part member).lexable.matched, (each part member).filled⟩, (each part member).read⟩)
  cases members with
  | nil => rfl
  | cons part parts => exact (each part List.mem_cons_self).noHash _

/-- The tokens of an impl block. -/
def implTokens (declared : List (List Token)) (trait? : Option (List Token)) (self : List Token)
    (predicates members : List (List Token)) : List Token :=
  .ident "impl" :: (angledTokens declared
    ++ ((trait?.map (· ++ [.ident "for"])).getD [] ++ self
      ++ (whereTokens predicates ++ bodyTokens members.flatten)))

theorem beginsParameter_separated {part : List Token} {parts : List (List Token)}
    (declared : IsDeclared g part) (after : List Token) :
    BeginsParameter
      (Token.separated "," false (part :: parts) ++ .punct '>' false :: after) := by
  rw [Token.separated, List.append_assoc]
  cases parts with
  | nil => exact declared.begins _ (by decide) _
  | cons second others => exact declared.begins (.punct ',' false) (by decide) _

theorem exists_takes_beginsImplGenerics (each : ∀ part ∈ declared, IsDeclared g part)
    (ended : ahead after (.operator "<") = false) :
    ∃ flag, Takes beginsImplGenerics (angledTokens declared ++ after) flag
        (angledTokens declared ++ after) ∧
      Passes (if flag = true then genericParameters g else pure .none)
        (angledTokens declared ++ after) after := by
  have read := passes_genericParameters each ended
  cases declared with
  | nil =>
    refine ⟨false, takes_seesOperator_bind.mpr ?_, passes_pure _⟩
    rw [show angledTokens [] ++ after = after from rfl, ended]
    exact takes_pure _
  | cons part parts =>
    refine ⟨true, ?_, read⟩
    rw [angledTokens, List.isEmpty_cons, if_neg Bool.false_ne_true, List.cons_append,
      List.append_assoc]
    exact takes_beginsImplGenerics (beginsParameter_separated (each part List.mem_cons_self) _)

theorem passes_implItem (attributes : List Attribute) {trait? : Option (List Token)}
    {self : List Token} (declares : ∀ part ∈ declared, IsDeclared g part)
    (requires : ∀ part ∈ predicates, IsRequired g part)
    (holds : ∀ part ∈ members, IsMember g part)
    (readTrait : ∀ trait ∈ trait?, ∀ rest,
      Passes g.type (trait ++ .ident "for" :: rest) (.ident "for" :: rest))
    (readSelf : ∀ rest, Begins typeEnds rest → Passes g.type (self ++ rest) rest)
    (plain : ∀ e ∈ [Expectation.operator "<", .word "const", .operator "?", .operator "!"],
      ∀ rest, ahead ((trait?.map (· ++ [.ident "for"])).getD [] ++ self ++ rest) e = false) :
    Passes (implItem g attributes) (implTokens declared trait? self predicates members ++ after)
      after := by
  have split : implTokens declared trait? self predicates members ++ after =
      .ident "impl" :: (angledTokens declared ++ ((trait?.map (· ++ [.ident "for"])).getD [] ++ self
        ++ (whereTokens predicates ++ (bodyTokens members.flatten ++ after)))) := by
    simp [implTokens]
  have body : bodyTokens members.flatten ++ after =
      .opening .brace :: (members.flatten ++ .closing .brace :: after) := by
    simp [bodyTokens]
  have braces : Passes (braced g (untilEnd (implMember g))) (bodyTokens members.flatten ++ after)
      after := passes_braced_members holds
  rw [body] at braces split
  rw [split]
  refine (takes_visibility_none rfl).passes_bind ((takes_word?_none rfl).passes_bind
    ((takes_word?_none rfl).passes_bind ((takes_word "impl").passes_bind ?_)))
  have absent (e : Expectation)
      (listed : e ∈ [Expectation.operator "<", .word "const", .operator "?", .operator "!"]) :=
    plain e listed (whereTokens predicates ++ .opening .brace ::
      (members.flatten ++ .closing .brace :: after))
  obtain ⟨flag, begins, read⟩ := exists_takes_beginsImplGenerics declares
    (absent (.operator "<") (by decide))
  refine begins.passes_bind (passes_ite_bind read fun generics => ?_)
  refine passes_seesWord_bind.mpr (passes_seesOperator_bind.mpr (passes_peek2_bind fun _ =>
    passes_else ?_ ?_))
  · rw [absent (.word "const") (by decide), absent (.operator "?") (by decide), Bool.false_and]
    exact Bool.false_ne_true
  refine passes_seesOperator_bind.mpr (passes_peek2_bind fun _ => passes_else ?_
    ((takes_pure _).passes_bind ?_))
  · rw [absent (.operator "!") (by decide), Bool.false_and]
    exact Bool.false_ne_true
  obtain ⟨ends, noFor⟩ :=
    whereTokens_append predicates (members.flatten ++ .closing .brace :: after)
  cases trait? with
  | none =>
    refine (readSelf _ ends).bind fun first => passes_seesWord_bind.mpr (passes_else ?_ ?_)
    · rw [noFor]
      exact Bool.false_ne_true
    exact (takes_pure _).passes_bind ((passes_withWhere requires _).bind fun generics =>
      braces.bind fun found => passes_pure_ite _ _)
  | some trait =>
    have read := (readTrait trait rfl (self ++ (whereTokens predicates ++ .opening .brace ::
      (members.flatten ++ .closing .brace :: after))))
    simp only [Option.map_some, Option.getD_some, List.append_assoc, List.cons_append,
      List.nil_append]
    refine read.bind fun first => passes_seesWord_bind.mpr (passes_if rfl ?_)
    refine (takes_word "for").passes_bind ((readSelf _ ends).bind fun own => ?_)
    exact (takes_pure _).passes_bind ((passes_withWhere requires _).bind fun generics =>
      braces.bind fun found => passes_pure_ite _ _)

end Blocks

section Structs

variable {declared predicates : List (List Token)} {type : List Token}

theorem passes_namedField {name : String} (allowed : isIdentifier name = true)
    (read : Passes g.type (type ++ after) after) :
    Passes (namedField g) (parameterTokens name type ++ after) after := by
  have noWord {word : String} (keyword : isIdentifier word = false) :
      ahead (parameterTokens name type ++ after) (.word word) = false :=
    isIdentifier_ne allowed keyword
  refine (takes_outerAttributes_none rfl).passes_bind
    ((takes_visibility_none (noWord (by decide))).passes_bind (passes_seesWord_bind.mpr ?_))
  refine passes_else (ne_true_of_eq_false (noWord (by decide)))
    ((takes_identifier allowed).passes_bind
      ((takes_operator (by decide) (by decide)).passes_bind ?_))
  refine passes_seesWord_bind.mpr (passes_seesWord_bind.mpr (passes_peek2_bind fun flag => ?_))
  refine passes_else ?_ (read.bind fun found => passes_pure _)
  rw [noWord (by decide), Bool.false_and]
  exact Bool.false_ne_true

/-- The only field of a struct with a comma behind it. -/
theorem passes_namedFields {name : String} (allowed : isIdentifier name = true)
    (matched : IsMatched type)
    (read : Passes g.type (type ++ [Token.punct ',' false]) [.punct ',' false]) :
    Passes (namedFields g)
      (bodyTokens (parameterTokens name type ++ [Token.punct ',' false]) ++ after) after := by
  have field := passes_namedField allowed read
  have listed : Passes (punctuated "," atEnd (namedField g))
      (parameterTokens name type ++ [Token.punct ',' false]) [] := by
    refine passes_get_bind fun i _ _ => passes_atEnd_bind.mpr
      (passes_else (by exact Bool.false_ne_true) (field.bind fun value => ?_))
    refine passes_atEnd_bind.mpr (passes_else (by exact Bool.false_ne_true) ?_)
    refine (takes_operator (by decide) (by decide)).passes_bind ?_
    cases i.rest.length with
    | zero => exact (takes_pure _).passes_bind (passes_pure _)
    | succ count =>
      refine Passes.bind (passes_atEnd_bind.mpr (passes_if rfl (passes_pure _))) fun _ =>
        passes_pure _
  have inside : IsMatched (parameterTokens name type ++ [Token.punct ',' false]) :=
    ((matched.append (.leaf rfl .nil)).leaf rfl).leaf rfl
  rw [bodyTokens, List.cons_append, List.append_assoc]
  exact (passes_grouped listed inside).bind fun found => passes_pure _

theorem passes_structBody {rest : List Token} (requires : ∀ part ∈ predicates, IsRequired g part)
    (read : Passes (namedFields g) (.opening .brace :: rest) after) (generics : Generics) :
    Passes (structBody g generics) (whereTokens predicates ++ .opening .brace :: rest) after := by
  refine passes_seesWord_bind.mpr ((passes_withWhere requires _).bind fun generics => ?_)
  refine passes_peek_bind.mpr (passes_else ?_ (passes_peek_bind.mpr (passes_if rfl ?_)))
  · rw [show ahead (.opening .brace :: rest) (.group .parenthesis) = false from rfl, Bool.and_false]
    exact Bool.false_ne_true
  · exact read.bind fun found => passes_pure _

/-- The tokens of a struct with one field. -/
def structTokens (name : String) (declared predicates : List (List Token)) (field : String)
    (type : List Token) : List Token :=
  .ident "pub" :: .ident "struct" :: .ident name :: (angledTokens declared
    ++ (whereTokens predicates ++ bodyTokens (parameterTokens field type ++ [.punct ',' false])))

theorem passes_structItem (attributes : List Attribute) {name field : String}
    (named : isIdentifier name = true) (named' : isIdentifier field = true)
    (declares : ∀ part ∈ declared, IsDeclared g part)
    (requires : ∀ part ∈ predicates, IsRequired g part) (matched : IsMatched type)
    (read : Passes g.type (type ++ [Token.punct ',' false]) [.punct ',' false]) :
    Passes (structItem g attributes) (structTokens name declared predicates field type ++ after)
      after := by
  have fields : Passes (namedFields g)
      (bodyTokens (parameterTokens field type ++ [Token.punct ',' false]) ++ after) after :=
    passes_namedFields named' matched read
  have split : structTokens name declared predicates field type ++ after =
      .ident "pub" :: .ident "struct" :: .ident name :: (angledTokens declared
        ++ (whereTokens predicates
          ++ (bodyTokens (parameterTokens field type ++ [Token.punct ',' false]) ++ after))) := by
    simp [structTokens]
  rw [split]
  rw [bodyTokens, List.cons_append, List.append_assoc] at fields ⊢
  refine (takes_visibility_pub _).passes_bind ((takes_word "struct").passes_bind
    (passes_place_bind fun start => (takes_identifier named).passes_bind ?_))
  have noAngle (rest : List Token) :
      ahead (whereTokens predicates ++ .opening .brace :: rest) (.operator "<") = false :=
    (whereTokens_append predicates rest).1.noOperator (by decide)
  refine (passes_genericParameters declares (noAngle _)).bind fun generics => ?_
  exact (passes_structBody requires fields generics).bind fun found => passes_pure _

end Structs

section Items

variable {attributes : List (List Token)} {tokens : List Token}

theorem passes_itemOf_struct (marked : ∀ part ∈ attributes, IsAttribute g part)
    (read : ∀ attributes, Passes (structItem g attributes)
      (.ident "pub" :: .ident "struct" :: tokens) after) :
    Passes (itemOf g) (attributes.flatten ++ .ident "pub" :: .ident "struct" :: tokens) after := by
  have outer : Passes (outerAttributes g)
      (attributes.flatten ++ .ident "pub" :: .ident "struct" :: tokens)
      (.ident "pub" :: .ident "struct" :: tokens) :=
    passes_outerAttributes marked rfl
  refine passes_get_bind fun i _ _ => outer.bind fun found =>
    passes_get_bind fun start none shown => ?_
  refine (takes_visibility_pub _).passes_bind (passes_get_bind fun _ _ _ => ?_)
  refine (takes_beginsSignature (by decide)).passes_bind (passes_else (by decide) ?_)
  iterate 7 refine passes_seesWord_bind.mpr (passes_else (by exact Bool.false_ne_true) ?_)
  refine passes_seesWord_bind.mpr (passes_if rfl ?_)
  exact passes_set_bind none shown fun _ => (read found).bind fun item => passes_pure _

theorem passes_itemOf_impl (marked : ∀ part ∈ attributes, IsAttribute g part)
    (read : ∀ attributes, Passes (implItem g attributes) (.ident "impl" :: tokens) after) :
    Passes (itemOf g) (attributes.flatten ++ .ident "impl" :: tokens) after := by
  have outer : Passes (outerAttributes g) (attributes.flatten ++ .ident "impl" :: tokens)
      (.ident "impl" :: tokens) :=
    passes_outerAttributes marked rfl
  refine passes_get_bind fun i _ _ => outer.bind fun found =>
    passes_get_bind fun start none shown => ?_
  refine (takes_visibility_none rfl).passes_bind (passes_get_bind fun _ _ _ => ?_)
  refine (takes_beginsSignature (by decide)).passes_bind (passes_else (by decide) ?_)
  iterate 9 refine passes_seesWord_bind.mpr (passes_else (by exact Bool.false_ne_true) ?_)
  refine passes_seesWord_bind.mpr (passes_peek2_bind fun _ =>
    passes_else (by exact Bool.false_ne_true) ?_)
  refine passes_seesWord_bind.mpr (passes_seesWord_bind.mpr (passes_peek2_bind fun _ =>
    passes_else (by exact Bool.false_ne_true) ?_))
  refine passes_seesWord_bind.mpr (passes_seesWord_bind.mpr (passes_peek2_bind fun _ =>
    passes_if rfl ?_))
  refine passes_set_bind none shown fun _ => (read found).bind fun item => ?_
  cases item with
  | some found => exact passes_pure _
  | none => exact (passes_get_bind fun _ _ _ => passes_pure _).bind fun _ => passes_pure _

/-- A file without attributes of its own. -/
theorem passes_file {parts : List (List Token)}
    (each : ∀ part ∈ parts, (IsMatched part ∧ part ≠ []) ∧
      ∀ rest, Passes g.item (part ++ rest) rest)
    (begins : ∃ more, parts.flatten = .punct '#' false :: .opening .bracket :: more) :
    Passes (file g) parts.flatten [] := by
  exact (takes_innerAttributes_none (.inr begins)).passes_bind (passes_untilEnd each)

end Items

end Forwarding.Grammar.Parser
