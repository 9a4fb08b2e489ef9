import Forwarding.Proofs.Accessors
/-!
The parameters of a forwarding type. They are declared by the names and kinds that are recorded of
the winner, in their order, and so are the functions with what they take and give. The bounds of a
constant are the exception: some are recorded if the constructor's block bounds what it passes for
the constant, and no declaration of a constant has bounds.
-/

namespace Forwarding

namespace Lexer

open Lexeme

theorem Spells.unmarked {rest text : List Char} {t : Token} {tokens : List Token}
    (spelled : Spells rest text (t :: tokens)) : (text.head? == some byteOrderMark) = false := by
  have apart : ∃ c, text.head? = some c ∧ c ≠ byteOrderMark := by
    cases spelled with
    | @blank c _ _ separates _ =>
      refine ⟨c, rfl, ?_⟩
      rintro rfl
      revert separates
      decide
    | token stands _ =>
      obtain ⟨c, first, -, apart⟩ := stands.begins
      exact ⟨c, by rw [List.head?_append, first]; rfl, apart⟩
  obtain ⟨c, first, other⟩ := apart
  rw [first]
  simpa using other

/-- The lexemes of a text begin with what the text spells at its beginning. -/
theorem tokensOf_lex_of_spells {text rest : List Char} {t : Token} {tokens : List Token}
    {lexemes : List Lexeme} (spelled : Spells rest text (t :: tokens))
    (lexed : lex text = .ok lexemes) : ∃ more, tokensOf lexemes = t :: (tokens ++ more) := by
  unfold lex at lexed
  have unmarked := spelled.unmarked
  rw [byteOrderMark] at unmarked
  simp only [unmarked, Bool.false_eq_true, if_false] at lexed
  obtain ⟨fuel, -, read⟩ := spelled.words (Nat.lt_succ_self _)
  rw [← words_scan _ .first] at read
  exact ⟨_, (tokensOf_balance lexed).trans (congrArg Prod.fst read)⟩

end Lexer

namespace Lexeme

theorem exists_leaf_of_tokensOf {lexemes : List Lexeme} {t : Token} {tokens : List Token}
    (shown : tokensOf lexemes = t :: tokens) (noBracket : t.isBracket = false) :
    ∃ place rest, lexemes = .leaf t place :: rest ∧ tokensOf rest = tokens := by
  cases lexemes with
  | nil => cases shown
  | cons lexeme rest =>
    rw [tokensOf] at shown
    cases lexeme with
    | leaf found place =>
      obtain ⟨rfl, same⟩ := List.cons.inj shown
      exact ⟨place, rest, rfl, same⟩
    | group delimiter body start stop =>
      rw [Lexeme.tokens] at shown
      obtain ⟨rfl, -⟩ := List.cons.inj shown
      cases noBracket

end Lexeme

/-- How a declared parameter is mentioned. -/
def GenericParameter.argument : GenericParameter → Tree
  | lifetime _ name _ _ => .lifetime name
  | type _ name _ _ _ => .word name
  | const _ name _ _ => .word name

/-- A declaration has the name and the kind that are recorded of a parameter, and no attributes. -/
inductive GenericParam.DeclaredBy : GenericParam → GenericParameter → Prop
  | lifetime {name : String} {recorded canonical bounds : List String} {trailing : Bool} :
      DeclaredBy ⟨(Tree.lifetime name).render, .lifetime, recorded, canonical⟩
        (.lifetime [] name bounds trailing)
  | type {name : String} {recorded canonical : List String} {bounds : List Tree} {trailing : Bool}
      {byDefault : Option Tree} :
      DeclaredBy ⟨name, .type, recorded, canonical⟩ (.type [] name bounds trailing byDefault)
  | const {name text : String} {recorded canonical : List String} {declared : Tree}
      {byDefault : Option Tree} :
      DeclaredBy ⟨name, .const text, recorded, canonical⟩ (.const [] name declared byDefault)

namespace Grammar.Parser

variable {g : Grammar} {i j : Input}

theorem reads_outerAttributes_none {attributes : List Attribute}
    (absent : sees i.rest (.operator "#") = false) :
    Reads (outerAttributes g) i attributes j ↔ j = i ∧ attributes = [] := by
  simp only [outerAttributes, repeated, repeatUpTo, reads_bind, reads_get, reads_seesOperator,
    absent, existsAndEq, Bool.false_eq_true, if_false, reads_pure]
  simp

theorem reads_typeParameter {given : List Attribute} {name : String} {place : Position}
    {rest : List Lexeme} {q : GenericParameter} (first : i.rest = .leaf (.ident name) place :: rest)
    (read : Reads (typeParameter g given) i q j) :
    ∃ bounds trailing byDefault, q = .type given name bounds trailing byDefault := by
  have absent : sees i.rest (.operator "#") = false := by rw [first]; rfl
  simp only [typeParameter, reads_bind, reads_ite, reads_outerAttributes_none absent, existsAndEq,
    reads_identifier, reads_pure, first, List.cons.injEq, Lexeme.leaf.injEq, Token.ident.injEq,
    List.append_nil] at read
  grind

theorem reads_lifetimeParameter {given : List Attribute} {name : String} {start place : Position}
    {rest : List Lexeme} {q : GenericParameter}
    (first : i.rest =
      .leaf (.punct Token.apostrophe true) start :: .leaf (.ident name) place :: rest)
    (read : Reads (lifetimeParameter g given) i q j) :
    ∃ bounds trailing, q = .lifetime given name bounds trailing := by
  have absent : sees i.rest (.operator "#") = false := by rw [first]; rfl
  have named : dropLifetime i.rest = some (name, rest) := by rw [first]; rfl
  simp only [lifetimeParameter, reads_bind, reads_ite, reads_outerAttributes_none absent,
    existsAndEq, lifetime, reads_get, named, reads_set, reads_pure, List.append_nil] at read
  grind

theorem reads_constParameter {given : List Attribute} {name : String} {start place : Position}
    {rest : List Lexeme} {q : GenericParameter}
    (first : i.rest = .leaf (.ident "const") start :: .leaf (.ident name) place :: rest)
    (read : Reads (constParameter g given) i q j) :
    ∃ declared byDefault, q = .const given name declared byDefault := by
  have absent : sees i.rest (.operator "#") = false := by rw [first]; rfl
  simp only [constParameter, reads_bind, reads_ite, reads_outerAttributes_none absent, existsAndEq,
    reads_word, reads_identifier, reads_pure, first, List.cons.injEq, Lexeme.leaf.injEq,
    Token.ident.injEq, List.append_nil] at read
  grind

theorem reads_genericParameter_type {name : String} {place : Position} {rest : List Lexeme}
    {q : GenericParameter} (first : i.rest = .leaf (.ident name) place :: rest)
    (allowed : isIdentifier name = true) (read : Reads (genericParameter g) i q j) :
    ∃ bounds trailing byDefault, q = .type [] name bounds trailing byDefault := by
  have absent : sees i.rest (.operator "#") = false := by rw [first]; rfl
  have identifier : sees i.rest .identifier = true := by rw [first]; exact allowed
  simp only [genericParameter, reads_bind, reads_outerAttributes_none absent, existsAndEq,
    reads_peek, identifier, if_true, true_and] at read
  exact reads_typeParameter first read

theorem reads_genericParameter_lifetime {name : String} {start place : Position}
    {rest : List Lexeme} {q : GenericParameter}
    (first : i.rest =
      .leaf (.punct Token.apostrophe true) start :: .leaf (.ident name) place :: rest)
    (read : Reads (genericParameter g) i q j) :
    ∃ bounds trailing, q = .lifetime [] name bounds trailing := by
  have absent : sees i.rest (.operator "#") = false := by rw [first]; rfl
  have identifier : sees i.rest .identifier = false := by rw [first]; rfl
  have mark : sees i.rest .lifetime = true := by rw [first]; rfl
  simp only [genericParameter, reads_bind, reads_outerAttributes_none absent, existsAndEq,
    reads_peek, identifier, mark, if_true, Bool.false_eq_true, if_false, true_and] at read
  exact reads_lifetimeParameter first read

theorem reads_genericParameter_const {name : String} {start place : Position}
    {rest : List Lexeme} {q : GenericParameter}
    (first : i.rest = .leaf (.ident "const") start :: .leaf (.ident name) place :: rest)
    (read : Reads (genericParameter g) i q j) :
    ∃ declared byDefault, q = .const [] name declared byDefault := by
  have absent : sees i.rest (.operator "#") = false := by rw [first]; rfl
  have identifier : sees i.rest .identifier = false := by rw [first]; rfl
  have mark : sees i.rest .lifetime = false := by rw [first]; rfl
  have word : sees i.rest (.word "const") = true := by rw [first]; rfl
  simp only [genericParameter, reads_bind, reads_outerAttributes_none absent, existsAndEq,
    reads_peek, reads_seesWord, identifier, mark, word, if_true, Bool.false_eq_true, if_false,
    true_and] at read
  exact reads_constParameter first read

end Grammar.Parser

namespace GenericParam

open Lexer Lexeme Grammar Grammar.Parser

theorem exists_reads {p : Grammar → Parser GenericParameter} {text : String} {rest : List Char}
    {t : Token} {tokens : List Token} {q : GenericParameter}
    (spelled : Spells rest text.toList (t :: tokens)) (parsed : parseText p text = .ok q) :
    ∃ g i j more, tokensOf i.rest = t :: (tokens ++ more) ∧ Reads (p g) i q j := by
  obtain ⟨lexemes, lexed, parsed⟩ := parseText_eq_ok_iff.mp parsed
  obtain ⟨more, shown⟩ := tokensOf_lex_of_spells spelled lexed
  obtain ⟨j, read, -⟩ := runAll_eq_ok_iff.mp parsed
  exact ⟨_, ⟨lexemes, .first, none⟩, j, more, shown, read⟩

/-- A parameter is named by an identifier, a lifetime by a word. -/
def IsNamed (p : GenericParam) : Prop :=
  match p.kind with
  | .lifetime => ∃ name, Lexer.IsName name ∧ p.name = (Tree.lifetime name).render
  | _ => IsIdentifier p.name

theorem toList_declaration (p : GenericParam) (varies : ∀ text, p.kind ≠ .const text) :
    ∃ rest, p.declaration.toList = p.name.toList ++ rest ∧ EndsWord rest := by
  have same : p.declaration =
      if p.bounds.isEmpty then p.name else p.name ++ ": " ++ " + ".intercalate p.bounds := by
    unfold declaration
    split
    · rename_i text kind
      exact absurd kind (varies text)
    · rfl
  rw [same]
  split
  · exact ⟨[], (List.append_nil _).symm, endsWord_nil⟩
  · refine ⟨_, ?_, endsWord_colon (' ' :: (" + ".intercalate p.bounds).toList)⟩
    rw [String.toList_append, String.toList_append, List.append_assoc]
    rfl

/-- What is recorded of a parameter is read back as a declaration of its name and kind. -/
theorem declaredBy_of_parseText {p : GenericParam} {q : GenericParameter} (named : p.IsNamed)
    (parsed : parseText genericParameter p.declaration = .ok q) : p.DeclaredBy q := by
  obtain ⟨name, kind, bounds, canonical⟩ := p
  cases kind with
  | type =>
    have named : IsIdentifier name := named
    obtain ⟨rest, text, ends⟩ := toList_declaration ⟨name, .type, bounds, canonical⟩
      fun _ same => by cases same
    obtain ⟨g, i, j, more, shown, read⟩ := exists_reads (text ▸ spells_name named.1 ends) parsed
    obtain ⟨place, after, first, -⟩ := exists_leaf_of_tokensOf shown rfl
    obtain ⟨_, _, _, rfl⟩ := reads_genericParameter_type first named.2 read
    exact .type
  | lifetime =>
    obtain ⟨word, named, rfl⟩ := named
    generalize lifetime : GenericParam.mk (Tree.lifetime word).render .lifetime bounds canonical = p
      at parsed
    obtain ⟨rest, text, ends⟩ := toList_declaration p fun _ same => by
      rw [← lifetime] at same
      cases same
    have spelled := spells_lifetime named ends
    rw [← show p.name = (Tree.lifetime word).render by rw [← lifetime], ← text] at spelled
    obtain ⟨g, i, j, more, shown, read⟩ := exists_reads spelled parsed
    obtain ⟨start, after, first, shown⟩ := exists_leaf_of_tokensOf shown rfl
    obtain ⟨place, later, rfl, -⟩ := exists_leaf_of_tokensOf shown rfl
    obtain ⟨_, _, rfl⟩ := reads_genericParameter_lifetime first read
    rw [← lifetime]
    exact .lifetime
  | const type =>
    have named : IsIdentifier name := named
    have const : IsName "const" := by decide +kernel
    have blank : EndsWord (' ' :: (name.toList ++ ':' :: ' ' :: type.toList)) := by
      rintro c first
      cases first
      decide
    have spelled := (spells_name const blank).append (.blank (by decide)
      (spells_name named.1 (endsWord_colon (' ' :: type.toList))))
    have text : (declaration ⟨name, .const type, bounds, canonical⟩).toList =
        "const".toList ++ ' ' :: (name.toList ++ ':' :: ' ' :: type.toList) := by
      simp [declaration]
    obtain ⟨g, i, j, more, shown, read⟩ := exists_reads (text ▸ spelled) parsed
    obtain ⟨start, after, first, shown⟩ := exists_leaf_of_tokensOf shown rfl
    obtain ⟨place, later, rfl, -⟩ := exists_leaf_of_tokensOf shown rfl
    obtain ⟨_, _, rfl⟩ := reads_genericParameter_const first read
    exact .const

theorem IsNamed.exists_declared {p : GenericParam} (named : p.IsNamed) {group : String}
    {entry : Tree × Tree} (made : Artifact.parameter group p = .ok entry) :
    ∃ q : GenericParameter, entry = (q.tree, q.argument) ∧ p.DeclaredBy q ∧
      (p.IsPlain → q.boundTrees.map Tree.render = p.writtenBounds) := by
  unfold Artifact.parameter at made
  cases read : Artifact.fragment group genericParameter p.declaration with
  | error failure =>
    rw [read] at made
    cases made
  | ok q =>
    rw [read] at made
    dsimp only [bind, Except.bind] at made
    have parsed := Artifact.fragment_eq_ok_iff.mp read
    have declared := declaredBy_of_parseText named parsed
    have bounded (plain : p.IsPlain) : q.boundTrees.map Tree.render = p.writtenBounds := by
      obtain ⟨other, parsed', bounds⟩ := plain.exists_parseText
      rw [parsed] at parsed'
      cases parsed'
      exact bounds
    have word {name : String} (named : IsIdentifier name) :
        Artifact.identifier group name = .ok name :=
      Artifact.fragment_eq_ok_iff.mpr (parseText_identifier named)
    refine ⟨q, ?_, declared, bounded⟩
    cases declared with
    | @lifetime name =>
      obtain ⟨other, named, same⟩ := named
      have inner : name = other := by
        have chars := congrArg String.toList same
        rw [toList_render_lifetime, toList_render_lifetime] at chars
        exact String.toList_inj.mp (List.cons.inj chars).2
      have given : Artifact.fragment group (fun _ => Parser.lifetime)
          (Tree.lifetime name).render = .ok name :=
        Artifact.fragment_eq_ok_iff.mpr (parseText_lifetime (inner ▸ named))
      dsimp only at made
      rw [given] at made
      exact (Except.ok.inj made).symm
    | type =>
      rw [word named] at made
      exact (Except.ok.inj made).symm
    | const =>
      rw [word named] at made
      exact (Except.ok.inj made).symm

/-- The first bound of a parameter without bounds is always written. -/
theorem bounds_addAll_eq_nil_iff {struct : Generics} {p : GenericParam}
    (records : p.Records struct []) (written : List Scoped) :
    (p.addAll struct written).bounds = [] ↔ written = [] := by
  obtain ⟨more, part, final⟩ := records.addAll written
  rw [List.nil_append] at final
  rw [final.bounds, List.map_eq_nil_iff]
  constructor
  · rintro rfl
    refine List.eq_nil_iff_forall_not_mem.mpr fun s member => ?_
    have listed : s.canonical ∈ (p.addAll struct written).canonicalBounds :=
      mem_addAll.mpr (.inr ⟨s, member, rfl⟩)
    obtain ⟨other, absent, -⟩ := (final.canonical s.canonical).mp listed
    cases absent
  · rintro rfl
    exact List.sublist_nil.mp part

end GenericParam

/-- The where clause of a struct bounds none of its constants. -/
theorem Generics.boundsAt_const {struct : Generics} {position : Nat} {attributes : List Attribute}
    {name : String} {type : Tree} {byDefault : Option Tree}
    (declared : struct.params[position]? = some (.const attributes name type byDefault)) :
    Condition.boundsAt position (struct.whereConditions struct (.declared struct)) = [] := by
  refine List.eq_nil_iff_forall_not_mem.mpr fun s member => ?_
  obtain ⟨predicate, -, required⟩ := List.mem_flatMap.mp (Condition.mem_boundsAt.mp member)
  unfold WherePredicate.conditions at required
  split at required
  · rename_i subject
    obtain ⟨tree, -, same⟩ := List.mem_map.mp required
    cases same
    cases predicate with
    | lifetime other bounds trailing =>
      obtain ⟨param, present, mentioned⟩ := Mention.exists_param (m := .lifetime other) subject
      rw [declared] at present
      cases present
      cases mentioned
    | type binder bounded bounds trailing =>
      cases binder with
      | some tree => cases subject
      | none =>
        have typed := (Option.filter_eq_some_iff.mp subject).2
        simp [Generics.isType, declared] at typed
  · cases List.mem_singleton.mp required

namespace Scan.Origin

variable {o : Origin} {d : Definition} {position : Nat} {p : GenericParam}

/-- Bounds of a constant are recorded exactly if the block of the constructor bounds what it passes
for the constant. -/
theorem Describes.bounds_const_eq_nil_iff (described : o.Describes d)
    (present : d.generics[position]? = some p) {text : String} (kind : p.kind = .const text) :
    p.bounds = [] ↔ Condition.boundsAt position
      (o.constructor.block.generics.conditions o.struct.generics o.names) = [] := by
  obtain ⟨param, declared, folded⟩ := described.exists_param present
  rw [Requirements.ofBoth_params, declared, Option.map_some, Option.some.injEq] at folded
  have records := GenericParam.ofDeclared_records o.struct.generics param
  rw [← folded, GenericParam.kind_addAll] at kind
  cases param with
  | const attributes name type byDefault =>
    rw [← folded, GenericParam.bounds_addAll_eq_nil_iff records, Requirements.conditions,
      Condition.boundsAt, List.filterMap_append]
    have own := Generics.boundsAt_const declared
    rw [Condition.boundsAt] at own
    rw [own]
    rfl
  | _ => cases kind

end Scan.Origin

namespace Scan.Site.Records

variable {c : Conventions} {site : Site} {o : Origin} {d : Definition} {module : List String}

theorem generic_isNamed (recorded : site.Records c o d) (named : site.IsNamed module)
    {p : GenericParam} (member : p ∈ d.generics) (filled : p.name ≠ "_") : p.IsNamed := by
  obtain ⟨position, present⟩ := List.getElem?_of_mem member
  obtain ⟨param, declared, name, kind⟩ := recorded.described.declares present
  have word := named.struct.generics param
    (recorded.struct_eq ▸ List.mem_of_getElem? declared)
  rw [GenericParam.IsNamed, kind]
  cases param with
  | type attributes other bounds trailing byDefault =>
    rw [name] at filled ⊢
    exact word.resolve_right filled
  | const attributes other type byDefault =>
    rw [name]
    exact word
  | lifetime attributes other bounds trailing => exact ⟨other, word, name⟩

end Scan.Site.Records

namespace Artifact

open Grammar

/-- A forwarding type is made of what is recorded of a winner, each part in the recorded order. -/
structure Mirrors (group : String) (d : Definition) (t : ForwardingType) : Prop where
  name : parseText (fun _ => Parser.identifier) group = .ok t.name
  winner : parseText (fun g => Grammar.path g false) d.typePath = .ok t.winner
  constructor : t.constructor = d.constructor
  generics : ∃ declared : List GenericParameter, t.declared = declared.map (·.tree) ∧
    t.arguments = declared.map (·.argument) ∧
    List.Forall₂ (fun p q => p.DeclaredBy q ∧
      (p.IsPlain → q.boundTrees.map Tree.render = p.writtenBounds)) d.generics declared
  predicates : ∃ stated : List WherePredicate, t.predicates = stated.map (·.tree) ∧
    List.Forall₂ (fun text p => parseText wherePredicate text = .ok p) d.predicates stated
  params : List.Forall₂ (fun p entry => entry.1 = p.name ∧
    parseText Grammar.type p.shape.type = .ok entry.2) d.params t.params
  properties : List.Forall₂ (fun p entry => entry.1 = p.2.name ∧
    parseText Grammar.type p.2.type = .ok entry.2) d.properties t.properties

end Artifact

namespace Scan.Site.Records

variable {c : Conventions} {site : Site} {o : Origin} {d : Definition} {module : List String}
  {group : String} {t : ForwardingType}

theorem mirrors (recorded : site.Records c o d) (named : site.IsNamed module)
    (reads : Artifact.ReadsAs group d t) : Artifact.Mirrors group d t where
  name := reads.name
  winner := reads.path
  constructor := recorded.reads_constructor named reads
  generics := by
    obtain ⟨entries, made, declared, arguments⟩ := reads.generics
    have each := (List.forall₂_and_left _ _).mpr
      ⟨fun p member => member, (mapM_eq_ok_iff _ _ _).mp made⟩
    obtain ⟨found, rfl, related⟩ := exists_map_of_forall₂
      (each.imp fun p entry (⟨member, given⟩ : p ∈ d.generics ∧ _) => by
        have parses := (Artifact.exists_parameter_iff.mp ⟨entry, given⟩).2
        have filled := (recorded.nameParses_iff named member).mp parses
        exact (recorded.generic_isNamed named member filled).exists_declared given)
    rw [List.map_map] at declared arguments
    exact ⟨found, declared, arguments, related⟩
  predicates := by
    obtain ⟨stated, made, same⟩ := reads.predicates
    exact ⟨stated, same, ((mapM_eq_ok_iff _ _ _).mp made).imp
      fun _ _ => Artifact.fragment_eq_ok_iff.mp⟩
  params := by
    have each := (List.forall₂_and_left _ _).mpr
      ⟨recorded.params_isNamed named, (mapM_eq_ok_iff _ _ _).mp reads.params⟩
    exact each.imp fun p entry ⟨word, given⟩ => (Artifact.named_ok (.inl word) given).2
  properties := by
    have each := (List.forall₂_and_left _ _).mpr
      ⟨recorded.property_isNamed named, (mapM_eq_ok_iff _ _ _).mp reads.properties⟩
    exact each.imp fun p entry ⟨word, given⟩ => (Artifact.named_ok word given).2

end Scan.Site.Records

namespace Artifact

/-- The functions of the inherent impl block are the constructor, the two accessors of each property
and the function that gives the winner back. -/
theorem Mirrors.functionNames_members {group : String} {d : Definition} {t : ForwardingType}
    (mirrors : Mirrors group d t) :
    Tree.functionNames t.members = d.constructor ::
      (d.properties.flatMap (fun (_, p) => [p.name, unraw p.name ++ "_mut"]) ++
        ["into_inner"]) := by
  have names : t.properties.map (·.1) = d.properties.map (·.2.name) :=
    map_eq_map_of_forall₂ (mirrors.properties.imp fun _ _ both => both.1)
  have listed := congrArg
    (List.flatMap fun name : String => [name, unraw name ++ "_mut"]) names
  rw [List.flatMap_map, List.flatMap_map] at listed
  rw [ForwardingType.functionNames_members, mirrors.constructor]
  exact congrArg (fun names => d.constructor :: (names ++ ["into_inner"])) listed

/-- An artifact mirrors its winner, with one exception: a constant is declared without the bounds
that are recorded of it, and some are recorded exactly if the block of the constructor bounds what
it passes for the constant. -/
theorem mirrors_winner {c : Conventions} {unit : SourceUnit} {definitions : List Definition}
    {r : Resolution} {a : Artifact} (scanned : Scan.scan c unit = .ok definitions)
    (won : r.winner ∈ definitions) (made : ofResolution r = .ok a) :
    ∃ t, Mirrors r.name r.winner t ∧
      a.contents = layout [t.declaration (documentation r),
        t.inherentHead ++ [.group .brace t.members], t.dereferencing] ∧
      Tree.functionNames t.members = r.winner.constructor ::
        (r.winner.properties.flatMap (fun (_, p) => [p.name, unraw p.name ++ "_mut"]) ++
          ["into_inner"]) ∧
      ∃ o ∈ Scan.origins c unit, o.Describes r.winner ∧
        ∀ position p text, r.winner.generics[position]? = some p → p.kind = .const text →
          (p.bounds = [] ↔ Condition.boundsAt position
            (o.constructor.block.generics.conditions o.struct.generics o.names) = []) := by
  obtain ⟨t, succeeded, rfl⟩ := ofResolution_ok made
  obtain ⟨site, stands, o, recorded⟩ := Scan.exists_records scanned won
  have mirrors := recorded.mirrors (Scan.isNamed_of_sites stands) (readsAs_of_read succeeded)
  refine ⟨t, mirrors, by rw [← t.inherent_eq], mirrors.functionNames_members, o,
    List.mem_filterMap.mpr ⟨site, stands, recorded.origin⟩, recorded.described, ?_⟩
  intro position p text present kind
  exact recorded.described.bounds_const_eq_nil_iff present kind

/-- A unit with a struct of one constant, and a block that bounds what it passes for it. -/
def misbound : SourceUnit :=
  ⟨"src/lib.rs", ["crate"],
    "#[variant_merge(name=\"G\",priority=1)]pub struct H<const N:usize>\x7bpub a:u8\x7d" ++
      "impl<T:Clone> H<T>\x7bpub fn new(a:u8)->Self\x7bH\x7ba\x7d\x7d\x7d"⟩

theorem scan_misbound :
    ∃ d a t, Scan.scan {} misbound = .ok [d] ∧ ofResolution ⟨"G", d, []⟩ = .ok a ∧
      read "G" d = .ok t ∧ d.generics = [⟨"N", .const "usize", ["Clone"], ["Clone"]⟩] ∧
      t.declared.map Tree.render = ["const N : usize"] ∧ t.predicates.map Tree.render = [] := by
  have computed : (Scan.scan {} misbound).toOption.map
      (·.map fun d => (d.generics, (read "G" d).toOption.map fun t =>
        (t.declared.map Tree.render, t.predicates.map Tree.render))) =
      some [([⟨"N", .const "usize", ["Clone"], ["Clone"]⟩], some (["const N : usize"], []))] := by
    rw [Scan.scan_of_hasChars misbound (.append .literal .literal)]
    decide +kernel
  obtain ⟨d, scanned, found⟩ := Scan.exists_single computed
  obtain ⟨generics, declared⟩ := Prod.mk.inj found
  obtain ⟨t, present, texts⟩ := Option.map_eq_some_iff.mp declared
  obtain ⟨params, predicates⟩ := Prod.mk.inj texts
  cases succeeded : read "G" d with
  | error failure =>
    rw [succeeded] at present
    cases present
  | ok found =>
    rw [succeeded] at present
    cases present
    obtain ⟨a, made⟩ : ∃ a, ofResolution ⟨"G", d, []⟩ = .ok a := by
      unfold ofResolution
      rw [succeeded]
      exact ⟨_, rfl⟩
    exact ⟨d, a, t, scanned, made, succeeded, generics, params, predicates⟩

theorem mirrors_winner_misbound :
    ∃ d a, Scan.scan {} misbound = .ok [d] ∧ ofResolution ⟨"G", d, []⟩ = .ok a ∧
      ∃ t, Mirrors "G" d t ∧ ∃ o ∈ Scan.origins {} misbound,
        Condition.boundsAt 0 (o.constructor.block.generics.conditions o.struct.generics o.names) ≠
          [] := by
  obtain ⟨d, a, -, scanned, made, -, generics, -⟩ := scan_misbound
  obtain ⟨t, mirrors, -, -, o, origin, -, constants⟩ :=
    mirrors_winner scanned (List.mem_singleton_self d) made
  have present : d.generics[0]? = some ⟨"N", .const "usize", ["Clone"], ["Clone"]⟩ := by
    rw [generics]
    rfl
  refine ⟨d, a, scanned, made, t, mirrors, o, origin, fun none => ?_⟩
  have bounds := (constants 0 _ "usize" present rfl).mpr none
  cases bounds

/-- The bound of the constant is recorded and not declared. -/
theorem bounds_dropped_misbound :
    ∃ d t, Scan.scan {} misbound = .ok [d] ∧ read "G" d = .ok t ∧
      d.generics = [⟨"N", .const "usize", ["Clone"], ["Clone"]⟩] ∧
      t.declared.map Tree.render = ["const N : usize"] ∧ t.predicates.map Tree.render = [] := by
  obtain ⟨d, -, t, scanned, -, succeeded, dropped⟩ := scan_misbound
  exact ⟨d, t, scanned, succeeded, dropped⟩

end Artifact

end Forwarding
