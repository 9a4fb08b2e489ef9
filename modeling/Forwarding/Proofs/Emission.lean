import Forwarding.Proofs.ArtifactNames
import Forwarding.Proofs.PlainSources
import Forwarding.Proofs.RereadingNames
/-!
Emission. What a definition records is read back when its artifact is made. The identifiers of the
source are read back, and so is everything that is written in an everyday form. A path is not if a
module on it has a raw name that is a word of the language, for the mark is not recorded.
-/

namespace Forwarding

/-- Steps one after another succeed when the first does and the others do in any case. -/
theorem exists_bind_iff {ε α β : Type} {x : Except ε α} {f : α → Except ε β} {q : Prop}
    (next : ∀ a, (∃ b, f a = .ok b) ↔ q) : (∃ b, x >>= f = .ok b) ↔ (∃ a, x = .ok a) ∧ q := by
  cases x with
  | error failure => simp [bind, Except.bind]
  | ok a => simpa [bind, Except.bind] using next a

theorem exists_bind_pure_iff {ε α β : Type} {x : Except ε α} {f : α → β} :
    (∃ b, (x >>= fun a => pure (f a)) = .ok b) ↔ ∃ a, x = .ok a := by
  cases x <;> simp [bind, Except.bind, pure, Except.pure]

theorem exists_map_iff {ε α β : Type} {x : Except ε α} {f : α → β} :
    (∃ b, f <$> x = .ok b) ↔ ∃ a, x = .ok a := by
  cases x <;> simp [Functor.map, Except.map]

namespace Artifact

open Grammar

theorem exists_fragment_iff {α : Type} {group text : String} {p : Grammar → Grammar.Parser α} :
    (∃ value, fragment group p text = .ok value) ↔ Parses p text :=
  exists_congr fun _ => fragment_eq_ok_iff

/-- The name of a parameter is read as a lifetime or as an identifier. -/
def NameParses (p : GenericParam) : Prop :=
  match p.kind with
  | .lifetime => Parses (fun _ => Parser.lifetime) p.name
  | _ => Parses (fun _ => Parser.identifier) p.name

theorem exists_parameter_iff {group : String} {p : GenericParam} :
    (∃ trees, parameter group p = .ok trees) ↔
      Parses genericParameter p.declaration ∧ NameParses p := by
  unfold parameter NameParses
  refine (exists_bind_iff fun declared => ?_).trans (and_congr_left' exists_fragment_iff)
  cases p.kind <;> exact exists_bind_pure_iff.trans (exists_map_iff.trans exists_fragment_iff)

theorem exists_named_iff {group name typeText : String} :
    (∃ entry, named group name typeText = .ok entry) ↔
      Parses (fun _ => Parser.identifier) name ∧ Parses Grammar.type typeText :=
  (exists_bind_iff fun _ => exists_bind_pure_iff.trans exists_fragment_iff).trans
    (and_congr_left' exists_fragment_iff)

theorem exists_read_iff {group : String} {winner : Definition} :
    (∃ t, read group winner = .ok t) ↔
      Parses (fun _ => Parser.identifier) group ∧
      Parses (fun g => Grammar.path g false) winner.typePath ∧
      Parses (fun _ => Parser.identifier) winner.constructor ∧
      (∀ p ∈ winner.generics, Parses genericParameter p.declaration ∧ NameParses p) ∧
      (∀ text ∈ winner.predicates, Parses wherePredicate text) ∧
      (∀ p ∈ winner.params,
        Parses (fun _ => Parser.identifier) p.name ∧ Parses Grammar.type p.shape.type) ∧
      ∀ p ∈ winner.properties,
        Parses (fun _ => Parser.identifier) p.2.name ∧ Parses Grammar.type p.2.type := by
  refine (exists_bind_iff fun name => ?_).trans (and_congr_left' exists_fragment_iff)
  refine (exists_bind_iff fun path => ?_).trans (and_congr_left' exists_fragment_iff)
  refine (exists_bind_iff fun constructor => ?_).trans (and_congr_left' exists_fragment_iff)
  refine (exists_bind_iff fun generics => ?_).trans (and_congr_left' ?_)
  · refine (exists_bind_iff fun predicates => ?_).trans (and_congr_left' ?_)
    · refine (exists_bind_iff fun params => ?_).trans (and_congr_left' ?_)
      · exact exists_bind_pure_iff.trans ((mapM_isOk_iff _ _).trans
          (forall₂_congr fun _ _ => exists_named_iff))
      · exact (mapM_isOk_iff _ _).trans (forall₂_congr fun _ _ => exists_named_iff)
    · exact (mapM_isOk_iff _ _).trans (forall₂_congr fun _ _ => exists_fragment_iff)
  · exact (mapM_isOk_iff _ _).trans (forall₂_congr fun _ _ => exists_parameter_iff)

end Artifact

/-- The texts of a definition that its artifact reads back and that the scan does not ensure to be
readable: the names of the modules, the names for which an underscore may stand, and what is
restated of parameters, predicates and types. -/
structure Definition.IsReadable (d : Definition) : Prop where
  path : ∃ first names, d.typePath = ModulePath.render (first :: names) ∧
    ∀ name ∈ first :: names, IsSegment name
  generics : ∀ p ∈ d.generics, p.name ≠ "_" ∧ Grammar.Parses Grammar.genericParameter p.declaration
  predicates : ∀ text ∈ d.predicates, Grammar.Parses Grammar.wherePredicate text
  params : ∀ p ∈ d.params, Grammar.Parses Grammar.type p.shape.type
  properties : ∀ p ∈ d.properties, p.2.name ≠ "_" ∧ Grammar.Parses Grammar.type p.2.type

namespace Grammar

theorem Parses.identifier {name : String} (named : IsIdentifier name) :
    Parses (fun _ => Parser.identifier) name :=
  ⟨name, parseText_identifier named⟩

/-- Of the names that an underscore may stand for, the underscore alone is not read back. -/
theorem parses_identifier_iff {name : String} (named : IsIdentifier name ∨ name = "_") :
    Parses (fun _ => Parser.identifier) name ↔ name ≠ "_" := by
  constructor
  · rintro ⟨found, parsed⟩ rfl
    have none : identifierOf? "_" = none := by decide +kernel
    rw [identifierOf?_eq_some_iff.mpr parsed] at none
    cases none
  · exact fun filled => .identifier (named.resolve_right filled)

end Grammar

namespace Scan.Site.Records

open Grammar

variable {c : Conventions} {site : Site} {o : Origin} {d : Definition} {module : List String}

/-- The constructor of a site is named by an identifier, and so is every parameter of it. -/
theorem signature_isNamed (recorded : site.Records c o d) (named : site.IsNamed module) :
    o.constructor.method.signature.IsNamed := by
  obtain ⟨-, found, -⟩ := Site.origin?_eq_some recorded.origin
  obtain ⟨beside, -, declared, -⟩ := Constructor.find_ok found
  exact (named.blocks _ beside).methods _ declared

theorem params_isNamed (recorded : site.Records c o d) (named : site.IsNamed module) :
    ∀ p ∈ d.params, IsIdentifier p.name := by
  intro p member
  obtain ⟨param, listed, attributes, pattern, name, declared, rfl, -, rfl⟩ :=
    exists_of_mem_right (Constructor.paramsFrom_ok recorded.described.listed) member
  exact (recorded.signature_isNamed named).params _ listed

theorem nameParses_iff (recorded : site.Records c o d) (named : site.IsNamed module)
    {p : GenericParam} (member : p ∈ d.generics) : Artifact.NameParses p ↔ p.name ≠ "_" := by
  obtain ⟨position, present⟩ := List.getElem?_of_mem member
  obtain ⟨param, declared, name, kind⟩ := recorded.described.declares present
  have word := named.struct.generics param
    (recorded.struct_eq ▸ List.mem_of_getElem? declared)
  rw [Artifact.NameParses, kind, name]
  cases param with
  | type attributes other bounds trailing byDefault => exact parses_identifier_iff word
  | const attributes other type byDefault => exact parses_identifier_iff (.inl word)
  | lifetime attributes other bounds trailing =>
    refine iff_of_true ⟨_, parseText_lifetime word⟩ fun same => ?_
    have first := congrArg String.toList same
    rw [GenericParam.ofDeclared, Lexer.toList_render_lifetime] at first
    exact absurd (List.cons.inj first).1 (by decide)

theorem property_isNamed (recorded : site.Records c o d) (named : site.IsNamed module) :
    ∀ p ∈ d.properties, IsIdentifier p.2.name ∨ p.2.name = "_" := by
  intro p member
  rw [recorded.properties] at member
  obtain ⟨field, listed, -, given, -⟩ := StructItem.exists_field p member
  exact named.struct.fields.of_mem_withNames field listed _ given

/-- Every name on the path of a site is a word. -/
theorem words (named : site.IsNamed module) (mounted : ∀ name ∈ module, IsSegment name) :
    ∀ name ∈ site.module, Lexer.IsName name := by
  obtain ⟨between, path, each⟩ := named.module
  rw [path]
  intro name member
  rcases List.mem_append.mp member with member | member
  · exact (mounted name member).1
  · obtain ⟨written, present, rfl⟩ := List.mem_map.mp member
    rcases each written present with identifier | rfl
    · exact identifier.1.unraw
    · decide +kernel

theorem path_iff (recorded : site.Records c o d) (named : site.IsNamed module)
    (mounted : ∀ name ∈ module, IsSegment name) :
    Parses (fun g => Grammar.path g false) d.typePath ↔
      ∃ first names, d.typePath = ModulePath.render (first :: names) ∧
        ∀ name ∈ first :: names, IsSegment name := by
  constructor
  · have words := words named mounted
    rw [recorded.typePath, ModulePath.member_eq_render words]
    have words : ∀ name ∈ site.module ++ [site.struct.name], Lexer.IsName name :=
      List.forall_mem_append.mpr ⟨words, by simpa using named.struct.name.1⟩
    cases names : site.module ++ [site.struct.name] with
    | nil => simp at names
    | cons first rest =>
      rw [names] at words
      exact fun parsed => ⟨first, rest, rfl, (ModulePath.parseText_render_iff words).mp parsed⟩
  · rintro ⟨first, names, same, segments⟩
    rw [same]
    exact (ModulePath.parseText_render_iff fun name member => (segments name member).1).mpr segments

/-- The artifact of a recorded definition is made exactly when the definition is readable. -/
theorem exists_read_iff (recorded : site.Records c o d) (named : site.IsNamed module)
    (mounted : ∀ name ∈ module, IsSegment name) :
    (∃ t, Artifact.read d.name d = .ok t) ↔ d.IsReadable := by
  rw [Artifact.exists_read_iff, recorded.path_iff named mounted]
  have group : Parses (fun _ => Parser.identifier) d.name := by
    have identifier := recorded.name
    unfold isIdentifierText at identifier
    split at identifier
    · exact ⟨_, ‹_›⟩
    · cases identifier
  have constructor : Parses (fun _ => Parser.identifier) d.constructor :=
    recorded.constructor ▸ .identifier (recorded.signature_isNamed named).name
  constructor
  · rintro ⟨-, path, -, generics, predicates, params, properties⟩
    refine ⟨path, fun p member => ?_, predicates, fun p member => (params p member).2,
      fun p member => ?_⟩
    · obtain ⟨declared, name⟩ := generics p member
      exact ⟨(recorded.nameParses_iff named member).mp name, declared⟩
    · obtain ⟨name, type⟩ := properties p member
      exact ⟨(parses_identifier_iff (recorded.property_isNamed named p member)).mp name, type⟩
  · intro readable
    refine ⟨group, readable.path, constructor, fun p member => ?_, readable.predicates,
      fun p member => ⟨.identifier (recorded.params_isNamed named p member),
        readable.params p member⟩, fun p member => ?_⟩
    · obtain ⟨name, declared⟩ := readable.generics p member
      exact ⟨declared, (recorded.nameParses_iff named member).mpr name⟩
    · obtain ⟨name, type⟩ := readable.properties p member
      exact ⟨(parses_identifier_iff (recorded.property_isNamed named p member)).mpr name, type⟩

end Scan.Site.Records

theorem GenericParam.IsPlain.name_ne {p : GenericParam} (plain : p.IsPlain) : p.name ≠ "_" := by
  have keyword : ¬ IsIdentifier "_" := by decide
  cases plain with
  | type named => exact fun same => keyword (same ▸ named)
  | const named => exact fun same => keyword (same ▸ named)
  | lifetime =>
    intro same
    have first := congrArg String.toList same
    rw [Lexer.toList_render_lifetime] at first
    exact absurd (List.cons.inj first).1 (by decide)

namespace Scan

/-- A site in everyday forms, on a path of names that may stand in one. -/
structure Site.IsPlain (c : Conventions) (site : Site) : Prop where
  module : ∀ name ∈ site.module, IsSegment name
  origin : ∀ o, site.origin? c = some o → o.IsPlain

/-- What a definition records of a site in everyday forms is read back. -/
theorem Site.Records.isReadable {c : Conventions} {site : Site} {o : Origin} {d : Definition}
    {module : List String} (recorded : site.Records c o d) (named : site.IsNamed module)
    (plain : site.IsPlain c) : d.IsReadable := by
  have origin := plain.origin o recorded.origin
  have generics : o.struct.generics.IsNamed := recorded.struct_eq ▸ named.struct.generics
  have each := origin.generics_plain generics recorded.described
  refine ⟨?_, fun p member => ⟨(each p member).name_ne, (each p member).parses⟩,
    origin.predicates_parse generics recorded.described,
    origin.params_parse generics recorded.described, fun p member => ?_⟩
  · have own : IsSegment site.struct.name := ⟨named.struct.name.1, .inl named.struct.name.2⟩
    have segments : ∀ name ∈ site.module ++ [site.struct.name], IsSegment name :=
      List.forall_mem_append.mpr ⟨plain.module, by simpa using own⟩
    have words := fun name member => (plain.module name member).1
    rw [recorded.typePath, ModulePath.member_eq_render words]
    cases names : site.module ++ [site.struct.name] with
    | nil => simp at names
    | cons first rest => exact ⟨first, rest, rfl, names ▸ segments⟩
  · have fields := origin.fields
    rw [recorded.properties] at member
    rw [recorded.struct_eq] at fields
    obtain ⟨field, listed, exported, given, type⟩ := StructItem.exists_field p member
    obtain ⟨filled, everyday⟩ := fields field listed exported
    refine ⟨fun same => filled (same ▸ given), ?_⟩
    rw [type]
    exact ⟨_, everyday.parseText_render⟩

end Scan

namespace Plan

/-- When units of named modules have been collected, grouped and resolved, their artifacts are made
exactly if every winner is readable; it is readable if the unit is written in everyday forms. -/
theorem exists_artifacts_iff {c : Conventions} {units : List SourceUnit}
    {definitions : List Definition} {resolutions : List Resolution}
    (mounted : ∀ unit ∈ units, ∀ name ∈ unit.modulePath, IsSegment name)
    (collected : Scan.collect c units = .ok definitions)
    (resolved : resolve definitions = .ok resolutions) :
    ((∃ artifacts, Artifact.ofResolutions resolutions = .ok artifacts) ↔
      ∀ r ∈ resolutions, r.winner.IsReadable) ∧
    ((∀ unit ∈ units, ∀ site ∈ Scan.sites unit, site.IsPlain c) →
      ∃ artifacts, Artifact.ofResolutions resolutions = .ok artifacts) := by
  have all : (∃ artifacts, Artifact.ofResolutions resolutions = .ok artifacts) ↔
      ∀ r ∈ resolutions, r.winner.IsReadable := by
    refine (mapM_isOk_iff _ _).trans (forall₂_congr fun r member => ?_)
    obtain ⟨unit, given, site, -, o, recorded, named, group⟩ :=
      exists_records collected resolved member List.mem_cons_self
    refine exists_bind_pure_iff.trans ?_
    rw [← group]
    exact recorded.exists_read_iff named (mounted unit given)
  refine ⟨all, fun plain => all.mpr fun r member => ?_⟩
  obtain ⟨unit, given, site, stands, o, recorded, named, -⟩ :=
    exists_records collected resolved member List.mem_cons_self
  exact recorded.isReadable named (plain unit given site stands)

theorem exists_resolved {c : Conventions} {units : List SourceUnit} {β : Type}
    {f : List Resolution → β} {value : β}
    (computed : ((Scan.collect c units).toOption.bind fun definitions =>
      (resolve definitions).toOption.map f) = some value) :
    ∃ definitions resolutions, Scan.collect c units = .ok definitions ∧
      resolve definitions = .ok resolutions ∧ f resolutions = value := by
  obtain ⟨definitions, present, mapped⟩ := Option.bind_eq_some_iff.mp computed
  obtain ⟨resolutions, present', same⟩ := Option.map_eq_some_iff.mp mapped
  refine ⟨definitions, resolutions, ?_, ?_, same⟩
  · cases collected : Scan.collect c units with
    | error failure =>
      rw [collected] at present
      cases present
    | ok found =>
      rw [collected] at present
      exact congrArg _ (Option.some.inj present)
  · cases resolved : resolve definitions with
    | error failure =>
      rw [resolved] at present'
      cases present'
    | ok found =>
      rw [resolved] at present'
      exact congrArg _ (Option.some.inj present')

theorem exists_artifacts_iff_pair :
    ∃ definitions resolutions, Scan.collect {} [pair "A" "B"] = .ok definitions ∧
      resolve definitions = .ok resolutions ∧
        (∃ artifacts, Artifact.ofResolutions resolutions = .ok artifacts) ∧
          ∀ r ∈ resolutions, r.winner.IsReadable := by
  obtain ⟨p, planned, -⟩ := exists_planned_pair
  obtain ⟨definitions, collected, resolved, -⟩ := ofUnits_ok planned
  have mounted : ∀ unit ∈ [pair "A" "B"], ∀ name ∈ unit.modulePath, IsSegment name := by
    decide +kernel
  obtain ⟨all, enough⟩ := exists_artifacts_iff mounted collected resolved
  -- both structs have no parameters, and one field and one argument of a type that is a name
  have simple : ∀ site ∈ Scan.sites (pair "A" "B"), site.module = ["crate"] ∧
      ∀ o ∈ site.origin? {}, o.names.Aligned o.struct.generics ∧
        o.struct.generics.params.isEmpty ∧ o.bounds.isEmpty ∧
        (o.struct.generics.predicates ++ o.constructor.block.generics.predicates).isEmpty ∧
        (∀ s ∈ o.types, s.tree.ident? = some "u8") ∧
        ∀ field ∈ o.struct.fields.withNames, field.name = some "a" ∧
          field.type.ident? = some "u8" := by
    rw [Scan.sites_of_hasChars (pair "A" "B") (by repeat constructor)]
    decide +kernel
  have plain : ∀ site ∈ Scan.sites (pair "A" "B"), site.IsPlain {} := by
    intro site stands
    obtain ⟨module, origin⟩ := simple site stands
    refine ⟨module ▸ by decide, fun o given => ?_⟩
    obtain ⟨aligned, params, bounds, predicates, types, fields⟩ := origin o given
    rw [List.isEmpty_iff] at params bounds predicates
    have named {t : Tree} (sole : t.ident? = some "u8") : t.IsPlain :=
      .of_ident? sole (by decide) (by decide)
    refine ⟨aligned, by simp [params], fun s member => named (types s member), by simp [bounds],
      by simp [predicates], fun field listed _ => ?_⟩
    obtain ⟨name, type⟩ := fields field listed
    exact ⟨by simp [name], named type⟩
  have made := enough (by simpa using plain)
  exact ⟨definitions, p.resolutions, collected, resolved, made, all.mp made⟩

/-- A unit with a struct in a module whose name is a keyword. -/
def keywordModule : SourceUnit :=
  ⟨"src/lib.rs", ["crate"],
    "pub mod r#type\x7b#[variant_merge(name=\"G\",priority=1)]pub struct H\x7bpub a:u8\x7d" ++
      "impl H\x7bpub fn new(a:u8)->Self\x7bH\x7ba\x7d\x7d\x7d\x7d"⟩

/-- A raw name of a module loses its mark and is then a word of the language, so that the sources
are accepted and nothing can be made of them. -/
theorem exists_artifacts_fails :
    ∃ definitions resolutions failure,
      Scan.collect {} [⟨"src/lib.rs", ["crate"],
        "pub mod r#type\x7b#[variant_merge(name=\"G\",priority=1)]pub struct H\x7bpub a:u8\x7d" ++
          "impl H\x7bpub fn new(a:u8)->Self\x7bH\x7ba\x7d\x7d\x7d\x7d"⟩] = .ok definitions ∧
      resolve definitions = .ok resolutions ∧
      Artifact.ofResolutions resolutions = .error failure ∧
      failure.message = "failed to emit G.rs: cannot render `crate::type::H`: " ++
        "expected identifier, found keyword `type`" := by
  have computed : ((Scan.collect {} [keywordModule]).toOption.bind
      fun definitions => (resolve definitions).toOption.map fun resolutions =>
        match Artifact.ofResolutions resolutions with
        | .ok _ => ""
        | .error failure => failure.message) =
      some ("failed to emit G.rs: cannot render `crate::type::H`: " ++
        "expected identifier, found keyword `type`") := by
    rw [Scan.collect_singleton, Scan.scan_of_hasChars keywordModule (.append .literal .literal)]
    decide +kernel
  obtain ⟨definitions, resolutions, collected, resolved, told⟩ := exists_resolved computed
  refine ⟨definitions, resolutions, ?_⟩
  cases made : Artifact.ofResolutions resolutions with
  | ok artifacts =>
    rw [made] at told
    change "" = _ at told
    exact absurd told (by decide)
  | error failure =>
    rw [made] at told
    exact ⟨failure, collected, resolved, rfl, told⟩

end Plan

end Forwarding
