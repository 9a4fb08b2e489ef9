import Forwarding.Proofs.Recorded
import Forwarding.Proofs.Recording
import Forwarding.Proofs.PlainSources
/-!
The word for the type being declared. It means the winner where a definition stands, and the
forwarding type where what the definition records is emitted. No type of a constructor's parameter
has it. What else is recorded has it exactly if the syntax at the struct or the impl block has it:
restating names does not make nor lose it.
-/

namespace Forwarding

/-- New names for mentions that keep the word for the type being declared, and give it to nothing
else. -/
def Mention.KeepsSelf (f : Mention → String) : Prop :=
  ∀ name, f (.value name) = "Self" ↔ name = "Self"

namespace Tree

variable {f : Mention → String}

theorem beginsWithSelf_mapNamesAll (f : Mention → String) (segments : List Tree) :
    beginsWithSelf (mapNamesAll f segments) = beginsWithSelf segments := by
  cases segments with
  | nil => rfl
  | cons first rest => cases first <;> rfl

theorem beginsWithSelf_mapHead (keeps : Mention.KeepsSelf f) (segments : List Tree) :
    beginsWithSelf (mapHead f segments) = beginsWithSelf segments := by
  cases segments with
  | nil => rfl
  | cons first rest =>
    cases first with
    | segment name args =>
      exact Bool.eq_iff_iff.mpr (by simpa [mapHead, beginsWithSelf] using keeps name)
    | _ => rfl

theorem anyMentionsSelf_mapHead (f : Mention → String) (segments : List Tree) :
    anyMentionsSelf (mapHead f segments) = anyMentionsSelf segments := by
  cases segments with
  | nil => rfl
  | cons first rest => cases first <;> rfl

theorem isEmpty_mapNamesAll (f : Mention → String) (trees : List Tree) :
    (mapNamesAll f trees).isEmpty = trees.isEmpty := by
  cases trees <;> rfl

mutual

theorem mentionsSelf_mapNames (keeps : Mention.KeepsSelf f) (tree : Tree) :
    (tree.mapNames f).mentionsSelf = tree.mentionsSelf := by
  cases tree with
  | token t => rfl
  | lifetime name => rfl
  | group delimiter children =>
    simp only [mapNames, mentionsSelf, anyMentionsSelf_mapNamesAll keeps children]
  | seq children => simp only [mapNames, mentionsSelf, anyMentionsSelf_mapNamesAll keeps children]
  | path isGlobal segments =>
    have inside := anyMentionsSelf_mapNamesAll keeps segments
    cases isGlobal with
    | true =>
      simp only [mapNames, if_true, mentionsSelf, beginsWithSelf_mapNamesAll, inside]
    | false =>
      simp only [mapNames, Bool.false_eq_true, if_false, mentionsSelf,
        beginsWithSelf_mapHead keeps, beginsWithSelf_mapNamesAll, anyMentionsSelf_mapHead, inside]
  | segment name args =>
    simp only [mapNames, mentionsSelf, anyMentionsSelf_mapNamesAll keeps args]
  | arguments turbofish items trailing =>
    simp only [mapNames, mentionsSelf, anyMentionsSelf_mapNamesAll keeps items]
  | qualified selfType traitPath rest =>
    simp only [mapNames, mentionsSelf, mentionsSelf_mapNames keeps selfType,
      anyMentionsSelf_mapNamesAll keeps traitPath, anyMentionsSelf_mapNamesAll keeps rest,
      isEmpty_mapNamesAll, beginsWithSelf_mapNamesAll]
  | record target body =>
    simp only [mapNames, mentionsSelf, mentionsSelf_mapNames keeps target,
      anyMentionsSelf_mapNamesAll keeps body]
  | initializer attributes member value =>
    simp only [mapNames, mentionsSelf, anyMentionsSelf_mapNamesAll keeps attributes,
      anyMentionsSelf_mapNamesAll keeps value]
  | constrained head between clause =>
    simp only [mapNames, mentionsSelf, anyMentionsSelf_mapNamesAll keeps head,
      anyMentionsSelf_mapNamesAll keeps between, anyMentionsSelf_mapNamesAll keeps clause]
  | block head attributes body =>
    simp only [mapNames, mentionsSelf, anyMentionsSelf_mapNamesAll keeps head,
      anyMentionsSelf_mapNamesAll keeps attributes, anyMentionsSelf_mapNamesAll keeps body]

theorem anyMentionsSelf_mapNamesAll (keeps : Mention.KeepsSelf f) (trees : List Tree) :
    anyMentionsSelf (mapNamesAll f trees) = anyMentionsSelf trees := by
  cases trees with
  | nil => rfl
  | cons tree rest =>
    simp only [mapNamesAll, anyMentionsSelf, mentionsSelf_mapNames keeps tree,
      anyMentionsSelf_mapNamesAll keeps rest]

end

end Tree

theorem GenericParameter.IsNamed.mention_ne {p : GenericParameter} (named : p.IsNamed) :
    p.mention ≠ .value "Self" := by
  have keyword : ¬ IsIdentifier "Self" := by decide
  cases p with
  | lifetime => exact fun same => nomatch same
  | type attributes name bounds trailing byDefault =>
    intro same
    cases same
    exact named.elim keyword (by decide)
  | const attributes name type byDefault =>
    intro same
    cases same
    exact keyword named

namespace Generics.IsNamed

variable {g struct : Generics} {names : GenericNames}

theorem value_toDeclared_ne (named : struct.IsNamed) (position : Nat) :
    (Renaming.toDeclared struct).value position ≠ "Self" := by
  simp only [Renaming.toDeclared]
  split
  · rename_i attributes name bounds trailing byDefault present
    have other := (named _ (List.mem_of_getElem? present)).mention_ne
    exact fun same => other (same ▸ rfl)
  · rename_i attributes name type byDefault present
    have other := (named _ (List.mem_of_getElem? present)).mention_ne
    exact fun same => other (same ▸ rfl)
  · decide

theorem keepsSelf (named : struct.IsNamed) (absent : names.position (.value "Self") = Option.none) :
    Mention.KeepsSelf ((Renaming.toDeclared struct).ofMention names) := by
  intro name
  simp only [Renaming.ofMention, Renaming.ofValue]
  cases found : names.valuePosition name with
  | none => exact Iff.rfl
  | some position =>
    refine iff_of_false (named.value_toDeclared_ne position) ?_
    rintro rfl
    exact absurd (found.symm.trans absent) (by simp)

/-- No parameter has the word for its name. -/
theorem position_declared (named : g.IsNamed) :
    (GenericNames.declared g).position (.value "Self") = Option.none := by
  rw [Option.eq_none_iff_forall_ne_some]
  intro position found
  obtain ⟨param, present, same⟩ := Mention.exists_param found
  exact (named param (List.mem_of_getElem? present)).mention_ne same

theorem position_ofImpl? (named : g.IsNamed) {selfType : Tree} {arity : Nat}
    (given : GenericNames.ofImpl? g selfType arity = some names) :
    names.position (.value "Self") = Option.none := by
  rw [Option.eq_none_iff_forall_ne_some]
  intro position found
  obtain ⟨mentions, rfl, -, listed⟩ := GenericNames.ofImpl?_eq_some given
  have member := List.mem_of_getElem? (GenericNames.getElem?_of_position found)
  obtain ⟨param, present, same⟩ := List.mem_map.mp (listed _ member)
  exact (named param present).mention_ne same

end Generics.IsNamed

/-- The recorded texts of a definition that stand in a forwarding type beside the types of the
constructor's parameters: the types of properties, the bounds and the predicates. -/
def Definition.fragments (d : Definition) : List String :=
  d.properties.map (·.2.type) ++ (d.generics.flatMap (·.bounds) ++ d.predicates)

namespace Scan

/-- The types of the fields that other modules see. -/
def Origin.fieldTypes (o : Origin) : List Scoped :=
  (o.struct.fields.withNames.filter (·.visibility.isExported)).map fun field =>
    ⟨.declared o.struct.generics, field.type⟩

/-- The syntax of which a definition records texts, the types of the constructor's parameters
aside. -/
def Origin.moved (o : Origin) : List Scoped :=
  o.fieldTypes ++ (o.bounds ++ o.predicates)

theorem Origin.names_of_mem {o : Origin} {s : Scoped} (member : s ∈ o.types ∨ s ∈ o.moved) :
    s.names = .declared o.struct.generics ∨ s.names = o.names := by
  rcases member with member | member
  · obtain ⟨tree, -, rfl⟩ := List.mem_map.mp member
    exact .inr rfl
  · simp only [moved, fieldTypes, bounds, predicates, List.mem_append, List.mem_map] at member
    rcases member with ⟨_, -, rfl⟩ | (⟨_, -, rfl⟩ | ⟨_, -, rfl⟩) | (⟨_, -, rfl⟩ | ⟨_, -, rfl⟩)
    · exact .inl rfl
    · exact .inl rfl
    · exact .inr rfl
    · exact .inl rfl
    · exact .inr rfl

namespace Site.Records

variable {c : Conventions} {site : Site} {o : Origin} {d : Definition} {module : List String}

/-- Syntax has the word in the names of the struct exactly if it has it as it is written. -/
theorem mentionsSelf_restate (recorded : site.Records c o d) (named : site.IsNamed module)
    {s : Scoped} (member : s ∈ o.types ∨ s ∈ o.moved) :
    (s.restate o.struct.generics).mentionsSelf = s.tree.mentionsSelf := by
  obtain ⟨same, found, used⟩ := Site.origin?_eq_some recorded.origin
  obtain ⟨beside, -⟩ := Constructor.find_ok found
  have own : o.struct.generics.IsNamed := same ▸ named.struct.generics
  have absent : s.names.position (.value "Self") = none := by
    rcases Origin.names_of_mem member with names | names
    · rw [names]
      exact own.position_declared
    · rw [names]
      exact (named.blocks _ beside).generics.position_ofImpl?
        (Constructor.names_eq_ok_iff.mp used).2.2.2.2
  rw [Scoped.restate, Renaming.apply_eq_mapNames]
  exact Tree.mentionsSelf_mapNames (own.keepsSelf absent) s.tree

/-- Every recorded fragment is the text of syntax at the struct or at the block. -/
theorem exists_source (recorded : site.Records c o d) {text : String}
    (member : text ∈ d.fragments) :
    ∃ s ∈ o.moved, text = (s.restate o.struct.generics).render := by
  rcases List.mem_append.mp member with property | member
  · obtain ⟨entry, listed, rfl⟩ := List.mem_map.mp property
    rw [recorded.properties, ← recorded.struct_eq] at listed
    obtain ⟨field, present, exported, -, type⟩ := StructItem.exists_field entry listed
    refine ⟨⟨.declared o.struct.generics, field.type⟩, List.mem_append_left _
      (List.mem_map.mpr ⟨field, List.mem_filter.mpr ⟨present, exported⟩, rfl⟩), ?_⟩
    rw [Scoped.restate_declared, type]
  rcases List.mem_append.mp member with bound | predicate
  · obtain ⟨p, declared, listed⟩ := List.mem_flatMap.mp bound
    obtain ⟨written, stated, records⟩ := recorded.described.records declared
    rw [records.bounds] at listed
    obtain ⟨s, inside, rfl⟩ := List.mem_map.mp listed
    exact ⟨s, List.mem_append_right _ (List.mem_append_left _ (stated s inside)), rfl⟩
  · obtain ⟨s, stated, same⟩ := recorded.described.exists_predicate predicate
    exact ⟨s, List.mem_append_right _ (List.mem_append_right _ stated), same.symm⟩

/-- The types of a constructor's parameters do not have the word. -/
theorem mentionsSelf_types (recorded : site.Records c o d) {s : Scoped} (member : s ∈ o.types) :
    s.tree.mentionsSelf = false := by
  obtain ⟨tree, listed, rfl⟩ := List.mem_map.mp member
  obtain ⟨param, declared, type⟩ := List.mem_filterMap.mp listed
  obtain ⟨_, -, given⟩ :=
    exists_of_mem_left (Constructor.paramsFrom_ok recorded.described.listed) declared
  obtain ⟨attributes, pattern, name, own, rfl, plain, -⟩ := given
  cases type
  exact plain

end Site.Records

/-- No type of a constructor's parameter has the word for the type being declared. Any other
recorded fragment is the text of syntax that has it exactly if it is written at the struct or at the
block. -/
theorem fragments_mentionSelf {c : Conventions} {unit : SourceUnit}
    {definitions : List Definition} {d : Definition} (scanned : scan c unit = .ok definitions)
    (member : d ∈ definitions) :
    ∃ o ∈ origins c unit,
      d.params.map (·.shape.type) = o.types.map (fun s => (s.restate o.struct.generics).render) ∧
      (∀ s ∈ o.types, (s.restate o.struct.generics).mentionsSelf = false) ∧
      (∀ text ∈ d.fragments, ∃ s ∈ o.moved, text = (s.restate o.struct.generics).render ∧
        ((s.restate o.struct.generics).mentionsSelf = true ↔ s.tree.mentionsSelf = true)) := by
  obtain ⟨site, stands, o, recorded⟩ := exists_records scanned member
  have named := isNamed_of_sites stands
  refine ⟨o, List.mem_filterMap.mpr ⟨site, stands, recorded.origin⟩,
    recorded.described.types, fun s inside => ?_, fun text present => ?_⟩
  · rw [recorded.mentionsSelf_restate named (.inl inside), recorded.mentionsSelf_types inside]
  · obtain ⟨s, source, same⟩ := recorded.exists_source present
    exact ⟨s, source, same, by rw [recorded.mentionsSelf_restate named (.inr source)]⟩

/-- A unit with a struct whose one field has some type. -/
def unitOfField (type : String) : SourceUnit :=
  ⟨"src/lib.rs", ["crate"],
    "#[variant_merge(name=\"G\",priority=1)]pub struct H\x7bpub a:" ++ type ++
      "\x7dimpl H\x7bpub fn new(a:u8)->Self\x7bH\x7ba\x7d\x7d\x7d"⟩

theorem fragments_mentionSelf_field :
    ∃ d, scan {} (unitOfField "Vec<u8>") = .ok [d] ∧ d.fragments = ["Vec < u8 >"] ∧
      ∃ o ∈ origins {} (unitOfField "Vec<u8>"), ∀ text ∈ d.fragments, ∃ s ∈ o.moved,
        text = (s.restate o.struct.generics).render ∧
          ((s.restate o.struct.generics).mentionsSelf = true ↔ s.tree.mentionsSelf = true) := by
  have computed : (scan {} (unitOfField "Vec<u8>")).toOption.map (·.map Definition.fragments) =
      some [["Vec < u8 >"]] := by
    rw [scan_of_hasChars (unitOfField "Vec<u8>") (by repeat constructor)]
    decide +kernel
  obtain ⟨d, scanned, found⟩ := exists_single computed
  obtain ⟨o, given, -, -, fragments⟩ := fragments_mentionSelf scanned (List.mem_singleton_self d)
  exact ⟨d, scanned, found, o, given, fragments⟩

/-- The type of a property may have the word. -/
theorem fragments_mention :
    ∃ d tree, scan {} (unitOfField "Box<Self>") = .ok [d] ∧ d.fragments = ["Box < Self >"] ∧
      Grammar.parseText Grammar.type "Box < Self >" = .ok tree ∧ tree.mentionsSelf = true := by
  have computed : (scan {} (unitOfField "Box<Self>")).toOption.map (·.map Definition.fragments) =
      some [["Box < Self >"]] := by
    rw [scan_of_hasChars (unitOfField "Box<Self>") (by repeat constructor)]
    decide +kernel
  obtain ⟨d, scanned, found⟩ := exists_single computed
  have read : (Grammar.parseText Grammar.type "Box < Self >").toOption.map Tree.mentionsSelf =
      some true := by
    rw [Grammar.parseText_of_hasChars "Box < Self >" .literal]
    decide +kernel
  cases parsed : Grammar.parseText Grammar.type "Box < Self >" with
  | error failure =>
    rw [parsed] at read
    cases read
  | ok tree =>
    rw [parsed] at read
    exact ⟨d, tree, scanned, found, rfl, Option.some.inj read⟩

end Scan

end Forwarding
