import Forwarding.Proofs.Recorded
import Forwarding.Proofs.Recording
import Forwarding.Proofs.RereadingParameters
/-!
Sources in an everyday form. Renaming the parameters of a type leaves an everyday form, so that what
a definition records of a struct and a constructor in everyday forms is read back.
-/

namespace Forwarding

/-- New names for mentions: the old ones, or words of the same sort. -/
structure Mention.KeepsWords (f : Mention → String) : Prop where
  values : ∀ name, f (.value name) = name ∨ IsIdentifier (f (.value name))
  lifetimes : ∀ name, f (.lifetime name) = name ∨ Lexer.IsName (f (.lifetime name))

namespace Mention.KeepsWords

variable {f : Mention → String}

theorem isName (keeps : KeepsWords f) {name : String} (named : Lexer.IsName name) :
    Lexer.IsName (f (.lifetime name)) := by
  rcases keeps.lifetimes name with same | other
  · rwa [same]
  · exact other

end Mention.KeepsWords

namespace Segment

variable {f : Mention → String}

/-- The segment in which every mentioned name is replaced, its own name apart. -/
def mapNames (f : Mention → String) (s : Segment) : Segment :=
  { s with
    lifetimes := s.lifetimes.map fun name => f (.lifetime name)
    types := s.types.map (Tree.mapNames f) }

/-- The first segment of a path that is not global. -/
def mapFirst (f : Mention → String) (s : Segment) : Segment :=
  { s.mapNames f with name := f (.value s.name) }

theorem items_mapNames (f : Mention → String) (s : Segment) :
    (s.mapNames f).items = s.items.map (Tree.mapNames f) := by
  simp only [items, mapNames, List.map_append, List.map_map]
  rfl

theorem tree_mapNames (f : Mention → String) (s : Segment) :
    s.tree.mapNames f = (s.mapNames f).tree := by
  rw [tree, tree, items_mapNames, Tree.mapNames]
  split
  · rename_i none
    rw [List.isEmpty_iff.mp none]
    rfl
  · rename_i some
    rw [if_neg (by simpa using some), Tree.mapNamesAll, Tree.mapNames, Tree.mapNamesAll_eq_map]
    rfl

theorem IsNamed.mapNames {s : Segment} (named : s.IsNamed) (keeps : Mention.KeepsWords f) :
    (s.mapNames f).IsNamed where
  name := named.name
  bare word := by rw [items_mapNames, named.bare word, List.map_nil]
  lifetimes name member := by
    obtain ⟨old, present, rfl⟩ := List.mem_map.mp member
    exact keeps.isName (named.lifetimes old present)

theorem IsNamed.mapFirst {s : Segment} (named : s.IsNamed) (keeps : Mention.KeepsWords f) :
    (s.mapFirst f).IsNamed := by
  have others := named.mapNames keeps
  rcases keeps.values s.name with same | identifier
  · have : s.mapFirst f = s.mapNames f := by rw [Segment.mapFirst, same]; rfl
    rwa [this]
  · refine ⟨⟨identifier.1, .inl identifier.2⟩, fun word => ?_, others.lifetimes⟩
    -- an identifier is no word of the language
    have keyword : ∀ word ∈ ["super", "self", "crate", "try"], ¬ IsIdentifier word := by decide
    exact absurd identifier (keyword _ word)

end Segment

namespace Tree

variable {f : Mention → String}

/-- The segments of a path in which every mentioned name is replaced. -/
def mapSegments (f : Mention → String) (isGlobal : Bool) (first : Segment) (more : List Segment) :
    List Segment :=
  (if isGlobal then first.mapNames f else first.mapFirst f) :: more.map (Segment.mapNames f)

theorem mapNames_path (f : Mention → String) (isGlobal : Bool) (first : Segment)
    (more : List Segment) :
    (path isGlobal ((first :: more).map Segment.tree)).mapNames f =
      path isGlobal ((mapSegments f isGlobal first more).map Segment.tree) := by
  have inside : mapNamesAll f ((first :: more).map Segment.tree) =
      (first.mapNames f).tree :: (more.map (Segment.mapNames f)).map Segment.tree := by
    rw [mapNamesAll_eq_map, List.map_map, List.map_map, List.map_cons]
    simp only [Function.comp_def, Segment.tree_mapNames]
  rw [mapNames, inside]
  cases isGlobal <;> rfl

/-- Every segment has a counterpart with the same arguments, renamed. -/
theorem exists_of_mem_mapSegments {isGlobal : Bool} {first : Segment} {more : List Segment}
    (named : ∀ s ∈ first :: more, s.IsNamed) (keeps : Mention.KeepsWords f) :
    ∀ s ∈ mapSegments f isGlobal first more, s.IsNamed ∧
      ∃ old ∈ first :: more, s.types = old.types.map (mapNames f) := by
  intro s member
  rcases List.mem_cons.mp member with rfl | later
  · have own := named first List.mem_cons_self
    cases isGlobal with
    | true => exact ⟨own.mapNames keeps, first, List.mem_cons_self, rfl⟩
    | false => exact ⟨own.mapFirst keeps, first, List.mem_cons_self, rfl⟩
  · obtain ⟨old, present, rfl⟩ := List.mem_map.mp later
    have listed := List.mem_cons_of_mem first present
    exact ⟨(named old listed).mapNames keeps, old, listed, rfl⟩

theorem mapNames_reference (f : Mention → String) (name : Option String) (mutable : Bool)
    (target : Tree) :
    (seq (operator "&" :: ((name.map lifetime).toList
        ++ (if mutable then some (word "mut") else none).toList ++ [target]))).mapNames f =
      seq (operator "&" :: (((name.map fun n => f (.lifetime n)).map lifetime).toList
        ++ (if mutable then some (word "mut") else none).toList ++ [target.mapNames f])) := by
  cases name <;> cases mutable <;> rfl

theorem mapNames_join (f : Mention → String) (separator : String) (trees : List Tree)
    (trailing : Bool) :
    mapNamesAll f (Grammar.Parser.join separator trees trailing) =
      Grammar.Parser.join separator (trees.map (mapNames f)) trailing := by
  have kept := mapNames_operator f separator
  rw [mapNamesAll_eq_map, Grammar.Parser.join, Grammar.Parser.join, List.map_append,
    map_separated _ kept, List.isEmpty_map]
  split <;> simp [kept]

theorem IsPlain.mapNames {t : Tree} (plain : t.IsPlain) (keeps : Mention.KeepsWords f) :
    (t.mapNames f).IsPlain := by
  induction plain with
  | path isGlobal first more begins named types ih =>
    have each := @exists_of_mem_mapSegments f isGlobal _ _ named keeps
    rw [mapNames_path]
    refine .path isGlobal _ _ ?_ (fun s member => (each s member).1) fun s member t inside => ?_
    · rintro rfl word
      change f (.value first.name) = "try" at word
      rcases keeps.values first.name with same | identifier
      · exact begins rfl (same.symm.trans word)
      · rw [word] at identifier
        exact absurd identifier (by decide)
    · obtain ⟨-, old, present, same⟩ := each s member
      rw [same] at inside
      obtain ⟨u, stands, rfl⟩ := List.mem_map.mp inside
      exact ih old present u stands
  | reference name mutable named plain ih =>
    rw [mapNames_reference]
    refine .reference _ mutable ?_ ih
    intro text given
    obtain ⟨old, present, rfl⟩ := Option.map_eq_some_iff.mp given
    exact keeps.isName (named old present)
  | @pointer mutable target plain ih => exact .pointer mutable ih
  | slice plain ih => exact .slice ih
  | unit => exact .unit
  | tuple first more trailing plain ih =>
    rw [Tree.mapNames, mapNamesAll, mapNamesAll, mapNames_join, mapNames_operator]
    refine .tuple _ _ trailing fun t member => ?_
    rw [← List.map_cons] at member
    obtain ⟨old, present, rfl⟩ := List.mem_map.mp member
    exact ih old present
  | never => exact .never

theorem IsPlainBound.mapNames {b : Tree} (plain : b.IsPlainBound) (keeps : Mention.KeepsWords f) :
    (b.mapNames f).IsPlainBound := by
  cases plain with
  | lifetime named => exact .lifetime (keeps.isName named)
  | trait maybe isGlobal first more named types =>
    have each := @exists_of_mem_mapSegments f isGlobal _ _ named keeps
    have same : Tree.mapNames f (seq ((if maybe then [operator "?"] else [])
        ++ [path isGlobal ((first :: more).map Segment.tree)])) =
          seq ((if maybe then [operator "?"] else [])
            ++ [path isGlobal ((mapSegments f isGlobal first more).map Segment.tree)]) := by
      rw [Tree.mapNames, mapNamesAll_eq_map, List.map_append, List.map_singleton, mapNames_path]
      cases maybe with
      | true => rw [if_pos rfl, List.map_singleton, mapNames_operator]
      | false => rfl
    rw [same]
    refine .trait maybe isGlobal _ _ (fun s member => (each s member).1) fun s member t inside => ?_
    obtain ⟨-, old, present, same⟩ := each s member
    rw [same] at inside
    obtain ⟨u, stands, rfl⟩ := List.mem_map.mp inside
    exact (types old present u stands).mapNames keeps

end Tree

namespace WherePredicate

variable {f : Mention → String}

theorem IsPlain.renamed {p : WherePredicate} (plain : p.IsPlain) (keeps : Mention.KeepsWords f) :
    (p.renamed f).IsPlain := by
  cases plain with
  | @lifetime name bounds named plain some =>
    refine .lifetime (keeps.isName named) ?_ (by simpa using some)
    intro b member
    obtain ⟨old, present, rfl⟩ := List.mem_map.mp member
    exact keeps.isName (plain old present)
  | @type bounded bounds base plain some =>
    refine .type (base.mapNames keeps) ?_ (by simpa using some)
    intro b member
    obtain ⟨old, present, rfl⟩ := List.mem_map.mp member
    exact (plain old present).mapNames keeps

end WherePredicate

/-- A generic parameter with a name of its own; the type of a constant is in an everyday form. -/
def GenericParameter.IsPlain : GenericParameter → Prop
  | .lifetime .. => True
  | .type _ name _ _ _ => name ≠ "_"
  | .const _ _ declared _ => declared.IsPlain

namespace GenericNames

variable {struct : Generics} {names : GenericNames}

/-- The names of the parameters of a struct are put for those of a block. -/
theorem Aligned.keepsWords (aligned : names.Aligned struct)
    (named : struct.IsNamed) (plain : ∀ p ∈ struct.params, p.IsPlain) :
    Mention.KeepsWords ((Renaming.toDeclared struct).ofMention names) := by
  have each (m : Mention) : (Renaming.toDeclared struct).ofMention names m = m.name ∨
      ∃ p ∈ struct.params, p.mention = m.counterpart names struct := by
    cases found : names.position m with
    | none => exact .inl (Renaming.ofMention_of_none _ found)
    | some position =>
      obtain ⟨p, present, kind⟩ := aligned.exists_param found
      exact .inr ⟨p, List.mem_of_getElem? present,
        (Mention.counterpart_of_some found present kind).symm⟩
  constructor
  · intro name
    refine (each (.value name)).imp id ?_
    rintro ⟨p, member, same⟩
    have own := named p member
    have filled := plain p member
    cases p with
    | lifetime => cases same
    | type attributes other bounds trailing byDefault =>
      cases same
      exact own.resolve_right filled
    | const attributes other type byDefault =>
      cases same
      exact own
  · intro name
    refine (each (.lifetime name)).imp id ?_
    rintro ⟨p, member, same⟩
    have own := named p member
    cases p with
    | lifetime attributes other bounds trailing =>
      cases same
      exact own
    | type => cases same
    | const => cases same

end GenericNames

/-- Everything that can be mentioned at a position is a lifetime. -/
theorem Generics.lifetime_of_mem_conditions {g struct : Generics} {names : GenericNames}
    {position : Nat} (only : ∀ m, names.position m = some position → m.isLifetime = true)
    (noType : struct.isType position = false) {s : Scoped}
    (member : .bound position s ∈ g.conditions struct names) : ∃ name, s.tree = .lifetime name := by
  rcases List.mem_append.mp member with member | member
  · obtain ⟨param, -, member⟩ := List.mem_flatMap.mp member
    unfold GenericParameter.conditions at member
    split at member
    · rename_i found
      obtain ⟨tree, stated, same⟩ := List.mem_map.mp member
      cases same
      have kind := only _ found
      cases param with
      | lifetime =>
        obtain ⟨name, -, rfl⟩ := List.mem_map.mp stated
        exact ⟨name, rfl⟩
      | type => cases kind
      | const => cases kind
    · cases member
  · obtain ⟨predicate, -, member⟩ := List.mem_flatMap.mp member
    unfold WherePredicate.conditions at member
    split at member
    · rename_i subject
      obtain ⟨tree, stated, same⟩ := List.mem_map.mp member
      cases same
      cases predicate with
      | lifetime =>
        obtain ⟨name, -, rfl⟩ := List.mem_map.mp stated
        exact ⟨name, rfl⟩
      | type binder =>
        cases binder with
        | some => cases subject
        | none =>
          have isType := (Option.filter_eq_some_iff.mp subject).2
          rw [noType] at isType
          cases isType
    · rw [List.mem_singleton] at member
      cases member

/-- The fields that have names. -/
def Fields.withNames : Fields → List Field
  | .named fields _ => fields
  | .positional .. => []
  | .unit => []

theorem Fields.IsNamed.of_mem_withNames {fields : Fields} (named : fields.IsNamed) :
    ∀ field ∈ fields.withNames, field.IsNamed := by
  cases fields with
  | named listed trailing => exact named
  | positional => exact fun field member => by cases member
  | unit => exact fun field member => by cases member

theorem mem_putKey {α : Type} {key : String} {value : α} {entries : List (String × α)}
    {entry : String × α} (member : entry ∈ putKey key value entries) :
    entry = (key, value) ∨ entry ∈ entries := by
  induction entries with
  | nil => exact .inl (List.mem_singleton.mp member)
  | cons first rest ih =>
    rw [putKey] at member
    split at member
    · exact (List.mem_cons.mp member).imp_right (List.mem_cons_of_mem _)
    · rcases List.mem_cons.mp member with rfl | later
      · exact .inr List.mem_cons_self
      · exact (ih later).imp_right (List.mem_cons_of_mem _)

theorem keys_putKey {α : Type} (key : String) (value : α) (entries : List (String × α)) :
    (putKey key value entries).map Prod.fst =
      if key ∈ entries.map Prod.fst then entries.map Prod.fst
      else entries.map Prod.fst ++ [key] := by
  induction entries with
  | nil => rfl
  | cons entry rest ih =>
    obtain ⟨k, v⟩ := entry
    rw [putKey]
    by_cases same : k = key
    · simp [same]
    · rw [if_neg same, List.map_cons, ih]
      by_cases present : key ∈ rest.map Prod.fst
      · simp [present]
      · simp [present, Ne.symm same]

theorem nodup_keys_putKey {α : Type} {key : String} {value : α} {entries : List (String × α)}
    (different : (entries.map Prod.fst).Nodup) :
    ((putKey key value entries).map Prod.fst).Nodup := by
  rw [keys_putKey]
  split
  · exact different
  · rename_i absent
    rw [List.nodup_append]
    refine ⟨different, List.nodup_singleton _, fun other present last same equal => absent ?_⟩
    rw [← List.mem_singleton.mp same, ← equal]
    exact present

/-- The keys of properties are their names without the mark of a raw identifier, and they differ. -/
theorem StructItem.keys_properties (struct : StructItem) (values : List (String × String)) :
    ((struct.properties values).map Prod.fst).Nodup ∧
      ∀ entry ∈ struct.properties values, entry.1 = unraw entry.2.name := by
  have none : (([] : List (String × Property)).map Prod.fst).Nodup ∧
      ∀ entry ∈ ([] : List (String × Property)), entry.1 = unraw entry.2.name := by simp
  unfold properties
  cases struct.fields with
  | named fields trailing =>
    refine List.foldlRecOn fields _ (motive := fun properties : List (String × Property) =>
      (properties.map Prod.fst).Nodup ∧ ∀ entry ∈ properties, entry.1 = unraw entry.2.name) none ?_
    rintro properties ⟨different, keyed⟩ field -
    split
    · split
      · refine ⟨nodup_keys_putKey different, fun entry member => ?_⟩
        rcases mem_putKey member with rfl | earlier
        · rfl
        · exact keyed entry earlier
      · exact ⟨different, keyed⟩
    · exact ⟨different, keyed⟩
  | positional fields trailing => exact none
  | unit => exact none

/-- Every property is a field that other modules see, with its type as it is written. -/
theorem StructItem.exists_field {struct : StructItem} {values : List (String × String)} :
    ∀ entry ∈ struct.properties values, ∃ field ∈ struct.fields.withNames,
      field.visibility.isExported = true ∧ field.name = some entry.2.name ∧
        entry.2.type = field.type.render := by
  unfold properties
  cases struct.fields with
  | named fields trailing =>
    dsimp only [Fields.withNames]
    refine List.foldlRecOn fields _ (motive := fun properties : List (String × Property) =>
      ∀ entry ∈ properties, ∃ field ∈ fields, field.visibility.isExported = true ∧
        field.name = some entry.2.name ∧ entry.2.type = field.type.render)
      (fun entry member => by cases member) ?_
    intro properties held field listed entry member
    split at member
    · rename_i name given
      split at member
      · rename_i exported
        rcases mem_putKey member with rfl | earlier
        · exact ⟨field, listed, exported, given, rfl⟩
        · exact held entry earlier
      · exact held entry member
    · exact held entry member
  | positional fields trailing => exact fun entry member => by cases member
  | unit => exact fun entry member => by cases member

namespace Scan.Origin

/-- A struct and its constructor in everyday forms: the parameters of the struct have names, the
block of the constructor gives each a parameter of the same kind, and the types, the bounds and the
predicates are in everyday forms. -/
structure IsPlain (o : Origin) : Prop where
  aligned : o.names.Aligned o.struct.generics
  generics : ∀ p ∈ o.struct.generics.params, p.IsPlain
  types : ∀ s ∈ o.types, s.tree.IsPlain
  bounds : ∀ s ∈ o.bounds, s.tree.IsPlainBound
  predicates : ∀ p ∈ o.struct.generics.predicates ++ o.constructor.block.generics.predicates,
    p.IsPlain
  fields : ∀ field ∈ o.struct.fields.withNames, field.visibility.isExported = true →
    field.name ≠ some "_" ∧ field.type.IsPlain

variable {o : Origin} {d : Definition}

/-- What is restated of a scan in everyday forms is renamed by words. -/
theorem IsPlain.restate (plain : o.IsPlain) (named : o.struct.generics.IsNamed) {s : Scoped}
    (known : s.names = o.names ∨ s.names = .declared o.struct.generics) :
    ∃ f, Mention.KeepsWords f ∧ s.restate o.struct.generics = s.tree.mapNames f := by
  have keeps := plain.aligned.keepsWords named plain.generics
  rcases known with same | same
  · refine ⟨_, keeps, ?_⟩
    rw [Scoped.restate, Renaming.apply_eq_mapNames, same]
  · refine ⟨Mention.name, ⟨fun _ => .inl rfl, fun _ => .inl rfl⟩, ?_⟩
    have own := Scoped.restate_declared o.struct.generics s.tree
    rw [← same] at own
    rw [own, Tree.mapNames_name]

theorem names_of_mem_types {s : Scoped} (member : s ∈ o.types) : s.names = o.names := by
  obtain ⟨tree, -, rfl⟩ := List.mem_map.mp member
  rfl

theorem names_of_mem_bounds {s : Scoped} (member : s ∈ o.bounds) :
    s.names = o.names ∨ s.names = .declared o.struct.generics := by
  rcases List.mem_append.mp member with member | member
  all_goals obtain ⟨tree, -, rfl⟩ := List.mem_map.mp member
  · exact .inr rfl
  · exact .inl rfl

theorem IsPlain.params_parse (plain : o.IsPlain) (named : o.struct.generics.IsNamed)
    (described : o.Describes d) :
    ∀ p ∈ d.params, Grammar.Parses Grammar.type p.shape.type := by
  intro p member
  have shape : p.shape ∈ d.params.map (·.shape) := List.mem_map_of_mem member
  rw [described.shapes] at shape
  obtain ⟨s, present, same⟩ := List.mem_map.mp shape
  obtain ⟨f, keeps, restated⟩ := plain.restate named (.inl (names_of_mem_types present))
  have text : p.shape.type = (s.tree.mapNames f).render := by
    rw [← same, ParamShape.type_shapeOf, ← restated]
    rfl
  rw [text]
  exact ⟨_, ((plain.types s present).mapNames keeps).parseText_render⟩

theorem IsPlain.predicates_parse (plain : o.IsPlain) (named : o.struct.generics.IsNamed)
    (described : o.Describes d) :
    ∀ text ∈ d.predicates, Grammar.Parses Grammar.wherePredicate text := by
  intro text member
  obtain ⟨s, present, rfl⟩ := described.exists_predicate member
  have origin : (s.names = o.names ∨ s.names = .declared o.struct.generics) ∧
      ∃ p : WherePredicate, p.IsPlain ∧ s.tree = p.tree := by
    rcases List.mem_append.mp present with stated | stated
    all_goals
      obtain ⟨tree, inside, rfl⟩ := List.mem_map.mp stated
      obtain ⟨p, declared, rfl⟩ := List.mem_map.mp inside
    · exact ⟨.inr rfl, p, plain.predicates p (List.mem_append_left _ declared), rfl⟩
    · exact ⟨.inl rfl, p, plain.predicates p (List.mem_append_right _ declared), rfl⟩
  obtain ⟨known, p, everyday, same⟩ := origin
  obtain ⟨f, keeps, restated⟩ := plain.restate named known
  rw [restated, same, ← WherePredicate.tree_renamed]
  exact ⟨_, (everyday.renamed keeps).parses⟩

/-- Only lifetimes bound a lifetime. -/
theorem IsPlain.lifetime_of_mem_boundsOf (plain : o.IsPlain) {position : Nat}
    {attributes : List Attribute} {name : String} {bounds : List String} {trailing : Bool}
    (declared :
      o.struct.generics.params[position]? = some (.lifetime attributes name bounds trailing))
    {s : Scoped} (member : s ∈ Requirements.boundsOf o.struct.generics
      o.constructor.block.generics o.names position (.lifetime attributes name bounds trailing)) :
    ∃ bound, s.tree = .lifetime bound := by
  have noType : o.struct.generics.isType position = false := by
    rw [Generics.isType, declared]
  rcases List.mem_append.mp member with member | member
  · obtain ⟨tree, stated, rfl⟩ := List.mem_map.mp member
    obtain ⟨bound, -, rfl⟩ := List.mem_map.mp stated
    exact ⟨bound, rfl⟩
  · rw [Condition.mem_boundsAt] at member
    rcases Requirements.mem_conditions member with member | member
    · refine Generics.lifetime_of_mem_conditions (fun m found => ?_) noType member
      obtain ⟨param, present, rfl⟩ := Mention.exists_param found
      cases declared.symm.trans present
      rfl
    · refine Generics.lifetime_of_mem_conditions (fun m found => ?_) noType member
      obtain ⟨param, present, kind⟩ := plain.aligned.exists_param found
      cases declared.symm.trans present
      exact kind.symm

theorem exists_map_lifetime {trees : List Tree}
    (each : ∀ t ∈ trees, t.IsPlainBound ∧ ∃ name, t = .lifetime name) :
    ∃ names : List String, (∀ name ∈ names, Lexer.IsName name) ∧
      trees = names.map Tree.lifetime := by
  induction trees with
  | nil => exact ⟨[], by simp, rfl⟩
  | cons tree rest ih =>
    obtain ⟨names, words, rfl⟩ := ih fun t member => each t (List.mem_cons_of_mem _ member)
    obtain ⟨plain, name, rfl⟩ := each tree List.mem_cons_self
    refine ⟨name :: names, ?_, rfl⟩
    cases plain with
    | lifetime word => exact List.forall_mem_cons.mpr ⟨word, words⟩

/-- What is folded of a struct and a block in everyday forms. -/
theorem IsPlain.generics_plain (plain : o.IsPlain) (named : o.struct.generics.IsNamed)
    (described : o.Describes d) : ∀ p ∈ d.generics, p.IsPlain := by
  intro p member
  obtain ⟨position, present⟩ := List.getElem?_of_mem member
  obtain ⟨param, declared, folded⟩ := described.exists_param present
  obtain ⟨written, part, records⟩ := Requirements.exists_records declared folded
  obtain ⟨_, declared', name, kind⟩ := described.declares present
  cases declared.symm.trans declared'
  have inside := List.mem_of_getElem? declared
  have everyday := plain.generics param inside
  have word := named param inside
  have bounds : p.bounds = (written.map (·.restate o.struct.generics)).map Tree.render := by
    rw [records.bounds, List.map_map]
    rfl
  have each : ∀ b ∈ written.map (·.restate o.struct.generics), b.IsPlainBound := by
    intro b listed
    obtain ⟨s, stated, rfl⟩ := List.mem_map.mp listed
    have origin := mem_bounds declared (part.subset stated)
    obtain ⟨f, keeps, restated⟩ := plain.restate named (names_of_mem_bounds origin)
    rw [restated]
    exact (plain.bounds s origin).mapNames keeps
  obtain ⟨_, _, _, canonical⟩ := p
  dsimp only at kind name bounds
  subst kind name bounds
  cases param with
  | type attributes other _ trailing byDefault =>
    exact .type (word.resolve_right everyday) each
  | lifetime attributes other _ trailing =>
    have lifetimes : ∀ b ∈ written.map (·.restate o.struct.generics),
        ∃ bound, b = .lifetime bound := by
      intro b listed
      obtain ⟨s, stated, rfl⟩ := List.mem_map.mp listed
      obtain ⟨bound, same⟩ := plain.lifetime_of_mem_boundsOf declared (part.subset stated)
      rw [Scoped.restate, same]
      exact ⟨_, rfl⟩
    obtain ⟨names, words, same⟩ := exists_map_lifetime fun b listed =>
      ⟨each b listed, lifetimes b listed⟩
    rw [same]
    exact .lifetime word words
  | const attributes other type byDefault => exact .const word everyday

end Scan.Origin

end Forwarding
