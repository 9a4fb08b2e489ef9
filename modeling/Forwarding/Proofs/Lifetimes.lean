import Forwarding.Proofs.Recording
/-!
Lifetimes of a definition. A lifetime in the syntax that a definition records is bound by a binder
around it or it is free, and restating gives the free lifetimes the names that the struct has for
them. A lifetime of the block that is no argument of its self type has no such name and stays as it
is; without one, every free lifetime is among the generic parameters of the definition.
-/

namespace Forwarding

namespace Tree

def isToken (accepts : Token → Bool) : Tree → Bool
  | token t => accepts t
  | _ => false

def isOpeningAngle : Tree → Bool
  | seq [tree] => tree.isToken fun
    | .punct symbol _ => symbol == '<'
    | _ => false
  | _ => false

/-- The lifetime that a parameter of a binder declares. -/
def boundLifetime? : Tree → Option String
  | seq items =>
    match items.getLast? with
    | some (lifetime name) => some name
    | _ => none
  | _ => none

/-- The lifetimes that a binder declares; other trees declare none. -/
def boundLifetimes : Tree → List String
  | seq (first :: second :: rest) =>
    if first.isToken (· == .ident "for") && second.isOpeningAngle then
      rest.filterMap boundLifetime?
    else []
  | _ => []

mutual

/-- The lifetimes that are mentioned and are neither among the given ones nor bound in the tree. A
binder binds in what comes after it. -/
def freeLifetimes (bound : List String) : Tree → List String
  | token _ => []
  | lifetime name => if name ∈ bound then [] else [name]
  | group _ children => freeLifetimesOf bound children
  | seq children => freeLifetimesOf bound children
  | path _ segments => freeLifetimesOf bound segments
  | segment _ args => freeLifetimesOf bound args
  | arguments _ items _ => freeLifetimesOf bound items
  | qualified selfType traitPath rest =>
    freeLifetimes bound selfType ++ freeLifetimesOf bound traitPath ++ freeLifetimesOf bound rest
  | record target body => freeLifetimes bound target ++ freeLifetimesOf bound body
  | initializer attributes _ value =>
    freeLifetimesOf bound attributes ++ freeLifetimesOf bound value
  | constrained head between clause =>
    freeLifetimesOf bound head ++ freeLifetimesOf bound between ++ freeLifetimesOf bound clause
  | block head attributes body =>
    freeLifetimesOf bound head ++ freeLifetimesOf bound attributes ++ freeLifetimesOf bound body

def freeLifetimesOf (bound : List String) : List Tree → List String
  | [] => []
  | tree :: rest =>
    freeLifetimes (tree.boundLifetimes ++ bound) tree
      ++ freeLifetimesOf (tree.boundLifetimes ++ bound) rest

end

/-- A binder binds in the type after it. -/
example :
    (Grammar.parseText (·.type) "for<'a> fn(&'a u8, &'b u8)").toOption.map (freeLifetimes []) =
      some ["b"] := by
  decide +kernel

theorem isToken_mapNames (f : Mention → String) (accepts : Token → Bool) (tree : Tree) :
    (tree.mapNames f).isToken accepts = tree.isToken accepts := by
  cases tree <;> rfl

theorem isOpeningAngle_mapNames (f : Mention → String) (tree : Tree) :
    (tree.mapNames f).isOpeningAngle = tree.isOpeningAngle := by
  cases tree with
  | seq children =>
    rcases children with _ | ⟨first, _ | ⟨second, rest⟩⟩
    · rfl
    · exact isToken_mapNames f _ first
    · rfl
  | _ => rfl

theorem boundLifetime?_mapNames (f : Mention → String) (tree : Tree) :
    (tree.mapNames f).boundLifetime? = tree.boundLifetime?.map fun name => f (.lifetime name) := by
  cases tree with
  | seq items =>
    simp only [mapNames, boundLifetime?, mapNamesAll_eq_map, List.getLast?_map]
    cases items.getLast? with
    | none => rfl
    | some last => cases last <;> rfl
  | _ => rfl

theorem boundLifetimes_mapNames (f : Mention → String) (tree : Tree) :
    (tree.mapNames f).boundLifetimes = tree.boundLifetimes.map fun name => f (.lifetime name) := by
  cases tree with
  | seq children =>
    rcases children with _ | ⟨first, _ | ⟨second, rest⟩⟩
    · rfl
    · rfl
    · simp only [mapNames, mapNamesAll, boundLifetimes, isToken_mapNames, isOpeningAngle_mapNames,
        mapNamesAll_eq_map, List.filterMap_map]
      split
      · rw [List.map_filterMap]
        exact congrArg (rest.filterMap ·) (funext (boundLifetime?_mapNames f))
      · rfl
  | _ => rfl

theorem freeLifetimesOf_mapHead (f : Mention → String) (bound : List String)
    (segments : List Tree) :
    freeLifetimesOf bound (mapHead f segments) = freeLifetimesOf bound segments := by
  cases segments with
  | nil => rfl
  | cons first rest => cases first <;> rfl

mutual

/-- A free lifetime of a renamed tree is the new name of a free lifetime. -/
theorem exists_of_mem_freeLifetimes {f : Mention → String} {bound new : List String}
    (covers : ∀ name ∈ bound, f (.lifetime name) ∈ new) {tree : Tree} {x : String}
    (member : x ∈ freeLifetimes new (mapNames f tree)) :
    ∃ name ∈ freeLifetimes bound tree, f (.lifetime name) = x := by
  cases tree with
  | token t => cases member
  | lifetime name =>
    simp only [mapNames, freeLifetimes] at member ⊢
    split at member
    · cases member
    · rename_i free
      rw [List.mem_singleton] at member
      rw [if_neg fun inside => free (covers name inside)]
      exact ⟨name, List.mem_singleton_self name, member.symm⟩
  | group delimiter children => exact exists_of_mem_freeLifetimesOf covers member
  | seq children => exact exists_of_mem_freeLifetimesOf covers member
  | path isGlobal segments =>
    simp only [mapNames, freeLifetimes] at member
    split at member
    · exact exists_of_mem_freeLifetimesOf covers member
    · rw [freeLifetimesOf_mapHead] at member
      exact exists_of_mem_freeLifetimesOf covers member
  | segment name args => exact exists_of_mem_freeLifetimesOf covers member
  | arguments turbofish items trailing => exact exists_of_mem_freeLifetimesOf covers member
  | qualified selfType traitPath rest =>
    simp only [mapNames, freeLifetimes, List.mem_append, or_and_right, exists_or] at member ⊢
    exact member.imp (Or.imp (exists_of_mem_freeLifetimes covers)
      (exists_of_mem_freeLifetimesOf covers)) (exists_of_mem_freeLifetimesOf covers)
  | record target body =>
    simp only [mapNames, freeLifetimes, List.mem_append, or_and_right, exists_or] at member ⊢
    exact member.imp (exists_of_mem_freeLifetimes covers) (exists_of_mem_freeLifetimesOf covers)
  | initializer attributes field value =>
    simp only [mapNames, freeLifetimes, List.mem_append, or_and_right, exists_or] at member ⊢
    exact member.imp (exists_of_mem_freeLifetimesOf covers) (exists_of_mem_freeLifetimesOf covers)
  | constrained head between clause =>
    simp only [mapNames, freeLifetimes, List.mem_append, or_and_right, exists_or] at member ⊢
    exact member.imp (Or.imp (exists_of_mem_freeLifetimesOf covers)
      (exists_of_mem_freeLifetimesOf covers)) (exists_of_mem_freeLifetimesOf covers)
  | block head attributes body =>
    simp only [mapNames, freeLifetimes, List.mem_append, or_and_right, exists_or] at member ⊢
    exact member.imp (Or.imp (exists_of_mem_freeLifetimesOf covers)
      (exists_of_mem_freeLifetimesOf covers)) (exists_of_mem_freeLifetimesOf covers)

theorem exists_of_mem_freeLifetimesOf {f : Mention → String} {bound new : List String}
    (covers : ∀ name ∈ bound, f (.lifetime name) ∈ new) {trees : List Tree} {x : String}
    (member : x ∈ freeLifetimesOf new (mapNamesAll f trees)) :
    ∃ name ∈ freeLifetimesOf bound trees, f (.lifetime name) = x := by
  cases trees with
  | nil => cases member
  | cons tree rest =>
    -- what `tree` binds in `rest` is bound there under its new name
    have covers : ∀ name ∈ tree.boundLifetimes ++ bound,
        f (.lifetime name) ∈ (tree.mapNames f).boundLifetimes ++ new := by
      intro name inside
      rw [boundLifetimes_mapNames]
      rcases List.mem_append.mp inside with inside | inside
      · exact List.mem_append_left _ (List.mem_map_of_mem inside)
      · exact List.mem_append_right _ (covers name inside)
    simp only [mapNamesAll, freeLifetimesOf, List.mem_append, or_and_right, exists_or] at member ⊢
    exact member.imp (exists_of_mem_freeLifetimes covers) (exists_of_mem_freeLifetimesOf covers)

end

end Tree

/-- Whether a lifetime is one that needs no declaration. -/
def isPredeclared (name : String) : Bool :=
  name == "static" || name == "_"

/-- Every free lifetime of a tree is predeclared or among the parameters. -/
def Generics.Covers (g : Generics) (tree : Tree) : Prop :=
  ∀ name ∈ tree.freeLifetimes [], isPredeclared name = true ∨
    .lifetime name ∈ g.params.map GenericParameter.mention

instance (g : Generics) (tree : Tree) : Decidable (g.Covers tree) :=
  inferInstanceAs (Decidable (∀ name ∈ tree.freeLifetimes [], _ ∨ _))

namespace Definition

def ListsLifetime (d : Definition) (name : String) : Prop :=
  ∃ p ∈ d.generics, p.kind = .lifetime ∧ p.name = (Tree.lifetime name).render

/-- Every free lifetime of a tree is predeclared or among the generic parameters. -/
def Covers (d : Definition) (tree : Tree) : Prop :=
  ∀ name ∈ tree.freeLifetimes [], isPredeclared name = true ∨ d.ListsLifetime name

def texts (d : Definition) : List String :=
  d.params.map (·.shape.type) ++ d.generics.flatMap (·.bounds) ++ d.predicates

end Definition

namespace Scan

namespace Origin

def ownTrees (o : Origin) : List Tree :=
  o.struct.generics.boundTrees ++ o.struct.generics.predicates.map (·.tree)

/-- The types of the parameters and the bounds and predicates of the block. -/
def usedTrees (o : Origin) : List Tree :=
  o.constructor.types ++ o.constructor.block.generics.boundTrees
    ++ o.constructor.block.generics.predicates.map (·.tree)

def sources (o : Origin) : List Scoped :=
  o.ownTrees.map (Scoped.mk (.declared o.struct.generics)) ++ o.usedTrees.map (Scoped.mk o.names)

/-- The struct and the block declare the lifetimes that they use. -/
structure Declares (o : Origin) : Prop where
  own : ∀ tree ∈ o.ownTrees, o.struct.generics.Covers tree
  used : ∀ tree ∈ o.usedTrees, o.constructor.block.generics.Covers tree

instance (o : Origin) : Decidable o.Declares :=
  decidable_of_iff
    ((∀ tree ∈ o.ownTrees, o.struct.generics.Covers tree) ∧
      ∀ tree ∈ o.usedTrees, o.constructor.block.generics.Covers tree)
    ⟨fun h => ⟨h.1, h.2⟩, fun h => ⟨h.own, h.used⟩⟩

variable {o : Origin} {d : Definition}

theorem types_subset_sources : o.types ⊆ o.sources := by
  intro s member
  unfold types at member
  simp only [sources, usedTrees, List.map_append, List.mem_append]
  exact .inr (.inl (.inl member))

theorem bounds_subset_sources : o.bounds ⊆ o.sources := by
  intro s member
  simp only [sources, ownTrees, usedTrees, List.map_append, List.mem_append]
  rcases List.mem_append.mp member with member | member
  · exact .inl (.inl member)
  · exact .inr (.inl (.inr member))

theorem predicates_subset_sources : o.predicates ⊆ o.sources := by
  intro s member
  simp only [sources, ownTrees, usedTrees, List.map_append, List.mem_append]
  rcases List.mem_append.mp member with member | member
  · exact .inl (.inr member)
  · exact .inr (.inr member)

/-- What a definition records is the text of restated syntax of its origin. -/
theorem Describes.exists_source (described : o.Describes d) {text : String}
    (member : text ∈ d.texts) :
    ∃ s ∈ o.sources, (s.restate o.struct.generics).render = text := by
  simp only [Definition.texts, List.mem_append, or_assoc] at member
  rcases member with type | bound | predicate
  · rw [described.types] at type
    obtain ⟨s, inside, same⟩ := List.mem_map.mp type
    exact ⟨s, types_subset_sources inside, same⟩
  · obtain ⟨p, inside, bound⟩ := List.mem_flatMap.mp bound
    obtain ⟨written, stated, records⟩ := described.records inside
    rw [records.bounds] at bound
    obtain ⟨s, inside, same⟩ := List.mem_map.mp bound
    exact ⟨s, bounds_subset_sources (stated s inside), same⟩
  · obtain ⟨s, inside, same⟩ := described.exists_predicate predicate
    exact ⟨s, predicates_subset_sources inside, same⟩

theorem Describes.covers_ofLifetime (described : o.Describes d) {names : GenericNames}
    {name : String} (found : (names.position (.lifetime name)).isSome = true) :
    isPredeclared ((Renaming.toDeclared o.struct.generics).ofLifetime names name) = true ∨
      d.ListsLifetime ((Renaming.toDeclared o.struct.generics).ofLifetime names name) := by
  obtain ⟨position, found⟩ := Option.isSome_iff_exists.mp found
  change names.lifetimePosition name = some position at found
  unfold Renaming.ofLifetime
  rw [found]
  dsimp only [Renaming.toDeclared]
  split
  · rename_i declared
    exact .inr (described.lists_lifetime declared)
  -- a parameter of another kind stands there, and the lifetime is written `'_`
  · exact .inl rfl

/-- Restated syntax is covered if its names lead from every free lifetime that is not
predeclared. -/
theorem Describes.covers_restate (described : o.Describes d) {s : Scoped}
    (leads : ∀ name ∈ s.tree.freeLifetimes [], isPredeclared name = true ∨
      (s.names.position (.lifetime name)).isSome = true) :
    d.Covers (s.restate o.struct.generics) := by
  intro x member
  rw [Scoped.restate, Renaming.apply_eq_mapNames] at member
  have nothing : ∀ name ∈ ([] : List String),
      (Renaming.toDeclared o.struct.generics).ofMention s.names (.lifetime name) ∈ [] :=
    fun _ inside => absurd inside List.not_mem_nil
  obtain ⟨name, free, rfl⟩ := Tree.exists_of_mem_freeLifetimes nothing member
  change _ ∨ d.ListsLifetime ((Renaming.toDeclared o.struct.generics).ofLifetime s.names name)
  cases found : s.names.lifetimePosition name with
  | some position =>
    exact described.covers_ofLifetime (Option.isSome_iff_exists.mpr ⟨position, found⟩)
  | none =>
    rcases leads name free with exempt | leads
    · left
      have same := Renaming.ofMention_of_none (m := .lifetime name)
        (Renaming.toDeclared o.struct.generics) found
      rw [same]
      exact exempt
    · change (s.names.lifetimePosition name).isSome = true at leads
      rw [found] at leads
      cases leads

/-- Every free lifetime of the syntax leads to a parameter of the struct, or is predeclared. -/
theorem Declares.leads (declares : o.Declares) (passes : o.Passes GenericParameter.isLifetime)
    {s : Scoped} (member : s ∈ o.sources) {name : String} (free : name ∈ s.tree.freeLifetimes []) :
    isPredeclared name = true ∨ (s.names.position (.lifetime name)).isSome = true := by
  rcases List.mem_append.mp member with member | member
  · obtain ⟨tree, inside, rfl⟩ := List.mem_map.mp member
    refine (declares.own tree inside name free).imp_right fun declared => ?_
    rwa [GenericNames.declared_eq, GenericNames.isSome_position_ofMentions]
  · obtain ⟨tree, inside, rfl⟩ := List.mem_map.mp member
    refine (declares.used tree inside name free).imp_right fun declared => ?_
    obtain ⟨param, stated, same⟩ := List.mem_map.mp declared
    have lifetime : param.isLifetime = true := by
      rw [← GenericParameter.isLifetime_mention, same]
      rfl
    rw [← same]
    exact passes param stated lifetime

end Origin

/-- Definitions are closed: the recorded texts are those of restated syntax of the origin, and if
the struct and the block declare the lifetimes that they use and the block passes all of its own to
the struct, then every free lifetime of that syntax is among the generic parameters. -/
theorem definitions_closed {c : Conventions} {unit : SourceUnit} {definitions : List Definition}
    {d : Definition} (scanned : scan c unit = .ok definitions) (member : d ∈ definitions) :
    ∃ o ∈ origins c unit, o.Describes d ∧
      (∀ text ∈ d.texts, ∃ s ∈ o.sources, (s.restate o.struct.generics).render = text) ∧
      (o.Declares → o.Passes GenericParameter.isLifetime →
        ∀ s ∈ o.sources, d.Covers (s.restate o.struct.generics)) := by
  obtain ⟨o, origin, described⟩ := exists_origin scanned member
  refine ⟨o, origin, described, fun _ recorded => described.exists_source recorded, ?_⟩
  intro declares passes s inside
  exact described.covers_restate fun _ free => declares.leads passes inside free

def passing : SourceUnit :=
  ⟨"src/lib.rs", ["crate"],
    "#[variant_merge(name=\"G\",priority=1)]pub struct H<'a>\x7bpub a:&'a u8\x7d" ++
      "impl<'b>H<'b>\x7bpub fn new(a:&'b u8)->Self\x7bH\x7ba\x7d\x7d\x7d"⟩

theorem definitions_closed_passing :
    ∃ definitions, scan {} passing = .ok definitions ∧ definitions.length = 1 ∧
      ∀ d ∈ definitions, ∃ o ∈ origins {} passing,
        (∀ text ∈ d.texts, ∃ s ∈ o.sources, (s.restate o.struct.generics).render = text) ∧
          ∀ s ∈ o.sources, d.Covers (s.restate o.struct.generics) := by
  have computed : (scan {} passing).toOption.map (·.length) = some 1 ∧
      ∀ o ∈ origins {} passing, o.Declares ∧ o.Passes GenericParameter.isLifetime := by
    rw [scan_of_hasChars passing (.append .literal .literal),
      origins_of_hasChars passing (.append .literal .literal)]
    decide +kernel
  obtain ⟨definitions, scanned, single⟩ := exists_scanned computed.1
  refine ⟨definitions, scanned, single, fun d member => ?_⟩
  obtain ⟨o, origin, -, texts, closed⟩ := definitions_closed scanned member
  obtain ⟨declares, passes⟩ := computed.2 o origin
  exact ⟨o, origin, texts, closed declares passes⟩

/-- A unit whose impl block declares a lifetime that is no argument of its self type. -/
def leaking : SourceUnit :=
  ⟨"src/lib.rs", ["crate"],
    "#[variant_merge(name=\"G\",priority=1)]pub struct H<T>\x7bpub a:T\x7d" ++
      "impl<'b,U>H<U>\x7bpub fn new(a:U,b:&'b str)->Self\x7bH\x7ba\x7d\x7d\x7d"⟩

/-- The lifetime is declared, and the definition mentions it without listing it. -/
theorem definitions_open_leaking :
    (∀ o ∈ origins {} leaking, o.Declares) ∧
      ((scan {} leaking).toOption.map fun definitions => definitions.map fun d =>
        (d.params.map (·.shape.type), d.generics.map (·.name))) =
      some [(["T", "& 'b str"], ["T"])] := by
  rw [scan_of_hasChars leaking (.append .literal .literal),
    origins_of_hasChars leaking (.append .literal .literal)]
  decide +kernel

end Scan

end Forwarding
