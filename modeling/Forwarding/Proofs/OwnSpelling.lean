import Forwarding.Proofs.Respelling
/-!
Other spellings of a struct's own parameters. The canonical bounds of each parameter are made of
canonical forms alone, so that they are the same whatever the struct calls its parameters. The kinds
are the same as long as no constant has a type that mentions a parameter.
-/

namespace Forwarding

theorem Condition.boundsAt_append (position : Nat) (first second : List Condition) :
    boundsAt position (first ++ second) = boundsAt position first ++ boundsAt position second :=
  List.filterMap_append

theorem Condition.boundsAt_renamed (f : Mention → String) (after : GenericNames) (position : Nat)
    (conditions : List Condition) :
    boundsAt position (conditions.map (Condition.renamed f after)) =
      (boundsAt position conditions).map fun s => ⟨after, s.tree.mapNames f⟩ := by
  unfold boundsAt
  rw [List.filterMap_map, List.map_filterMap]
  refine List.filterMap_congr fun condition _ => ?_
  cases condition with
  | bound p s =>
    dsimp only [Function.comp_apply, renamed]
    split <;> rfl
  | predicate s => rfl

namespace GenericParam

/-- A set of texts with one more. -/
def requiring (bounds : List String) (canonical : String) : List String :=
  if bounds.contains canonical then bounds else insertText canonical bounds

theorem canonicalBounds_addBound (p : GenericParam) (written canonical : String) :
    (p.addBound written canonical).canonicalBounds = requiring p.canonicalBounds canonical := by
  unfold addBound requiring
  split <;> rfl

theorem canonicalBounds_addAll (struct : Generics) (written : List Scoped) (p : GenericParam) :
    (p.addAll struct written).canonicalBounds =
      (written.map Scoped.canonical).foldl requiring p.canonicalBounds := by
  induction written generalizing p with
  | nil => rfl
  | cons s rest ih =>
    refine (ih _).trans (congrArg (fun bounds => List.foldl requiring bounds _) ?_)
    exact canonicalBounds_addBound p _ _

theorem canonicalBounds_ofDeclared (names : GenericNames) (param : GenericParameter) :
    (ofDeclared names param).canonicalBounds =
      setOfTexts (param.boundTrees.map (·.canonical names)) := by
  cases param <;> rfl

end GenericParam

section

variable {f : Mention → String} {names after : GenericNames} {struct g : Generics}

theorem Generics.isType_renamed : (struct.renamed f).isType = struct.isType := by
  funext position
  rw [isType, isType, renamed, List.getElem?_map]
  cases struct.params[position]? with
  | none => rfl
  | some param => cases param <;> rfl

/-- Whether a condition is a bound depends on the kinds of parameters alone. -/
theorem WherePredicate.conditions_struct (predicate : WherePredicate) :
    predicate.conditions (struct.renamed f) names = predicate.conditions struct names := by
  have same : predicate.subject? (struct.renamed f) names = predicate.subject? struct names := by
    cases predicate with
    | lifetime => rfl
    | type binder =>
      cases binder with
      | some tree => rfl
      | none => rw [subject?, subject?, Generics.isType_renamed]
  rw [conditions, conditions, same]

theorem Generics.whereConditions_struct :
    g.whereConditions (struct.renamed f) names = g.whereConditions struct names :=
  List.flatMap_congr fun predicate _ => predicate.conditions_struct

theorem Generics.mem_whereConditions_bound {position : Nat} {s : Scoped}
    (member : .bound position s ∈ g.whereConditions struct names) :
    s.names = names ∧ s.tree ∈ g.boundTrees := by
  have inside : Condition.bound position s ∈ g.conditions struct names :=
    List.mem_append_right _ member
  rcases mem_conditions inside with ⟨_, _, _, tree, stated, same⟩ | ⟨_, _, same⟩
  · cases same
    exact ⟨rfl, stated⟩
  · cases same

end

namespace Requirements

variable {f : Mention → String} {struct : Generics} (block : Generics) (names : GenericNames)
  (each : ∀ m ∈ struct.mentioned,
    (GenericNames.declared struct).Respelled (.declared (struct.renamed f)) f m)

include each

theorem canonical_boundsAt_renamed (position : Nat) :
    (Condition.boundsAt position (conditions (struct.renamed f) block names)).map
        Scoped.canonical =
      (Condition.boundsAt position (conditions struct block names)).map Scoped.canonical := by
  have own : (Condition.boundsAt position ((struct.renamed f).whereConditions struct
        (.declared (struct.renamed f)))).map Scoped.canonical =
      (Condition.boundsAt position (struct.whereConditions struct (.declared struct))).map
        Scoped.canonical := by
    rw [Generics.whereConditions_renamed each, Condition.boundsAt_renamed, List.map_map]
    refine List.map_congr_left fun s member => ?_
    obtain ⟨used, stated⟩ := Generics.mem_whereConditions_bound (Condition.mem_boundsAt.mp member)
    rw [Function.comp_apply, Scoped.canonical, Scoped.canonical, used]
    refine Tree.canonical_renamed fun m mentioned => each m (Generics.mem_mentioned mentioned ?_)
    exact List.mem_append_left _ (List.mem_append_right _ stated)
  simp only [conditions, Generics.conditions, Generics.whereConditions_struct,
    Condition.boundsAt_append, List.map_append, own]

/-- The canonical bounds do not depend on how the struct spells its parameters. -/
theorem canonicalBounds_renamed :
    (ofBoth (struct.renamed f) block names).params.map (·.canonicalBounds) =
      (ofBoth struct block names).params.map (·.canonicalBounds) := by
  apply List.ext_getElem?
  intro position
  have declared : (struct.renamed f).params[position]? =
      struct.params[position]?.map (GenericParameter.renamed f) := List.getElem?_map
  rw [List.getElem?_map, List.getElem?_map, ofBoth_params, ofBoth_params, declared]
  cases present : struct.params[position]? with
  | none => rfl
  | some param =>
    have own : (param.renamed f).boundTrees.map (·.canonical (.declared (struct.renamed f))) =
        param.boundTrees.map (·.canonical (.declared struct)) := by
      rw [GenericParameter.boundTrees_renamed, List.map_map]
      refine List.map_congr_left fun tree stated => Tree.canonical_renamed fun m mentioned => ?_
      refine each m (Generics.mem_mentioned mentioned (List.mem_append_left _ ?_))
      refine List.mem_append_right _ (List.mem_append_left _ (List.mem_flatMap.mpr ?_))
      exact ⟨param, List.mem_of_getElem? present, stated⟩
    simp only [Option.map_some, GenericParam.canonicalBounds_addAll,
      GenericParam.canonicalBounds_ofDeclared, own, canonical_boundsAt_renamed block names each]

omit each

/-- Nor do the kinds, where no type of a constant mentions a parameter. -/
theorem kinds_renamed (closed : struct.IsClosed)
    (respells : Mention.Respells f (struct.params.map GenericParameter.mention) struct.mentioned) :
    (ofBoth (struct.renamed f) block names).params.map (·.kind) =
      (ofBoth struct block names).params.map (·.kind) := by
  apply List.ext_getElem?
  intro position
  have declared : (struct.renamed f).params[position]? =
      struct.params[position]?.map (GenericParameter.renamed f) := List.getElem?_map
  rw [List.getElem?_map, List.getElem?_map, ofBoth_params, ofBoth_params, declared]
  cases present : struct.params[position]? with
  | none => rfl
  | some param =>
    simp only [Option.map_some, GenericParam.kind_addAll]
    cases param with
    | lifetime => rfl
    | type => rfl
    | const attributes name type byDefault =>
      have constant : type ∈ struct.constantTypes :=
        List.mem_filterMap.mpr ⟨_, List.mem_of_getElem? present, rfl⟩
      have same : type.mapNames f = type := by
        refine Eq.trans ((Tree.mapNames_eq_iff _ _ type).mpr fun m mentioned => ?_)
          type.mapNames_name
        refine respells.outside m (Generics.mem_mentioned mentioned ?_)
          (closed type constant m mentioned)
        exact List.mem_append_left _ (List.mem_append_left _ constant)
      simp only [GenericParameter.renamed, GenericParam.ofDeclared, same]

end Requirements

end Forwarding
