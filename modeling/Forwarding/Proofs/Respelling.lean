import Forwarding.Proofs.Folding
/-!
Other spellings of parameters. New names for some parameters are as good as the old ones when every
other name is kept and no two names become one. The table of the new names then leads where the old
table led, so that canonical forms and texts in the names of a struct are the same.
-/

namespace Forwarding

/-- New names for the chosen ones among some mentions: all others are kept, and names that differ
still differ. -/
structure Mention.Respells (f : Mention → String) (chosen mentioned : List Mention) : Prop where
  outside : ∀ m ∈ mentioned, m ∉ chosen → f m = m.name
  apart : ∀ m ∈ mentioned, ∀ other ∈ mentioned, m.renamed f = other.renamed f → m = other

instance (f : Mention → String) (chosen mentioned : List Mention) :
    Decidable (Mention.Respells f chosen mentioned) :=
  decidable_of_iff
    ((∀ m ∈ mentioned, m ∉ chosen → f m = m.name) ∧
      ∀ m ∈ mentioned, ∀ other ∈ mentioned, m.renamed f = other.renamed f → m = other)
    ⟨fun h => ⟨h.1, h.2⟩, fun h => ⟨h.outside, h.apart⟩⟩

namespace GenericNames

/-- A table leads from the new name of a mention where another one leads from the old name, and a
name that leads nowhere is kept. -/
structure Respelled (names after : GenericNames) (f : Mention → String) (m : Mention) : Prop where
  position : after.position (m.renamed f) = names.position m
  kept : names.position m = Option.none → f m = m.name

variable {f : Mention → String} {names after : GenericNames} {m : Mention}

theorem position_addAll_renamed {mentions : List Mention} {start : Nat}
    (apart : ∀ other ∈ mentions, m.renamed f = other.renamed f → m = other)
    (before : after.position (m.renamed f) = names.position m) :
    (after.addAll start (mentions.map (Mention.renamed f))).position (m.renamed f) =
      (names.addAll start mentions).position m := by
  induction mentions generalizing names after start with
  | nil => exact before
  | cons first rest ih =>
    refine ih (fun other member => apart other (List.mem_cons_of_mem _ member)) ?_
    rw [position_add, position_add, before]
    by_cases same : m = first
    · rw [if_pos same, if_pos (congrArg (Mention.renamed f) same)]
    · rw [if_neg same, if_neg fun equal => same (apart first List.mem_cons_self equal)]

/-- The table of new names leads where the table of the old names led. -/
theorem respelled_ofMentions {chosen mentioned passed : List Mention}
    (respells : Mention.Respells f chosen mentioned) (among : passed ⊆ mentioned)
    (all : chosen ⊆ passed) (member : m ∈ mentioned) :
    (ofMentions passed).Respelled (ofMentions (passed.map (Mention.renamed f))) f m where
  position := by
    refine position_addAll_renamed (fun other inside => ?_) (by rw [position_none, position_none])
    exact respells.apart m member other (among inside)
  kept absent := by
    refine respells.outside m member fun inside => ?_
    have present := (isSome_position_ofMentions passed m).mpr (all inside)
    rw [absent] at present
    cases present

end GenericNames

section Renamed

variable {f : Mention → String} {names after : GenericNames} {struct : Generics}

theorem Renaming.ofMention_renamed (r : Renaming) {m : Mention}
    (respelled : names.Respelled after f m) :
    r.ofMention after (m.renamed f) = r.ofMention names m := by
  have leads := respelled.position
  cases found : names.position m with
  | none =>
    rw [found] at leads
    rw [ofMention_of_none r leads, ofMention_of_none r found, Mention.name_renamed,
      respelled.kept found]
  | some p =>
    rw [found] at leads
    cases m with
    | value name =>
      change after.valuePosition (f (.value name)) = some p at leads
      change names.valuePosition name = some p at found
      simp only [Mention.renamed, ofMention, ofValue, leads, found]
    | lifetime name =>
      change after.lifetimePosition (f (.lifetime name)) = some p at leads
      change names.lifetimePosition name = some p at found
      simp only [Mention.renamed, ofMention, ofLifetime, leads, found]

theorem Renaming.apply_renamed (r : Renaming) {tree : Tree}
    (each : ∀ m ∈ tree.mentions, names.Respelled after f m) :
    r.apply after (tree.mapNames f) = r.apply names tree := by
  rw [apply_eq_mapNames, apply_eq_mapNames, Tree.mapNames_mapNames]
  exact (Tree.mapNames_eq_iff _ _ tree).mpr fun m member => r.ofMention_renamed (each m member)

theorem Tree.canonical_renamed {tree : Tree}
    (each : ∀ m ∈ tree.mentions, names.Respelled after f m) :
    (tree.mapNames f).canonical after = tree.canonical names :=
  congrArg render (Renaming.positional.apply_renamed each)

theorem Tree.restated_renamed {tree : Tree}
    (each : ∀ m ∈ tree.mentions, names.Respelled after f m) :
    (tree.mapNames f).restated after struct = tree.restated names struct :=
  congrArg render ((Renaming.toDeclared struct).apply_renamed each)

theorem GenericNames.positionOf_renamed {tree : Tree}
    (each : ∀ m ∈ tree.mentions, names.Respelled after f m) :
    after.positionOf (tree.mapNames f) = names.positionOf tree := by
  rw [positionOf_eq, positionOf_eq, Tree.soleName?_mapNames]
  cases sole : tree.soleName? with
  | none => rfl
  | some name => exact (each (.value name) (Tree.mention_of_soleName? sole)).position

end Renamed

section Declarations

/-- The parameter with new names. -/
def GenericParameter.renamed (f : Mention → String) : GenericParameter → GenericParameter
  | lifetime attributes name bounds trailing =>
    .lifetime attributes (f (.lifetime name)) (bounds.map fun b => f (.lifetime b)) trailing
  | type attributes name bounds trailing byDefault =>
    .type attributes (f (.value name)) (bounds.map (Tree.mapNames f)) trailing
      (byDefault.map (Tree.mapNames f))
  | const attributes name declared byDefault =>
    .const attributes (f (.value name)) (declared.mapNames f) (byDefault.map (Tree.mapNames f))

namespace Generics

def renamed (f : Mention → String) (g : Generics) : Generics :=
  { g with
    params := g.params.map (GenericParameter.renamed f)
    predicates := g.predicates.map (WherePredicate.renamed f) }

/-- The types of constants. -/
def constantTypes (g : Generics) : List Tree :=
  g.params.filterMap fun
    | .const _ _ declared _ => some declared
    | _ => Option.none

/-- The names of the parameters, and those that their types, bounds and predicates mention. -/
def mentioned (g : Generics) : List Mention :=
  g.params.map GenericParameter.mention
    ++ Tree.mentionsOf (g.constantTypes ++ g.boundTrees ++ g.predicates.map WherePredicate.tree)

/-- No type of a constant mentions a parameter. -/
def IsClosed (g : Generics) : Prop :=
  ∀ tree ∈ g.constantTypes, ∀ m ∈ tree.mentions, m ∉ g.params.map GenericParameter.mention

instance (g : Generics) : Decidable g.IsClosed :=
  inferInstanceAs (Decidable (∀ tree ∈ g.constantTypes, ∀ m ∈ tree.mentions, _))

theorem mem_mentioned {g : Generics} {tree : Tree} {m : Mention} (member : m ∈ tree.mentions)
    (inside : tree ∈ g.constantTypes ++ g.boundTrees ++ g.predicates.map WherePredicate.tree) :
    m ∈ g.mentioned :=
  List.mem_append_right _ (Tree.mem_mentionsOf.mpr ⟨tree, inside, member⟩)

end Generics

variable {f : Mention → String}

theorem GenericParameter.mention_renamed (param : GenericParameter) :
    (param.renamed f).mention = param.mention.renamed f := by
  cases param <;> rfl

theorem Generics.mentions_renamed (g : Generics) :
    (g.renamed f).params.map GenericParameter.mention =
      (g.params.map GenericParameter.mention).map (Mention.renamed f) := by
  rw [renamed, List.map_map, List.map_map]
  exact List.map_congr_left fun param _ => param.mention_renamed

theorem GenericParameter.boundTrees_renamed (param : GenericParameter) :
    (param.renamed f).boundTrees = param.boundTrees.map (Tree.mapNames f) := by
  cases param with
  | lifetime =>
    simp only [renamed, boundTrees, List.map_map]
    rfl
  | type => rfl
  | const => rfl

theorem WherePredicate.boundTrees_renamed (predicate : WherePredicate) :
    (predicate.renamed f).boundTrees = predicate.boundTrees.map (Tree.mapNames f) := by
  cases predicate with
  | lifetime =>
    simp only [renamed, boundTrees, List.map_map]
    rfl
  | type => rfl

/-- The subject of a predicate is mentioned by it. -/
theorem WherePredicate.subject?_renamed {names after : GenericNames} {struct : Generics}
    (predicate : WherePredicate)
    (each : ∀ m ∈ predicate.tree.mentions, names.Respelled after f m) :
    (predicate.renamed f).subject? struct after = predicate.subject? struct names := by
  cases predicate with
  | lifetime name bounds trailing =>
    exact (each (.lifetime name) (by simp [tree, Tree.mentions, Tree.mentionsOf])).position
  | type binder bounded bounds trailing =>
    cases binder with
    | some tree => rfl
    | none =>
      have same : after.positionOf (bounded.mapNames f) = names.positionOf bounded :=
        GenericNames.positionOf_renamed fun m member =>
          each m (Tree.mem_mentionsOf.mpr ⟨bounded, List.mem_cons_self, member⟩)
      simp only [renamed, Option.map_none, subject?, same]

/-- The condition with new names, which a table gives. -/
def Condition.renamed (f : Mention → String) (after : GenericNames) : Condition → Condition
  | bound position s => .bound position ⟨after, s.tree.mapNames f⟩
  | predicate s => .predicate ⟨after, s.tree.mapNames f⟩

section

variable {names after : GenericNames} {struct g : Generics}

theorem GenericParameter.conditions_renamed (param : GenericParameter)
    (own : names.Respelled after f param.mention) :
    (param.renamed f).conditions after =
      (param.conditions names).map (Condition.renamed f after) := by
  rw [conditions, conditions, mention_renamed, own.position, boundTrees_renamed]
  cases names.position param.mention with
  | none => rfl
  | some position => simp only [List.map_map, Function.comp_def, Condition.renamed]

theorem WherePredicate.conditions_renamed (predicate : WherePredicate)
    (each : ∀ m ∈ predicate.tree.mentions, names.Respelled after f m) :
    (predicate.renamed f).conditions struct after =
      (predicate.conditions struct names).map (Condition.renamed f after) := by
  rw [conditions, conditions, predicate.subject?_renamed each, boundTrees_renamed, tree_renamed]
  cases predicate.subject? struct names with
  | none => rfl
  | some position => simp only [List.map_map, Function.comp_def, Condition.renamed]

namespace Generics

variable (each : ∀ m ∈ g.mentioned, names.Respelled after f m)

include each

theorem whereConditions_renamed :
    (g.renamed f).whereConditions struct after =
      (g.whereConditions struct names).map (Condition.renamed f after) := by
  rw [whereConditions, whereConditions, renamed, List.flatMap_map, List.map_flatMap]
  refine List.flatMap_congr fun predicate inside => ?_
  refine predicate.conditions_renamed fun m member => each m (mem_mentioned member ?_)
  exact List.mem_append_right _ (List.mem_map_of_mem inside)

theorem conditions_renamed :
    (g.renamed f).conditions struct after =
      (g.conditions struct names).map (Condition.renamed f after) := by
  rw [conditions, conditions, List.map_append, whereConditions_renamed each, renamed,
    List.flatMap_map, List.map_flatMap]
  congr 1
  refine List.flatMap_congr fun param inside => ?_
  exact param.conditions_renamed (each _ (List.mem_append_left _ (List.mem_map_of_mem inside)))

/-- A condition mentions only names that the declaration does. -/
theorem add_renamed {condition : Condition} (member : condition ∈ g.conditions struct names)
    (r : Requirements) :
    r.add struct (condition.renamed f after) = r.add struct condition := by
  have kept {tree : Tree}
      (inside : tree ∈ g.constantTypes ++ g.boundTrees ++ g.predicates.map WherePredicate.tree) :
      (tree.mapNames f).restated after struct = tree.restated names struct ∧
        (tree.mapNames f).canonical after = tree.canonical names :=
    ⟨Tree.restated_renamed fun m member => each m (mem_mentioned member inside),
      Tree.canonical_renamed fun m member => each m (mem_mentioned member inside)⟩
  rcases mem_conditions member with ⟨_, position, -, tree, stated, rfl⟩ | ⟨predicate, inside, rfl⟩
  · obtain ⟨restated, canonical⟩ :=
      kept (List.mem_append_left _ (List.mem_append_right _ stated))
    simp only [Condition.renamed, Requirements.add, Requirements.bound, List.foldl_cons,
      List.foldl_nil, restated, canonical]
  · obtain ⟨restated, -⟩ := kept (List.mem_append_right _ (List.mem_map_of_mem inside))
    simp only [Condition.renamed, Requirements.add]
    exact congrArg (r.addPredicate ·) restated

/-- What a struct and a block require does not depend on how the block spells the parameters. -/
theorem ofBoth_renamed :
    Requirements.ofBoth struct (g.renamed f) after = Requirements.ofBoth struct g names := by
  rw [Requirements.ofBoth_eq, Requirements.ofBoth_eq, Requirements.conditions,
    Requirements.conditions, conditions_renamed each, List.foldl_append, List.foldl_append,
    List.foldl_map]
  exact List.foldl_ext _ _ _ fun r condition member => add_renamed each member r

end Generics

end

end Declarations

end Forwarding
