import Forwarding.Proofs.Folding
import Forwarding.Proofs.Origin
/-!
What a definition records. The types of its parameters, its bounds and its predicates are texts of
syntax that stands at the struct or at the block of the constructor, restated in the names of the
struct. Its generic parameters are those of the struct.
-/

namespace Forwarding

def Parameter.type? : Parameter → Option Tree
  | receiver _ => none
  | typed _ _ _ type => some type

namespace Constructor

def types (k : Constructor) : List Tree :=
  k.method.signature.params.filterMap Parameter.type?

theorem shapes_eq {k : Constructor} {type : String} {struct : StructItem} {names : GenericNames}
    {recorded : List ConstructorParam} (listed : k.params type struct names = .ok recorded) :
    recorded.map (·.shape) = k.types.map (shapeOf struct.generics names) := by
  have related := paramsFrom_ok listed
  clear listed
  unfold types
  generalize k.method.signature.params = params at related
  induction related with
  | nil => rfl
  | cons first _ ih =>
    obtain ⟨attributes, pattern, name, declared, rfl, -, rfl⟩ := first
    exact congrArg (shapeOf struct.generics names declared :: ·) ih

end Constructor

theorem ParamShape.type_shapeOf (struct : Generics) (names : GenericNames) (tree : Tree) :
    (Constructor.shapeOf struct names tree).type = tree.restated names struct := by
  unfold Constructor.shapeOf
  cases names.positionOf tree <;> rfl

namespace Scan.Origin

def types (o : Origin) : List Scoped :=
  o.constructor.types.map (Scoped.mk o.names)

/-- The bounds of the struct, in its own names, and those of the block. -/
def bounds (o : Origin) : List Scoped :=
  o.struct.generics.boundTrees.map (Scoped.mk (.declared o.struct.generics))
    ++ o.constructor.block.generics.boundTrees.map (Scoped.mk o.names)

/-- The predicates of the struct, in its own names, and those of the block. -/
def predicates (o : Origin) : List Scoped :=
  (o.struct.generics.predicates.map WherePredicate.tree).map
      (Scoped.mk (.declared o.struct.generics))
    ++ (o.constructor.block.generics.predicates.map WherePredicate.tree).map (Scoped.mk o.names)

/-- Every parameter of the block of some kind is an argument of its self type. -/
def Passes (o : Origin) (kind : GenericParameter → Bool) : Prop :=
  ∀ param ∈ o.constructor.block.generics.params, kind param = true →
    (o.names.position param.mention).isSome = true

instance (o : Origin) (kind : GenericParameter → Bool) : Decidable (o.Passes kind) :=
  inferInstanceAs (Decidable (∀ param ∈ o.constructor.block.generics.params, _ → _))

variable {o : Origin} {d : Definition}

theorem Describes.shapes (described : o.Describes d) :
    d.params.map (·.shape) =
      o.types.map fun s => Constructor.shapeOf o.struct.generics s.names s.tree := by
  rw [Constructor.shapes_eq described.listed, types, List.map_map]
  rfl

/-- The recorded types of the parameters are the texts of the written ones, restated. -/
theorem Describes.types (described : o.Describes d) :
    d.params.map (·.shape.type) =
      o.types.map fun s => (s.restate o.struct.generics).render := by
  have shapes := congrArg (List.map ParamShape.type) described.shapes
  rw [List.map_map, List.map_map] at shapes
  refine shapes.trans (List.map_congr_left fun s _ => ?_)
  exact ParamShape.type_shapeOf o.struct.generics s.names s.tree

theorem Describes.exists_param (described : o.Describes d) {position : Nat} {p : GenericParam}
    (present : d.generics[position]? = some p) :
    ∃ param, o.struct.generics.params[position]? = some param ∧
      (Requirements.ofBoth o.struct.generics o.constructor.block.generics
        o.names).params[position]? = some p := by
  have folded : (Requirements.ofBoth o.struct.generics o.constructor.block.generics
      o.names).params[position]? = some p := by
    rw [described.required]
    exact present
  have declared := folded
  rw [Requirements.ofBoth_params] at declared
  obtain ⟨param, declared, -⟩ := Option.map_eq_some_iff.mp declared
  exact ⟨param, declared, folded⟩

/-- A recorded parameter has the name and the kind of the declared one. -/
theorem Describes.declares (described : o.Describes d) {position : Nat} {p : GenericParam}
    (present : d.generics[position]? = some p) :
    ∃ param, o.struct.generics.params[position]? = some param ∧
      p.name = (GenericParam.ofDeclared (.declared o.struct.generics) param).name ∧
      p.kind = (GenericParam.ofDeclared (.declared o.struct.generics) param).kind := by
  obtain ⟨param, declared, folded⟩ := described.exists_param present
  rw [Requirements.ofBoth_params, declared, Option.map_some, Option.some.injEq] at folded
  rw [← folded, GenericParam.name_addAll, GenericParam.kind_addAll]
  exact ⟨param, declared, rfl, rfl⟩

/-- Every bound of a parameter is written at the struct or at the block. -/
theorem mem_bounds {position : Nat} {param : GenericParameter} {s : Scoped}
    (declared : o.struct.generics.params[position]? = some param)
    (member : s ∈ Requirements.boundsOf o.struct.generics o.constructor.block.generics o.names
      position param) : s ∈ o.bounds := by
  rcases Requirements.mem_boundsOf (List.mem_of_getElem? declared) member with
    ⟨used, stated⟩ | ⟨used, stated⟩
  · exact List.mem_append_left _ (List.mem_map.mpr ⟨s.tree, stated, by rw [← used]⟩)
  · exact List.mem_append_right _ (List.mem_map.mpr ⟨s.tree, stated, by rw [← used]⟩)

theorem Describes.records (described : o.Describes d) {p : GenericParam} (member : p ∈ d.generics) :
    ∃ written, (∀ s ∈ written, s ∈ o.bounds) ∧ p.Records o.struct.generics written := by
  obtain ⟨position, present⟩ := List.getElem?_of_mem member
  obtain ⟨param, declared, folded⟩ := described.exists_param present
  obtain ⟨written, part, records⟩ := Requirements.exists_records declared folded
  exact ⟨written, fun s inside => mem_bounds declared (part.subset inside), records⟩

theorem Describes.mem_predicates (described : o.Describes d) {text : String} :
    text ∈ d.predicates ↔
      ∃ s, Condition.predicate s ∈
        Requirements.conditions o.struct.generics o.constructor.block.generics o.names ∧
          (s.restate o.struct.generics).render = text := by
  rw [← Requirements.mem_ofBoth_predicates, described.required]

theorem Describes.exists_predicate (described : o.Describes d) {text : String}
    (member : text ∈ d.predicates) :
    ∃ s ∈ o.predicates, (s.restate o.struct.generics).render = text := by
  obtain ⟨s, condition, same⟩ := described.mem_predicates.mp member
  refine ⟨s, ?_, same⟩
  have stated {g : Generics} {used : GenericNames}
      (member : .predicate s ∈ g.conditions o.struct.generics used) :
      s ∈ (g.predicates.map WherePredicate.tree).map (Scoped.mk used) := by
    rcases Generics.mem_conditions member with ⟨_, _, _, _, _, same⟩ | ⟨predicate, inside, same⟩
    · cases same
    · cases same
      exact List.mem_map_of_mem (List.mem_map_of_mem inside)
  exact List.mem_append.mpr ((Requirements.mem_conditions condition).imp stated stated)

theorem Describes.lists_lifetime (described : o.Describes d) {position : Nat}
    {attributes : List Attribute} {name : String} {bounds : List String} {trailing : Bool}
    (declared :
      o.struct.generics.params[position]? = some (.lifetime attributes name bounds trailing)) :
    ∃ p ∈ d.generics, p.kind = .lifetime ∧ p.name = (Tree.lifetime name).render := by
  have folded := Requirements.ofBoth_params o.struct.generics o.constructor.block.generics o.names
    position
  rw [described.required, declared, Option.map_some] at folded
  refine ⟨_, List.mem_of_getElem? folded, ?_, ?_⟩
  · rw [GenericParam.kind_addAll]
    rfl
  · rw [GenericParam.name_addAll]
    rfl

end Scan.Origin

end Forwarding
