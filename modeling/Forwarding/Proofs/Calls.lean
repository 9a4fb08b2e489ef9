import Forwarding.Proofs.Recording
/-!
What calls of a constructor require. A forwarding type may call the constructor of its struct where
the bounds of the struct, of the impl block and of the function itself hold. A definition requires
the first two, as far as the block bounds parameters of the struct; it does not depend on the where
clause of the function, nor on its qualifiers, which a scan does not look at.
-/

namespace Forwarding

def GenericParameter.isBounded (param : GenericParameter) : Bool :=
  !param.boundTrees.isEmpty

/-- What the bounds written at a parameter of a block require; bounds of a parameter that the struct
does not have are a predicate. -/
def GenericParameter.demands (names : GenericNames) (param : GenericParameter) : List Condition :=
  match names.position param.mention with
  | some position => param.boundTrees.map fun tree => .bound position ⟨names, tree⟩
  | none => if param.isBounded then [.predicate ⟨names, param.tree⟩] else []

def Generics.inlineConditions (struct : Generics) : List Condition :=
  (struct.params.mapIdx fun position param =>
    param.boundTrees.map fun tree => .bound position ⟨.declared struct, tree⟩).flatten

/-- A definition requires a condition: a bound of the parameter at its position, in canonical form,
and a predicate as a text in the names of the struct. -/
def Definition.Requires (d : Definition) (struct : Generics) : Condition → Prop
  | .bound position s => ∃ p, d.generics[position]? = some p ∧ s.canonical ∈ p.canonicalBounds
  | .predicate s => (s.restate struct).render ∈ d.predicates

namespace Scan.Origin

/-- What the struct and the block require of the parameters of the struct. -/
def inherited (o : Origin) : List Condition :=
  o.struct.generics.inlineConditions
    ++ o.struct.generics.whereConditions o.struct.generics (.declared o.struct.generics)
    ++ o.constructor.block.generics.params.flatMap (GenericParameter.demands o.names)
    ++ o.constructor.block.generics.whereConditions o.struct.generics o.names

/-- What calls of the constructor require: what it inherits, and its own where clause. -/
def demands (o : Origin) : List Condition :=
  o.inherited ++ o.constructor.method.signature.generics.whereConditions o.struct.generics o.names

/-- What a scan checks of the function. -/
structure Callable (o : Origin) (c : Conventions) : Prop where
  named : o.constructor.method.signature.name = c.constructor
  exported : o.constructor.method.visibility.isExported = true
  free : Constructor.takesReceiver o.constructor.method.signature.params = false
  synchronous : o.constructor.method.signature.isAsync = false
  monomorphic : o.constructor.method.signature.generics.params = []
  constructing : Constructor.returnsOwn o.struct o.constructor.method.signature.output = true

variable {o : Origin} {d : Definition}

theorem callable_of_mem {c : Conventions} {unit : SourceUnit} (origin : o ∈ origins c unit) :
    o.Callable c := by
  obtain ⟨site, -, given⟩ := List.mem_filterMap.mp origin
  obtain ⟨-, found, names⟩ := Site.origin?_eq_some given
  obtain ⟨-, -, -, named, exported⟩ := Constructor.find_ok found
  obtain ⟨free, synchronous, monomorphic, constructing, -⟩ := Constructor.names_eq_ok_iff.mp names
  exact ⟨named, exported, free, synchronous, monomorphic, constructing⟩

theorem Describes.within (described : o.Describes d) {m : Mention} {position : Nat}
    (found : o.names.position m = some position) :
    position < o.struct.generics.params.length := by
  obtain ⟨-, -, -, -, given⟩ := Constructor.names_eq_ok_iff.mp described.named
  exact GenericNames.within_ofImpl? given m position found

theorem Describes.requires_bound (described : o.Describes d) {position : Nat} {s : Scoped}
    {param : GenericParameter} (declared : o.struct.generics.params[position]? = some param)
    (member : s ∈ Requirements.boundsOf o.struct.generics o.constructor.block.generics o.names
      position param) :
    d.Requires o.struct.generics (.bound position s) := by
  have folded := Requirements.ofBoth_params o.struct.generics o.constructor.block.generics o.names
    position
  rw [declared, Option.map_some] at folded
  have required := folded
  rw [described.required] at required
  exact ⟨_, required, (Requirements.mem_canonicalBounds declared folded).mpr ⟨s, member, rfl⟩⟩

theorem Describes.requires_inline (described : o.Describes d) :
    ∀ condition ∈ o.struct.generics.inlineConditions, d.Requires o.struct.generics condition := by
  intro condition member
  obtain ⟨conditions, inside, member⟩ := List.mem_flatten.mp member
  obtain ⟨position, present, rfl⟩ := List.mem_mapIdx.mp inside
  obtain ⟨tree, stated, rfl⟩ := List.mem_map.mp member
  exact described.requires_bound (List.getElem?_eq_getElem present)
    (List.mem_append_left _ (List.mem_map.mpr ⟨tree, stated, rfl⟩))

theorem Describes.requires_conditions (described : o.Describes d) :
    ∀ condition ∈ Requirements.conditions o.struct.generics o.constructor.block.generics o.names,
      d.Requires o.struct.generics condition := by
  intro condition member
  cases condition with
  | bound position s =>
    have leads {g : Generics} {names : GenericNames}
        (stated : .bound position s ∈ g.conditions o.struct.generics names) :
        ∃ m, names.position m = some position := by
      rcases Generics.mem_conditions stated with ⟨m, _, found, _, _, same⟩ | ⟨_, _, same⟩
      · cases same
        exact ⟨m, found⟩
      · cases same
    -- a bound at a position where the struct has no parameter would be lost
    have within : position < o.struct.generics.params.length := by
      rcases Requirements.mem_conditions member with stated | stated
      · obtain ⟨m, found⟩ := leads stated
        obtain ⟨param, present, -⟩ := Mention.exists_param found
        exact (List.getElem?_eq_some_iff.mp present).1
      · obtain ⟨m, found⟩ := leads stated
        exact described.within found
    exact described.requires_bound (List.getElem?_eq_getElem within)
      (List.mem_append_right _ (Condition.mem_boundsAt.mpr member))
  | predicate s => exact described.mem_predicates.mpr ⟨s, member, rfl⟩

theorem demands_unguarded
    (unguarded : o.constructor.method.signature.generics.predicates.isEmpty = true) :
    o.demands = o.inherited := by
  rw [List.isEmpty_iff] at unguarded
  rw [demands, Generics.whereConditions, unguarded, List.flatMap_nil, List.append_nil]

theorem mem_conditions_of_inherited (passes : o.Passes GenericParameter.isBounded)
    {condition : Condition} (member : condition ∈ o.inherited) :
    condition ∈ o.struct.generics.inlineConditions ∨
      condition ∈
        Requirements.conditions o.struct.generics o.constructor.block.generics o.names := by
  unfold inherited at member
  unfold Requirements.conditions Generics.conditions
  simp only [List.mem_append] at member ⊢
  rcases member with ((own | own) | block) | block
  · exact .inl own
  · exact .inr (.inl own)
  · obtain ⟨param, inside, stated⟩ := List.mem_flatMap.mp block
    refine .inr (.inr (.inl (List.mem_flatMap.mpr ⟨param, inside, ?_⟩)))
    unfold GenericParameter.demands at stated
    unfold GenericParameter.conditions
    cases found : o.names.position param.mention with
    | some position => rwa [found] at stated
    | none =>
      rw [found] at stated
      dsimp only at stated
      -- only a parameter that the block passes to the struct is bounded
      split at stated
      · rename_i bounded
        have passed := passes param inside bounded
        rw [found] at passed
        cases passed
      · cases stated
  · exact .inr (.inr (.inr block))

theorem Describes.requires_inherited (described : o.Describes d)
    (passes : o.Passes GenericParameter.isBounded) :
    ∀ condition ∈ o.inherited, d.Requires o.struct.generics condition := by
  intro condition member
  rcases mem_conditions_of_inherited passes member with inline | stated
  · exact described.requires_inline condition inline
  · exact described.requires_conditions condition stated

end Scan.Origin

namespace Scan

/-- A definition requires all that its constructor inherits if the block bounds parameters of the
struct only, and that is all that calls of the constructor require if it has no where clause. -/
theorem demands_required {c : Conventions} {unit : SourceUnit} {definitions : List Definition}
    {d : Definition} (scanned : scan c unit = .ok definitions) (member : d ∈ definitions) :
    ∃ o ∈ origins c unit, o.Describes d ∧ o.Callable c ∧
      (o.Passes GenericParameter.isBounded →
        (∀ condition ∈ o.inherited, d.Requires o.struct.generics condition) ∧
        (o.constructor.method.signature.generics.predicates.isEmpty = true →
          ∀ condition ∈ o.demands, d.Requires o.struct.generics condition)) := by
  obtain ⟨o, origin, described⟩ := exists_origin scanned member
  refine ⟨o, origin, described, Origin.callable_of_mem origin, fun passes => ⟨?_, ?_⟩⟩
  · exact described.requires_inherited passes
  · intro unguarded
    rw [Origin.demands_unguarded unguarded]
    exact described.requires_inherited passes

def bounded : SourceUnit :=
  ⟨"src/lib.rs", ["crate"],
    "#[variant_merge(name=\"G\",priority=1)]pub struct H<T:Copy>\x7bpub a:T\x7d" ++
      "impl<U:Ord>H<U>where U:Eq\x7bpub fn new(a:U)->Self\x7bH\x7ba\x7d\x7d\x7d"⟩

theorem demands_required_bounded :
    ∃ definitions, scan {} bounded = .ok definitions ∧ definitions.length = 1 ∧
      ∀ d ∈ definitions, ∃ o ∈ origins {} bounded,
        ∀ condition ∈ o.demands, d.Requires o.struct.generics condition := by
  have computed : (scan {} bounded).toOption.map (·.length) = some 1 ∧
      ∀ o ∈ origins {} bounded, o.Passes GenericParameter.isBounded ∧
        o.constructor.method.signature.generics.predicates.isEmpty = true := by
    rw [scan_of_hasChars bounded (.append .literal .literal),
      origins_of_hasChars bounded (.append .literal .literal)]
    decide +kernel
  obtain ⟨definitions, scanned, single⟩ := exists_scanned computed.1
  refine ⟨definitions, scanned, single, fun d member => ?_⟩
  obtain ⟨o, origin, -, -, required⟩ := demands_required scanned member
  obtain ⟨passes, unguarded⟩ := computed.2 o origin
  exact ⟨o, origin, (required passes).2 unguarded⟩

/-- A unit whose constructor is bounded by its own where clause. -/
def guarded : SourceUnit :=
  ⟨"src/lib.rs", ["crate"],
    "#[variant_merge(name=\"G\",priority=1)]pub struct H<T>\x7bpub a:T\x7d" ++
      "impl<T>H<T>\x7bpub fn new(a:T)->Self where T:Clone\x7bH\x7ba\x7d\x7d\x7d"⟩

/-- Calls of the constructor require a bound, and the definition requires none. -/
theorem demands_dropped_guarded :
    (∃ o ∈ origins {} guarded, ∃ s ∈ Condition.boundsAt 0 o.demands, s.canonical = "Clone") ∧
      (scan {} guarded).toOption.map (·.map (·.generics)) = some [[⟨"T", .type, [], []⟩]] := by
  rw [scan_of_hasChars guarded (.append .literal .literal),
    origins_of_hasChars guarded (.append .literal .literal)]
  decide +kernel

end Scan

/-! What a scan does not look at. -/

/-- The signature without its qualifiers, its where clause and its variable arguments. -/
def Signature.bare (s : Signature) : Signature :=
  { s with
    isConst := false
    isUnsafe := false
    convention := none
    generics := { s.generics with predicates := [], predicatesTrailing := false }
    trailing := false
    variadic := none }

def Method.bare (m : Method) : Method :=
  { m with signature := m.signature.bare }

def ImplMember.bare : ImplMember → ImplMember
  | method m => .method m.bare
  | other tree => .other tree

def ImplItem.bare (block : ImplItem) : ImplItem :=
  { block with members := block.members.map ImplMember.bare }

namespace Constructor

def bare (k : Constructor) : Constructor :=
  ⟨k.block.bare, k.method.bare⟩

theorem exported_bare (name : String) (block : ImplItem) :
    block.bare.exported name = (block.exported name).map bare := by
  unfold ImplItem.exported
  rw [List.map_filterMap]
  change (block.members.map ImplMember.bare).filterMap _ = _
  rw [List.filterMap_map]
  refine List.filterMap_congr fun member _ => ?_
  cases member with
  | other tree => rfl
  | method method =>
    dsimp only [Function.comp_apply, ImplMember.bare, Method.bare, Signature.bare]
    split <;> rfl

theorem find_bare (type name : String) (blocks : List ImplItem) :
    find type name (blocks.map ImplItem.bare) = (find type name blocks).map bare := by
  have inherent :
      (blocks.map ImplItem.bare).filter (fun block => block.inherentName? == some type) =
        (blocks.filter fun block => block.inherentName? == some type).map ImplItem.bare := by
    rw [List.filter_map]
    rfl
  have exported : ((blocks.map ImplItem.bare).filter fun block =>
      block.inherentName? == some type).flatMap (ImplItem.exported name) =
        ((blocks.filter fun block => block.inherentName? == some type).flatMap
          (ImplItem.exported name)).map bare := by
    rw [inherent, List.flatMap_map, List.map_flatMap]
    exact List.flatMap_congr fun block _ => exported_bare name block
  unfold find
  dsimp only
  rw [exported]
  generalize (blocks.filter fun block => block.inherentName? == some type).flatMap
    (ImplItem.exported name) = candidates
  rcases candidates with _ | ⟨first, _ | ⟨second, rest⟩⟩ <;> rfl

end Constructor

namespace Scan

/-- The where clause and the qualifiers of a constructor do not change what is found of a struct. -/
theorem describe_bare (c : Conventions) (module : List String) (blocks : List ImplItem)
    (struct : StructItem) (arguments : Annotation) (location : Location) :
    describe c module (blocks.map ImplItem.bare) struct arguments location =
      describe c module blocks struct arguments location := by
  have found := Constructor.find_bare (unraw struct.name) c.constructor blocks
  unfold describe
  dsimp only
  rw [found]
  cases Constructor.find (unraw struct.name) c.constructor blocks with
  | error defect => rfl
  | ok k => rfl

end Scan

end Forwarding
