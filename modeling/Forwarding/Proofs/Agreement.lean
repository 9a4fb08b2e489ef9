import Forwarding.Proofs.Recording
/-!
Agreement of the two forms of a definition. The types and bounds that a definition records are
written in the names of the struct, while their canonical forms are taken with the names of the impl
block. Whoever reads the written forms with the names of the struct finds the canonical forms,
unless the block mentions something else that has the name of a parameter of the struct: restating
gives the parameters of the block that name too.
-/

namespace Forwarding

theorem Constructor.shapeOf_restate {struct : Generics} {s : Scoped} (kept : s.Kept struct) :
    shapeOf struct (.declared struct) (s.restate struct) = shapeOf struct s.names s.tree := by
  have text : (s.restate struct).restated (.declared struct) struct =
      s.tree.restated s.names struct :=
    congrArg Tree.render (Scoped.restate_declared struct _)
  have form : (s.restate struct).canonical (.declared struct) = s.tree.canonical s.names :=
    Scoped.canonical_restate kept
  unfold shapeOf
  rw [Scoped.positionOf_restate kept, text, form]

/-- The shape of a written type for a reader who knows the names of the struct. -/
def ParamShape.reread (struct : Generics) (shape : ParamShape) : Option ParamShape :=
  match Grammar.parseText (·.type) shape.type with
  | .ok tree => some (Constructor.shapeOf struct (.declared struct) tree)
  | .error _ => none

theorem ParamShape.reread_shapeOf {struct : Generics} {s : Scoped} (kept : s.Kept struct)
    (parsed : Grammar.parseText (·.type) (Constructor.shapeOf struct s.names s.tree).type =
      .ok (s.restate struct)) :
    (Constructor.shapeOf struct s.names s.tree).reread struct =
      some (Constructor.shapeOf struct s.names s.tree) := by
  unfold reread
  rw [parsed]
  exact congrArg some (Constructor.shapeOf_restate kept)

namespace GenericParam

/-- The written bounds are restated bounds, and their canonical forms, taken with the names of the
struct, are the canonical bounds. -/
def Agrees (struct : Generics) (bounds : List Scoped) (p : GenericParam) : Prop :=
  ∃ written : List Scoped, (∀ s ∈ written, s ∈ bounds) ∧
    p.bounds = written.map (fun s => (s.restate struct).render) ∧
    ∀ c, c ∈ p.canonicalBounds ↔
      ∃ s ∈ written, (s.restate struct).canonical (.declared struct) = c

theorem Records.agrees {struct : Generics} {bounds written : List Scoped} {p : GenericParam}
    (records : p.Records struct written) (stated : ∀ s ∈ written, s ∈ bounds)
    (kept : ∀ s ∈ bounds, s.Kept struct) : p.Agrees struct bounds := by
  refine ⟨written, stated, records.bounds, fun c => ?_⟩
  rw [records.canonical c]
  constructor
  · rintro ⟨s, member, rfl⟩
    exact ⟨s, member, Scoped.canonical_restate (kept s (stated s member))⟩
  · rintro ⟨s, member, rfl⟩
    exact ⟨s, member, (Scoped.canonical_restate (kept s (stated s member))).symm⟩

end GenericParam

namespace Scan

namespace Origin

/-- The names of the block lead to the parameters of the struct, and nothing else that its types and
bounds mention has the name of one of them. -/
structure Apart (o : Origin) : Prop where
  aligned : o.names.Aligned o.struct.generics
  foreign : ∀ tree ∈ o.constructor.types ++ o.constructor.block.generics.boundTrees,
    ∀ m ∈ tree.mentions, o.names.position m = none →
      (GenericNames.declared o.struct.generics).position m = none

instance (o : Origin) : Decidable o.Apart :=
  decidable_of_iff
    (o.names.Aligned o.struct.generics ∧
      ∀ tree ∈ o.constructor.types ++ o.constructor.block.generics.boundTrees,
        ∀ m ∈ tree.mentions, o.names.position m = none →
          (GenericNames.declared o.struct.generics).position m = none)
    ⟨fun h => ⟨h.1, h.2⟩, fun h => ⟨h.aligned, h.foreign⟩⟩

/-- The recorded shapes and bounds are those that the written forms have when they are read with the
names of the struct. A written type that parses as what was written is such a form. -/
structure FormsAgree (o : Origin) (d : Definition) : Prop where
  shapes : d.params.map (·.shape) = o.types.map fun s =>
    Constructor.shapeOf o.struct.generics (.declared o.struct.generics)
      (s.restate o.struct.generics)
  reread : ∀ p ∈ d.params, ∃ s ∈ o.types, p.shape.type = (s.restate o.struct.generics).render ∧
    (Grammar.parseText (·.type) p.shape.type = .ok (s.restate o.struct.generics) →
      p.shape.reread o.struct.generics = some p.shape)
  bounds : ∀ p ∈ d.generics, p.Agrees o.struct.generics o.bounds

variable {o : Origin} {d : Definition}

theorem Apart.kept (apart : o.Apart) {tree : Tree}
    (member : tree ∈ o.constructor.types ++ o.constructor.block.generics.boundTrees) :
    (Scoped.mk o.names tree).Kept o.struct.generics :=
  fun m mentioned => (apart.aligned.kept_iff m).mpr (apart.foreign tree member m mentioned)

theorem Apart.kept_types (apart : o.Apart) : ∀ s ∈ o.types, s.Kept o.struct.generics := by
  intro s member
  obtain ⟨tree, inside, rfl⟩ := List.mem_map.mp member
  exact apart.kept (List.mem_append_left _ inside)

theorem Apart.kept_bounds (apart : o.Apart) : ∀ s ∈ o.bounds, s.Kept o.struct.generics := by
  intro s member
  rcases List.mem_append.mp member with member | member
  · obtain ⟨tree, -, rfl⟩ := List.mem_map.mp member
    exact Scoped.kept_declared o.struct.generics tree
  · obtain ⟨tree, inside, rfl⟩ := List.mem_map.mp member
    exact apart.kept (List.mem_append_right _ inside)

theorem Describes.formsAgree (described : o.Describes d) (apart : o.Apart) : o.FormsAgree d where
  shapes := by
    rw [described.shapes]
    exact List.map_congr_left fun s member =>
      (Constructor.shapeOf_restate (apart.kept_types s member)).symm
  reread := by
    intro p member
    have shape := List.mem_map_of_mem (f := (·.shape)) member
    rw [described.shapes] at shape
    obtain ⟨s, inside, same⟩ := List.mem_map.mp shape
    rw [← same]
    exact ⟨s, inside, ParamShape.type_shapeOf _ _ _,
      ParamShape.reread_shapeOf (apart.kept_types s inside)⟩
  bounds := by
    intro p member
    obtain ⟨written, stated, records⟩ := described.records member
    exact records.agrees stated apart.kept_bounds

end Origin

/-- The two forms of a definition agree if the names of its origin are apart. -/
theorem forms_agree {c : Conventions} {unit : SourceUnit} {definitions : List Definition}
    {d : Definition} (scanned : scan c unit = .ok definitions) (member : d ∈ definitions) :
    ∃ o ∈ origins c unit, o.Describes d ∧ (o.Apart → o.FormsAgree d) := by
  obtain ⟨o, origin, described⟩ := exists_origin scanned member
  exact ⟨o, origin, described, described.formsAgree⟩

def renamed : SourceUnit :=
  ⟨"src/lib.rs", ["crate"],
    "#[variant_merge(name=\"G\",priority=1)]pub struct H<T>\x7bpub a:T\x7d" ++
      "impl<U:Copy>H<U>\x7bpub fn new(a:U,b:Vec<U>)->Self\x7bH\x7ba\x7d\x7d\x7d"⟩

theorem forms_agree_renamed :
    ∃ definitions, scan {} renamed = .ok definitions ∧ definitions.length = 1 ∧
      ∀ d ∈ definitions, ∃ o ∈ origins {} renamed, o.FormsAgree d := by
  have computed : (scan {} renamed).toOption.map (·.length) = some 1 ∧
      ∀ o ∈ origins {} renamed, o.Apart := by
    rw [scan_of_hasChars renamed (.append .literal .literal),
      origins_of_hasChars renamed (.append .literal .literal)]
    decide +kernel
  obtain ⟨definitions, scanned, single⟩ := exists_scanned computed.1
  refine ⟨definitions, scanned, single, fun d member => ?_⟩
  obtain ⟨o, origin, -, agree⟩ := forms_agree scanned member
  exact ⟨o, origin, agree (computed.2 o origin)⟩

/-- A unit whose impl block renames the parameter and uses another type of the parameter's name. -/
def capturing : SourceUnit :=
  ⟨"src/lib.rs", ["crate"],
    "pub struct T;#[variant_merge(name=\"G\",priority=1)]pub struct H<T>\x7bpub a:T\x7d" ++
      "impl<U>H<U>\x7bpub fn new(a:U,b:T)->Self\x7bH\x7ba\x7d\x7d\x7d"⟩

/-- The other type is recorded as concrete, and its written form is that of the parameter. -/
theorem forms_disagree_capturing :
    ((scan {} capturing).toOption.map fun definitions => definitions.map fun d =>
      d.params.map fun p =>
        (p.shape, p.shape.reread ⟨[.type [] "T" [] false none], false, [], false⟩)) =
    some [[(.generic 0 "T", some (.generic 0 "T")),
      (.concrete "T" "T", some (.generic 0 "T"))]] := by
  rw [scan_of_hasChars capturing (.append .literal .literal)]
  decide +kernel

end Scan

end Forwarding
