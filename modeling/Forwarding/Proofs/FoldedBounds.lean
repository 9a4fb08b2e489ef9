import Forwarding.Proofs.Recording
import Mathlib.Data.List.Induction
/-!
Exact folding. Where the block has parameters of the kinds of those that they stand for, each type
or lifetime parameter of the struct has the bounds written inline at it and at its counterpart and
those of the predicates on exactly one of the two, and no others. All other predicates are kept in
the order of the text, each text once.
-/

namespace Forwarding

inductive ParameterKind where
  | lifetime
  | type
  | const
  deriving DecidableEq

def GenericParameter.kind : GenericParameter → ParameterKind
  | lifetime .. => .lifetime
  | type .. => .type
  | const .. => .const

/-- The name that an unquantified predicate bounds, if it bounds only a name. -/
def WherePredicate.target? : WherePredicate → Option Mention
  | lifetime name _ _ => some (.lifetime name)
  | type none bounded _ _ => bounded.soleName?.map .value
  | type (some _) _ _ _ => none

namespace Generics

/-- The parameter at a position can have bounds. -/
def isBoundable (struct : Generics) (position : Nat) : Bool :=
  (struct.params[position]?).any (·.kind != .const)

/-- The bounds of the predicates on exactly one name. -/
def whereBounds (g : Generics) (m : Mention) : List Tree :=
  (g.predicates.filter (·.target? == some m)).flatMap WherePredicate.boundTrees

/-- The predicates that are on something else than a parameter of the struct which can have
bounds. -/
def otherPredicates (g struct : Generics) (names : GenericNames) : List WherePredicate :=
  g.predicates.filter fun predicate =>
    !(predicate.target?.bind names.position).any struct.isBoundable

end Generics

/-- The predicate that is required as a whole. -/
def Condition.predicate? : Condition → Option Scoped
  | bound _ _ => none
  | predicate written => some written

namespace GenericNames

/-- The names lead to lifetimes from lifetimes, and to types and constants from others. -/
def Leads (names : GenericNames) (struct : Generics) : Prop :=
  ∀ m i, names.position m = some i →
    ∃ param, struct.params[i]? = some param ∧ param.mention.isLifetime = m.isLifetime

theorem leads_declared (struct : Generics) : (declared struct).Leads struct := by
  intro m i found
  obtain ⟨param, present, same⟩ := Mention.exists_param found
  exact ⟨param, present, by rw [same]⟩

end GenericNames

variable {struct g : Generics} {names : GenericNames}

/-- A predicate is folded into a parameter when it is on exactly this parameter, which is no
constant. -/
theorem WherePredicate.subject?_eq (leads : names.Leads struct) (predicate : WherePredicate) :
    predicate.subject? struct names =
      (predicate.target?.bind names.position).filter struct.isBoundable := by
  cases predicate with
  | lifetime name bounds trailing =>
    change names.position (.lifetime name) =
      (names.position (.lifetime name)).filter struct.isBoundable
    cases found : names.position (.lifetime name) with
    | none => rfl
    | some i =>
      obtain ⟨param, present, kind⟩ := leads _ i found
      have boundable : struct.isBoundable i = true := by
        rw [Generics.isBoundable, present]
        cases param <;> first | rfl | cases kind
      rw [Option.filter_some, if_pos boundable]
  | type binder bounded bounds trailing =>
    cases binder with
    | some tree => rfl
    | none =>
      rw [subject?, target?, GenericNames.positionOf_eq]
      cases bounded.soleName? with
      | none => rfl
      | some name =>
        change (names.position (.value name)).filter struct.isType =
          (names.position (.value name)).filter struct.isBoundable
        cases found : names.position (.value name) with
        | none => rfl
        | some i =>
          obtain ⟨param, present, kind⟩ := leads _ i found
          have same : struct.isType i = struct.isBoundable i := by
            rw [Generics.isType, Generics.isBoundable, present]
            cases param <;> first | rfl | cases kind
          rw [Option.filter_some, Option.filter_some, same]

namespace Generics

theorem mem_whereBounds {m : Mention} {tree : Tree} :
    tree ∈ g.whereBounds m ↔
      ∃ predicate ∈ g.predicates, predicate.target? = some m ∧ tree ∈ predicate.boundTrees := by
  simp [whereBounds, List.mem_flatMap, and_assoc]

/-- The bounds of predicates at a position are those on a name that leads to it. -/
theorem bound_mem_whereConditions (leads : names.Leads struct) {i : Nat}
    (boundable : struct.isBoundable i = true) {s : Scoped} :
    .bound i s ∈ g.whereConditions struct names ↔
      ∃ m, names.position m = some i ∧ ∃ tree ∈ g.whereBounds m, s = ⟨names, tree⟩ := by
  unfold whereConditions
  rw [List.mem_flatMap]
  constructor
  · rintro ⟨predicate, inside, member⟩
    rw [WherePredicate.conditions, WherePredicate.subject?_eq leads] at member
    split at member
    · rename_i position subject
      obtain ⟨tree, stated, same⟩ := List.mem_map.mp member
      cases same
      obtain ⟨m, target, found⟩ :=
        Option.bind_eq_some_iff.mp (Option.eq_some_of_filter_eq_some subject)
      exact ⟨m, found, tree, mem_whereBounds.mpr ⟨predicate, inside, target, stated⟩, rfl⟩
    · simp at member
  · rintro ⟨m, found, tree, stated, rfl⟩
    obtain ⟨predicate, inside, target, stated⟩ := mem_whereBounds.mp stated
    have subject : predicate.subject? struct names = some i := by
      rw [WherePredicate.subject?_eq leads, target, Option.bind_some, found, Option.filter_some,
        if_pos boundable]
    refine ⟨predicate, inside, ?_⟩
    rw [WherePredicate.conditions, subject]
    exact List.mem_map_of_mem stated

theorem bound_mem_inline {params : List GenericParameter} {i : Nat} {s : Scoped} :
    .bound i s ∈ params.flatMap (GenericParameter.conditions names) ↔
      ∃ own ∈ params, names.position own.mention = some i ∧
        ∃ tree ∈ own.boundTrees, s = ⟨names, tree⟩ := by
  rw [List.mem_flatMap]
  refine exists_congr fun own => and_congr_right fun _ => ?_
  unfold GenericParameter.conditions
  cases names.position own.mention with
  | none => simp
  | some position =>
    simp only [List.mem_map, Condition.bound.injEq, Option.some.injEq]
    constructor
    · rintro ⟨tree, stated, here, rfl⟩
      exact ⟨here, tree, stated, rfl⟩
    · rintro ⟨here, tree, stated, rfl⟩
      exact ⟨tree, stated, here, rfl⟩

/-- A predicate that is not folded into a parameter is kept as a whole. -/
theorem predicates_conditions (leads : names.Leads struct) (predicate : WherePredicate) :
    (predicate.conditions struct names).filterMap Condition.predicate? =
      if (predicate.target?.bind names.position).any struct.isBoundable then []
      else [⟨names, predicate.tree⟩] := by
  rw [WherePredicate.conditions, WherePredicate.subject?_eq leads]
  cases predicate.target?.bind names.position with
  | none => rfl
  | some i =>
    rw [Option.filter_some, Option.any_some]
    cases struct.isBoundable i with
    | false => rfl
    | true => simp [Condition.predicate?]

theorem predicates_whereConditions (leads : names.Leads struct) :
    (g.whereConditions struct names).filterMap Condition.predicate? =
      (g.otherPredicates struct names).map fun predicate => ⟨names, predicate.tree⟩ := by
  unfold whereConditions otherPredicates
  induction g.predicates with
  | nil => rfl
  | cons predicate rest ih =>
    rw [List.flatMap_cons, List.filterMap_append, predicates_conditions leads, ih,
      List.filter_cons]
    cases (predicate.target?.bind names.position).any struct.isBoundable <;> rfl

theorem predicates_inline (params : List GenericParameter) :
    (params.flatMap (GenericParameter.conditions names)).filterMap Condition.predicate? = [] := by
  rw [List.filterMap_eq_nil_iff]
  intro condition member
  obtain ⟨own, -, stated⟩ := List.mem_flatMap.mp member
  unfold GenericParameter.conditions at stated
  split at stated
  · obtain ⟨tree, -, rfl⟩ := List.mem_map.mp stated
    rfl
  · cases stated

end Generics

namespace Requirements

/-- Predicates are added in their order, each text at its first place. -/
theorem predicates_foldl (conditions : List Condition) (params : List GenericParam) :
    (conditions.foldl (add struct) ⟨params, []⟩).predicates =
      ((conditions.filterMap Condition.predicate?).map fun s =>
        (s.restate struct).render).eraseDups := by
  induction conditions using List.reverseRecOn with
  | nil => rfl
  | append_singleton conditions last ih =>
    rw [List.foldl_append, List.filterMap_append, List.map_append, List.eraseDups_append]
    cases last with
    | bound position written =>
      have nothing : [Condition.bound position written].filterMap Condition.predicate? = [] := rfl
      simpa [nothing, add, bound] using ih
    | predicate written =>
      have single : [Condition.predicate written].filterMap Condition.predicate? = [written] := rfl
      simp only [single, List.foldl_cons, List.foldl_nil, add, addPredicate, ih]
      by_cases known : (written.restate struct).render ∈
          (conditions.filterMap Condition.predicate?).map fun s => (s.restate struct).render
      · simp [known, List.removeAll, ih]
      · simp [known, List.removeAll, List.eraseDups_cons]

/-- The predicates of both are those that are not folded, each text once. -/
theorem ofBoth_predicates {block : Generics} (leads : names.Leads struct) :
    (ofBoth struct block names).predicates =
      ((struct.otherPredicates struct (.declared struct)).map (fun p => p.tree.render) ++
        (block.otherPredicates struct names).map
          fun p => p.tree.restated names struct).eraseDups := by
  have own : (fun s : Scoped => (s.restate struct).render) ∘
      (fun predicate : WherePredicate => ⟨.declared struct, predicate.tree⟩) =
        fun p => p.tree.render := by
    funext predicate
    exact congrArg Tree.render (Scoped.restate_declared struct predicate.tree)
  rw [ofBoth_eq, predicates_foldl, conditions, Generics.conditions, List.filterMap_append,
    List.filterMap_append, Generics.predicates_inline, List.nil_append,
    Generics.predicates_whereConditions (GenericNames.leads_declared struct),
    Generics.predicates_whereConditions leads, List.map_append, List.map_map, List.map_map, own]
  rfl

end Requirements

namespace Scan

/-- The struct declares distinct names, and the parameters of the block have the kinds of the
parameters of the struct that they stand for. -/
structure Origin.Matched (o : Origin) : Prop where
  distinct : (o.struct.generics.params.map GenericParameter.mention).Nodup
  kinds : ∀ own ∈ o.constructor.block.generics.params, ∀ i ∈ o.names.position own.mention,
    (o.struct.generics.params[i]?).map GenericParameter.kind = some own.kind

instance (o : Origin) : Decidable o.Matched :=
  decidable_of_iff
    ((o.struct.generics.params.map GenericParameter.mention).Nodup ∧
      ∀ own ∈ o.constructor.block.generics.params, ∀ i ∈ o.names.position own.mention,
        (o.struct.generics.params[i]?).map GenericParameter.kind = some own.kind)
    ⟨fun h => ⟨h.1, h.2⟩, fun h => ⟨h.distinct, h.kinds⟩⟩

namespace Origin

variable {o : Origin} {d : Definition}

/-- The names of the block are those of parameters that it declares. -/
theorem Describes.exists_declared (described : o.Describes d) {m : Mention} {i : Nat}
    (found : o.names.position m = some i) :
    ∃ own ∈ o.constructor.block.generics.params, own.mention = m := by
  obtain ⟨-, -, -, -, given⟩ := Constructor.names_eq_ok_iff.mp described.named
  obtain ⟨passed, same, -, declared⟩ := GenericNames.ofImpl?_eq_some given
  rw [same] at found
  have present := GenericNames.getElem?_of_position found
  exact List.mem_map.mp (declared m (List.mem_of_getElem? present))

theorem Matched.leads (matched : o.Matched) (described : o.Describes d) :
    o.names.Leads o.struct.generics := by
  intro m i found
  obtain ⟨own, declared, rfl⟩ := described.exists_declared found
  obtain ⟨param, present, kind⟩ := Option.map_eq_some_iff.mp (matched.kinds own declared i found)
  refine ⟨param, present, ?_⟩
  rw [GenericParameter.isLifetime_mention, GenericParameter.isLifetime_mention]
  cases param <;> cases own <;> first | rfl | cases kind

theorem Matched.mem_boundsOf (matched : o.Matched) (described : o.Describes d) {i : Nat}
    {param : GenericParameter} (declared : o.struct.generics.params[i]? = some param)
    (boundable : param.kind ≠ .const) (s : Scoped) :
    s ∈ Requirements.boundsOf o.struct.generics o.constructor.block.generics o.names i param ↔
      (∃ tree ∈ param.boundTrees ++ o.struct.generics.whereBounds param.mention,
        s = ⟨.declared o.struct.generics, tree⟩) ∨
      ∃ own ∈ o.constructor.block.generics.params, o.names.position own.mention = some i ∧
        ∃ tree ∈ own.boundTrees ++ o.constructor.block.generics.whereBounds own.mention,
          s = ⟨o.names, tree⟩ := by
  have here : o.struct.generics.isBoundable i = true := by
    rw [Generics.isBoundable, declared]
    simpa using boundable
  -- a name of the struct leads to the position exactly if it is that of the parameter
  have own (m : Mention) :
      (GenericNames.declared o.struct.generics).position m = some i ↔ m = param.mention := by
    rw [GenericNames.declared_eq, GenericNames.position_eq_some_iff matched.distinct,
      List.getElem?_map, declared, Option.map_some, Option.some.injEq, eq_comm]
  have inline : s ∈ param.boundTrees.map (Scoped.mk (.declared o.struct.generics)) ↔
      ∃ tree ∈ param.boundTrees, s = ⟨.declared o.struct.generics, tree⟩ := by
    simp [List.mem_map, eq_comm]
  have clause : (∃ m, o.names.position m = some i ∧
        ∃ tree ∈ o.constructor.block.generics.whereBounds m, s = ⟨o.names, tree⟩) ↔
      ∃ own ∈ o.constructor.block.generics.params, o.names.position own.mention = some i ∧
        ∃ tree ∈ o.constructor.block.generics.whereBounds own.mention, s = ⟨o.names, tree⟩ := by
    constructor
    · rintro ⟨m, found, stated⟩
      obtain ⟨own, inside, rfl⟩ := described.exists_declared found
      exact ⟨own, inside, found, stated⟩
    · rintro ⟨own, -, found, stated⟩
      exact ⟨own.mention, found, stated⟩
  rw [Requirements.boundsOf, List.mem_append, inline, Condition.mem_boundsAt,
    Requirements.conditions, Generics.conditions, List.mem_append, List.mem_append,
    Generics.bound_mem_whereConditions (GenericNames.leads_declared _) here,
    Generics.bound_mem_inline,
    Generics.bound_mem_whereConditions (matched.leads described) here, clause]
  simp only [own, exists_eq_left, List.mem_append, or_and_right, exists_or, and_or_left, or_assoc]

/-- The canonical bounds of a parameter are those written at the parameter or on it, and those
written at a parameter of the block that stands for it or on that. -/
theorem Matched.mem_canonicalBounds (matched : o.Matched) (described : o.Describes d) {i : Nat}
    {param : GenericParameter} {p : GenericParam}
    (declared : o.struct.generics.params[i]? = some param) (boundable : param.kind ≠ .const)
    (present : d.generics[i]? = some p) (c : String) :
    c ∈ p.canonicalBounds ↔
      (∃ tree ∈ param.boundTrees ++ o.struct.generics.whereBounds param.mention,
        tree.canonical (.declared o.struct.generics) = c) ∨
      ∃ own ∈ o.constructor.block.generics.params, o.names.position own.mention = some i ∧
        ∃ tree ∈ own.boundTrees ++ o.constructor.block.generics.whereBounds own.mention,
          tree.canonical o.names = c := by
  have folded : (Requirements.ofBoth o.struct.generics o.constructor.block.generics
      o.names).params[i]? = some p := by
    rw [described.required]
    exact present
  rw [Requirements.mem_canonicalBounds declared folded]
  constructor
  · rintro ⟨s, member, rfl⟩
    rcases (matched.mem_boundsOf described declared boundable s).mp member with
      ⟨tree, stated, rfl⟩ | ⟨own, inside, found, tree, stated, rfl⟩
    · exact .inl ⟨tree, stated, rfl⟩
    · exact .inr ⟨own, inside, found, tree, stated, rfl⟩
  · rintro (⟨tree, stated, rfl⟩ | ⟨own, inside, found, tree, stated, rfl⟩)
    · exact ⟨_, (matched.mem_boundsOf described declared boundable _).mpr
        (.inl ⟨tree, stated, rfl⟩), rfl⟩
    · exact ⟨_, (matched.mem_boundsOf described declared boundable _).mpr
        (.inr ⟨own, inside, found, tree, stated, rfl⟩), rfl⟩

end Origin

/-- Folding is exact. Each parameter of the struct that is no constant has the canonical forms of
the bounds written inline at it and at the parameter of the block that stands for it, and of the
predicates on exactly one of these. All other predicates of the struct and then of the block are
kept, each text at its first place. -/
theorem bounds_folded {c : Conventions} {unit : SourceUnit} {definitions : List Definition}
    {d : Definition} (scanned : scan c unit = .ok definitions) (member : d ∈ definitions) :
    ∃ o ∈ origins c unit, o.Describes d ∧ (o.Matched →
      (∀ i param, o.struct.generics.params[i]? = some param → param.kind ≠ .const →
        ∃ p, d.generics[i]? = some p ∧ ∀ text, text ∈ p.canonicalBounds ↔
          (∃ tree ∈ param.boundTrees ++ o.struct.generics.whereBounds param.mention,
            tree.canonical (.declared o.struct.generics) = text) ∨
          ∃ own ∈ o.constructor.block.generics.params, o.names.position own.mention = some i ∧
            ∃ tree ∈ own.boundTrees ++ o.constructor.block.generics.whereBounds own.mention,
              tree.canonical o.names = text) ∧
      d.predicates =
        ((o.struct.generics.otherPredicates o.struct.generics (.declared o.struct.generics)).map
            (fun p => p.tree.render) ++
          (o.constructor.block.generics.otherPredicates o.struct.generics o.names).map
            fun p => p.tree.restated o.names o.struct.generics).eraseDups) := by
  obtain ⟨o, origin, described⟩ := exists_origin scanned member
  refine ⟨o, origin, described, fun matched => ⟨fun i param declared boundable => ?_, ?_⟩⟩
  · have present := Requirements.ofBoth_params o.struct.generics o.constructor.block.generics
      o.names i
    rw [described.required, declared, Option.map_some] at present
    exact ⟨_, present, matched.mem_canonicalBounds described declared boundable present⟩
  · have required := congrArg Requirements.predicates described.required
    rw [Requirements.ofBoth_predicates (matched.leads described)] at required
    exact required.symm

/-- A unit with bounds at all four places, of which two are written twice. -/
def clauses : SourceUnit :=
  ⟨"src/lib.rs", ["crate"],
    "#[variant_merge(name=\"G\",priority=1)]pub struct H<T:Clone>where T:Copy,Vec<T>:Send" ++
      "\x7bpub a:T\x7dimpl<U:Copy>H<U>where(U):Sync,Vec<U>:Send,for<'c>U:Fn(&'c u8)" ++
      "\x7bpub fn new(a:U)->Self\x7bH\x7ba\x7d\x7d\x7d"⟩

theorem bounds_folded_clauses :
    ∃ d, scan {} clauses = .ok [d] ∧
      (d.generics.map (·.canonicalBounds), d.predicates) =
        ([["Clone", "Copy", "Sync"]], ["Vec < T > : Send", "for < 'c > T : Fn (& 'c u8)"]) ∧
      ∃ o ∈ origins {} clauses, o.Describes d ∧
        ∀ i param, o.struct.generics.params[i]? = some param → param.kind ≠ .const →
          ∃ p, d.generics[i]? = some p ∧ ∀ text, text ∈ p.canonicalBounds ↔
            (∃ tree ∈ param.boundTrees ++ o.struct.generics.whereBounds param.mention,
              tree.canonical (.declared o.struct.generics) = text) ∨
            ∃ own ∈ o.constructor.block.generics.params, o.names.position own.mention = some i ∧
              ∃ tree ∈ own.boundTrees ++ o.constructor.block.generics.whereBounds own.mention,
                tree.canonical o.names = text := by
  have computed : (scan {} clauses).toOption.map (·.map fun d =>
        (d.generics.map (·.canonicalBounds), d.predicates)) =
      some [([["Clone", "Copy", "Sync"]], ["Vec < T > : Send", "for < 'c > T : Fn (& 'c u8)"])] ∧
      ∀ o ∈ origins {} clauses, o.Matched := by
    rw [scan_of_hasChars clauses (by repeat constructor),
      origins_of_hasChars clauses (by repeat constructor)]
    decide +kernel
  obtain ⟨d, scanned, recorded⟩ := exists_single computed.1
  obtain ⟨o, origin, described, folded⟩ := bounds_folded scanned (List.mem_singleton_self d)
  exact ⟨d, scanned, recorded, o, origin, described, (folded (computed.2 o origin)).1⟩

end Scan

end Forwarding
