import Forwarding.Proofs.Restating
import Forwarding.Scan.Requirements
/-!
Folding. What a struct and an impl block require of their generic parameters is a list of
conditions, each a bound of the parameter at a position or a predicate kept as a whole, and the
requirements of both are these conditions added one after another. No condition is lost: the
canonical bounds of a parameter are those of all conditions on it, and its written bounds are the
restated texts of some of them with the same canonical forms.
-/

namespace Forwarding

/-- Something that is required of the parameters of a struct. -/
inductive Condition where
  /-- A bound of the parameter at a position. -/
  | bound (position : Nat) (written : Scoped)
  /-- A predicate that is no bound of a single parameter. -/
  | predicate (written : Scoped)

/-- The bounds of the parameter at a position. -/
def Condition.boundsAt (position : Nat) (conditions : List Condition) : List Scoped :=
  conditions.filterMap fun
    | .bound p written => if p = position then some written else none
    | .predicate _ => none

theorem Condition.mem_boundsAt {position : Nat} {conditions : List Condition} {s : Scoped} :
    s ∈ boundsAt position conditions ↔ .bound position s ∈ conditions := by
  unfold boundsAt
  rw [List.mem_filterMap]
  constructor
  · rintro ⟨condition, member, kept⟩
    cases condition with
    | predicate written => cases kept
    | bound p written =>
      dsimp only at kept
      split at kept
      · rename_i here
        cases kept
        rwa [here] at member
      · cases kept
  · exact fun member => ⟨_, member, if_pos rfl⟩

def GenericParameter.boundTrees : GenericParameter → List Tree
  | lifetime _ _ bounds _ => bounds.map Tree.lifetime
  | type _ _ bounds _ _ => bounds
  | const .. => []

/-- What the bounds written at a parameter require. -/
def GenericParameter.conditions (names : GenericNames) (param : GenericParameter) :
    List Condition :=
  match names.position param.mention with
  | some position => param.boundTrees.map fun tree => .bound position ⟨names, tree⟩
  | none => []

def Generics.isType (struct : Generics) (position : Nat) : Bool :=
  match struct.params[position]? with
  | some (.type ..) => true
  | _ => false

namespace WherePredicate

def boundTrees : WherePredicate → List Tree
  | lifetime _ bounds _ => bounds.map Tree.lifetime
  | type _ _ bounds _ => bounds

/-- The position of the parameter that a predicate bounds, if it bounds exactly one. -/
def subject? (struct : Generics) (names : GenericNames) : WherePredicate → Option Nat
  | lifetime name _ _ => names.lifetimePosition name
  | type none bounded _ _ => (names.positionOf bounded).filter struct.isType
  | type (some _) _ _ _ => none

/-- What a predicate requires. -/
def conditions (struct : Generics) (names : GenericNames) (predicate : WherePredicate) :
    List Condition :=
  match predicate.subject? struct names with
  | some position => predicate.boundTrees.map fun tree => .bound position ⟨names, tree⟩
  | none => [.predicate ⟨names, predicate.tree⟩]

end WherePredicate

def Generics.boundTrees (g : Generics) : List Tree :=
  g.params.flatMap GenericParameter.boundTrees ++ g.predicates.flatMap WherePredicate.boundTrees

def Generics.whereConditions (g struct : Generics) (names : GenericNames) : List Condition :=
  g.predicates.flatMap (WherePredicate.conditions struct names)

/-- What the bounds written at the parameters and the where clause require. -/
def Generics.conditions (g struct : Generics) (names : GenericNames) : List Condition :=
  g.params.flatMap (GenericParameter.conditions names) ++ g.whereConditions struct names

theorem WherePredicate.exists_position {struct : Generics} {names : GenericNames}
    {predicate : WherePredicate} {position : Nat}
    (subject : predicate.subject? struct names = some position) :
    ∃ m, names.position m = some position := by
  cases predicate with
  | lifetime name bounds trailing => exact ⟨.lifetime name, subject⟩
  | type binder bounded bounds trailing =>
    cases binder with
    | some tree => cases subject
    | none =>
      have found := Option.eq_some_of_filter_eq_some subject
      rw [GenericNames.positionOf_eq] at found
      obtain ⟨name, -, found⟩ := Option.bind_eq_some_iff.mp found
      exact ⟨.value name, found⟩

theorem Generics.mem_conditions {g struct : Generics} {names : GenericNames} {condition : Condition}
    (member : condition ∈ g.conditions struct names) :
    (∃ m position, names.position m = some position ∧
        ∃ tree ∈ g.boundTrees, condition = .bound position ⟨names, tree⟩) ∨
      ∃ predicate ∈ g.predicates, condition = .predicate ⟨names, predicate.tree⟩ := by
  unfold boundTrees
  rcases List.mem_append.mp member with member | member
  · obtain ⟨param, inside, member⟩ := List.mem_flatMap.mp member
    unfold GenericParameter.conditions at member
    split at member
    · rename_i found
      obtain ⟨tree, stated, rfl⟩ := List.mem_map.mp member
      have bound := List.mem_flatMap.mpr ⟨param, inside, stated⟩
      exact .inl ⟨_, _, found, tree, List.mem_append_left _ bound, rfl⟩
    · cases member
  · obtain ⟨predicate, inside, member⟩ := List.mem_flatMap.mp member
    unfold WherePredicate.conditions at member
    split at member
    · rename_i subject
      obtain ⟨tree, stated, rfl⟩ := List.mem_map.mp member
      obtain ⟨m, found⟩ := WherePredicate.exists_position subject
      have bound := List.mem_flatMap.mpr ⟨predicate, inside, stated⟩
      exact .inl ⟨m, _, found, tree, List.mem_append_right _ bound, rfl⟩
    · exact .inr ⟨predicate, inside, List.mem_singleton.mp member⟩

namespace GenericParam

def addAll (struct : Generics) (written : List Scoped) (p : GenericParam) : GenericParam :=
  written.foldl (fun p s => p.addBound (s.restate struct).render s.canonical) p

variable {struct : Generics}

theorem kind_addBound (p : GenericParam) (written canonical : String) :
    (p.addBound written canonical).kind = p.kind := by
  unfold addBound
  split <;> rfl

theorem name_addBound (p : GenericParam) (written canonical : String) :
    (p.addBound written canonical).name = p.name := by
  unfold addBound
  split <;> rfl

theorem name_addAll (written : List Scoped) (p : GenericParam) :
    (p.addAll struct written).name = p.name := by
  induction written generalizing p with
  | nil => rfl
  | cons s rest ih => exact (ih _).trans (name_addBound p _ _)

theorem kind_addAll (written : List Scoped) (p : GenericParam) :
    (p.addAll struct written).kind = p.kind := by
  induction written generalizing p with
  | nil => rfl
  | cons s rest ih => exact (ih _).trans (kind_addBound p _ _)

theorem mem_addBound {p : GenericParam} {written canonical c : String} :
    c ∈ (p.addBound written canonical).canonicalBounds ↔
      c ∈ p.canonicalBounds ∨ c = canonical := by
  unfold addBound
  split
  · rename_i present
    have member := List.contains_iff_mem.mp present
    exact (or_iff_left_of_imp fun same => same ▸ member).symm
  · rw [mem_insertText, or_comm]

theorem mem_addAll {written : List Scoped} {p : GenericParam} {c : String} :
    c ∈ (p.addAll struct written).canonicalBounds ↔
      c ∈ p.canonicalBounds ∨ ∃ s ∈ written, s.canonical = c := by
  induction written generalizing p with
  | nil => simp [addAll]
  | cons s rest ih =>
    have step : p.addAll struct (s :: rest) =
      (p.addBound (s.restate struct).render s.canonical).addAll struct rest := rfl
    rw [step, ih, mem_addBound, or_assoc, List.exists_mem_cons_iff, eq_comm]

/-- The written bounds of a parameter are texts of these bounds, and the canonical bounds are their
canonical forms. -/
structure Records (struct : Generics) (written : List Scoped) (p : GenericParam) : Prop where
  bounds : p.bounds = written.map fun s => (s.restate struct).render
  canonical : ∀ c, c ∈ p.canonicalBounds ↔ ∃ s ∈ written, s.canonical = c

theorem Records.addBound {written : List Scoped} {p : GenericParam}
    (records : p.Records struct written) (s : Scoped) :
    ∃ more, more.Sublist [s] ∧
      (p.addBound (s.restate struct).render s.canonical).Records struct (written ++ more) := by
  have canonical (c : String) :
      c ∈ (p.addBound (s.restate struct).render s.canonical).canonicalBounds ↔
        c ∈ p.canonicalBounds ∨ c = s.canonical :=
    mem_addBound
  by_cases present : p.canonicalBounds.contains s.canonical
  -- a bound whose canonical form is known is not written a second time
  · have same : p.addBound (s.restate struct).render s.canonical = p := if_pos present
    refine ⟨[], List.nil_sublist _, ?_⟩
    rw [same, List.append_nil]
    exact records
  · refine ⟨[s], List.Sublist.refl _, ?_, ?_⟩
    · unfold GenericParam.addBound
      rw [if_neg present, List.map_append, ← records.bounds]
      rfl
    · intro c
      rw [canonical c, records.canonical c]
      simp only [List.mem_append, List.mem_singleton, or_and_right, exists_or, exists_eq_left]
      rw [eq_comm (a := c)]

theorem Records.addAll {known : List Scoped} {p : GenericParam} (records : p.Records struct known)
    (written : List Scoped) :
    ∃ more, more.Sublist written ∧ (p.addAll struct written).Records struct (known ++ more) := by
  induction written generalizing p known with
  | nil => exact ⟨[], List.Sublist.refl _, by rwa [List.append_nil]⟩
  | cons s rest ih =>
    obtain ⟨first, part, after⟩ := records.addBound s
    obtain ⟨others, parts, final⟩ := ih after
    refine ⟨first ++ others, part.append parts, ?_⟩
    rw [← List.append_assoc]
    exact final

theorem ofDeclared_records (struct : Generics) (param : GenericParameter) :
    (ofDeclared (.declared struct) param).Records struct
      (param.boundTrees.map fun tree => ⟨.declared struct, tree⟩) := by
  have own (bounds : List Tree) : bounds.map Tree.render =
      (bounds.map (Scoped.mk (.declared struct))).map fun s => (s.restate struct).render := by
    rw [List.map_map]
    exact List.map_congr_left fun tree _ =>
      congrArg Tree.render (Scoped.restate_declared struct tree).symm
  have forms (bounds : List Tree) (c : String) :
      c ∈ setOfTexts (bounds.map (·.canonical (.declared struct))) ↔
        ∃ s ∈ bounds.map (Scoped.mk (.declared struct)), s.canonical = c := by
    simp only [mem_setOfTexts, List.mem_map, exists_exists_and_eq_and]
    rfl
  cases param with
  | lifetime attributes name bounds trailing => exact ⟨own _, forms _⟩
  | type attributes name bounds trailing byDefault => exact ⟨own _, forms _⟩
  | const attributes name type byDefault =>
    exact ⟨rfl, fun c => by simp [ofDeclared, GenericParameter.boundTrees]⟩

end GenericParam

namespace Requirements

def add (struct : Generics) (r : Requirements) : Condition → Requirements
  | .bound position written => r.bound struct written.names position [written.tree]
  | .predicate written => r.addPredicate (written.restate struct).render

variable {struct : Generics} {names : GenericNames}

theorem params_addPredicate (text : String) (r : Requirements) :
    (r.addPredicate text).params = r.params := by
  unfold addPredicate
  split <;> rfl

theorem mem_addPredicate {text other : String} {r : Requirements} :
    other ∈ (r.addPredicate text).predicates ↔ other ∈ r.predicates ∨ other = text := by
  unfold addPredicate
  split
  · rename_i present
    have member := List.contains_iff_mem.mp present
    exact (or_iff_left_of_imp fun same => same ▸ member).symm
  · rw [List.mem_append, List.mem_singleton]

-- Whether a predicate is folded into a parameter depends on the kinds recorded so far, so that each
-- step is only known once all steps before it are known to keep them.
theorem isType_add (r : Requirements) (condition : Condition) (p : Nat) :
    (r.add struct condition).isType p = r.isType p := by
  cases condition with
  | predicate written =>
    unfold isType
    rw [add, params_addPredicate]
  | bound position written =>
    unfold isType add bound
    rw [List.getElem?_modify]
    cases r.params[p]? with
    | none => rfl
    | some param =>
      by_cases here : position = p
      · simp [here, GenericParam.kind_addBound]
      · simp [here]

theorem isType_foldl (r : Requirements) (conditions : List Condition) (p : Nat) :
    (conditions.foldl (add struct) r).isType p = r.isType p := by
  induction conditions generalizing r with
  | nil => rfl
  | cons condition rest ih => exact (ih _).trans (isType_add r condition p)

theorem isType_ofDeclared (struct : Generics) (names : GenericNames) (predicates : List String)
    (p : Nat) :
    isType ⟨struct.params.map (GenericParam.ofDeclared names), predicates⟩ p = struct.isType p := by
  unfold isType Generics.isType
  rw [List.getElem?_map]
  cases struct.params[p]? with
  | none => rfl
  | some param => cases param <;> rfl

theorem bound_cons (position : Nat) (first : Tree) (rest : List Tree) (r : Requirements) :
    r.bound struct names position (first :: rest) =
      (r.bound struct names position [first]).bound struct names position rest := by
  simp only [bound, List.modify_modify_eq]
  rfl

theorem bound_eq (position : Nat) (bounds : List Tree) (r : Requirements) :
    r.bound struct names position bounds =
      (bounds.map fun tree => Condition.bound position ⟨names, tree⟩).foldl (add struct) r := by
  induction bounds generalizing r with
  | nil =>
    have same : r.params.modify position id = r.params := List.modify_id position r.params
    simp only [bound, List.foldl_nil, List.map_nil]
    exact congrArg (Requirements.mk · r.predicates) same
  | cons first rest ih =>
    rw [bound_cons, ih]
    rfl

theorem addInline_eq (r : Requirements) (param : GenericParameter) :
    r.addInline struct names param = (param.conditions names).foldl (add struct) r := by
  cases param with
  | lifetime attributes name bounds trailing =>
    unfold addInline GenericParameter.conditions
    dsimp only [GenericParameter.mention, GenericNames.position]
    cases names.lifetimePosition name with
    | none => rfl
    | some position => exact bound_eq position _ r
  | type attributes name bounds trailing byDefault =>
    unfold addInline GenericParameter.conditions
    dsimp only [GenericParameter.mention, GenericNames.position]
    cases names.valuePosition name with
    | none => rfl
    | some position => exact bound_eq position _ r
  | const attributes name type byDefault =>
    unfold addInline GenericParameter.conditions
    cases names.position _ <;> rfl

theorem addWhere_eq {r : Requirements} (kinds : ∀ p, r.isType p = struct.isType p)
    (predicate : WherePredicate) :
    r.addWhere struct names predicate =
      (predicate.conditions struct names).foldl (add struct) r := by
  have plain : r.plainBounds? names predicate =
      (predicate.subject? struct names).map fun p => (p, predicate.boundTrees) := by
    cases predicate with
    | lifetime name bounds trailing => rfl
    | type binder bounded bounds trailing =>
      cases binder with
      | some tree => rfl
      | none =>
        unfold plainBounds? WherePredicate.subject?
        dsimp only
        cases names.positionOf bounded with
        | none => rfl
        | some p =>
          dsimp only
          -- the recorded kind decides, and it is the declared one
          rw [kinds p]
          cases typed : struct.isType p <;> simp [typed, Option.filter, WherePredicate.boundTrees]
  unfold addWhere WherePredicate.conditions
  rw [plain]
  cases predicate.subject? struct names with
  | none => rfl
  | some p => exact bound_eq p predicate.boundTrees r

theorem foldl_addInline (params : List GenericParameter) (r : Requirements) :
    params.foldl (addInline struct names) r =
      (params.flatMap (GenericParameter.conditions names)).foldl (add struct) r := by
  rw [List.foldl_flatMap]
  exact congrArg (fun step => params.foldl step r) (funext₂ addInline_eq)

theorem foldl_addWhere {r : Requirements} (kinds : ∀ p, r.isType p = struct.isType p)
    (predicates : List WherePredicate) :
    predicates.foldl (addWhere struct names) r =
      (predicates.flatMap (WherePredicate.conditions struct names)).foldl (add struct) r := by
  induction predicates generalizing r with
  | nil => rfl
  | cons predicate rest ih =>
    rw [List.foldl_cons, addWhere_eq kinds, List.flatMap_cons, List.foldl_append, ih]
    intro p
    rw [isType_foldl, kinds p]

/-- All that a struct and an impl block require apart from the bounds at the parameters of the
struct. -/
def conditions (struct block : Generics) (names : GenericNames) : List Condition :=
  struct.whereConditions struct (.declared struct) ++ block.conditions struct names

/-- The requirements of both are the parameters as declared, with every condition added. -/
theorem ofBoth_eq (struct block : Generics) (names : GenericNames) :
    ofBoth struct block names =
      (conditions struct block names).foldl (add struct)
        ⟨struct.params.map (GenericParam.ofDeclared (.declared struct)), []⟩ := by
  have kinds := fun p => isType_ofDeclared struct (.declared struct) [] p
  unfold ofBoth ofBlock ofStruct conditions Generics.conditions Generics.whereConditions
  dsimp only
  rw [foldl_addWhere kinds, foldl_addInline, foldl_addWhere, List.foldl_append, List.foldl_append]
  intro p
  rw [isType_foldl, isType_foldl, kinds p]

theorem params_foldl (conditions : List Condition) (r : Requirements) (position : Nat) :
    (conditions.foldl (add struct) r).params[position]? =
      r.params[position]?.map
        (GenericParam.addAll struct (Condition.boundsAt position conditions)) := by
  induction conditions generalizing r with
  | nil => exact Option.map_id'.symm
  | cons condition rest ih =>
    rw [List.foldl_cons, ih]
    cases condition with
    | predicate written =>
      rw [add, params_addPredicate]
      rfl
    | bound p written =>
      unfold add bound
      dsimp only
      rw [List.getElem?_modify]
      cases r.params[position]? with
      | none => rfl
      | some param =>
        by_cases here : p = position
        · simp only [Condition.boundsAt, List.filterMap_cons, here, if_true]
          rfl
        · simp only [Condition.boundsAt, List.filterMap_cons, here, if_false]
          rfl

theorem mem_predicates_foldl {conditions : List Condition} {r : Requirements} {text : String} :
    text ∈ (conditions.foldl (add struct) r).predicates ↔
      text ∈ r.predicates ∨
        ∃ s, Condition.predicate s ∈ conditions ∧ (s.restate struct).render = text := by
  induction conditions generalizing r with
  | nil => simp
  | cons condition rest ih =>
    rw [List.foldl_cons, ih]
    cases condition with
    | bound p written => simp [add, bound]
    | predicate written =>
      rw [add, mem_addPredicate, or_assoc, eq_comm (a := text)]
      simp [or_and_right, exists_or]

/-- Every bound of the parameter at a position, with the names that it uses. -/
def boundsOf (struct block : Generics) (names : GenericNames) (position : Nat)
    (param : GenericParameter) : List Scoped :=
  (param.boundTrees.map fun tree => ⟨.declared struct, tree⟩)
    ++ Condition.boundsAt position (conditions struct block names)

variable {block : Generics} {position : Nat}

theorem ofBoth_params (struct block : Generics) (names : GenericNames) (position : Nat) :
    (ofBoth struct block names).params[position]? =
      struct.params[position]?.map fun param =>
        (GenericParam.ofDeclared (.declared struct) param).addAll struct
          (Condition.boundsAt position (conditions struct block names)) := by
  rw [ofBoth_eq, params_foldl, List.getElem?_map, Option.map_map]
  rfl

theorem mem_conditions {condition : Condition}
    (member : condition ∈ conditions struct block names) :
    condition ∈ struct.conditions struct (.declared struct) ∨
      condition ∈ block.conditions struct names :=
  (List.mem_append.mp member).imp_left (List.mem_append_right _)

/-- Every bound of a parameter is written at the struct, in its names, or at the block. -/
theorem mem_boundsOf {param : GenericParameter} {s : Scoped} (declared : param ∈ struct.params)
    (member : s ∈ boundsOf struct block names position param) :
    s.names = .declared struct ∧ s.tree ∈ struct.boundTrees ∨
      s.names = names ∧ s.tree ∈ block.boundTrees := by
  have stated {g : Generics} {used : GenericNames}
      (member : .bound position s ∈ g.conditions struct used) :
      s.names = used ∧ s.tree ∈ g.boundTrees := by
    rcases Generics.mem_conditions member with ⟨_, _, _, tree, inside, same⟩ | ⟨_, _, same⟩
    · cases same
      exact ⟨rfl, inside⟩
    · cases same
  rcases List.mem_append.mp member with member | member
  · obtain ⟨tree, inside, rfl⟩ := List.mem_map.mp member
    exact .inl ⟨rfl, List.mem_append_left _ (List.mem_flatMap.mpr ⟨param, declared, inside⟩)⟩
  · exact (mem_conditions (Condition.mem_boundsAt.mp member)).imp stated stated

theorem mem_ofBoth_predicates {text : String} :
    text ∈ (ofBoth struct block names).predicates ↔
      ∃ s, Condition.predicate s ∈ conditions struct block names ∧
        (s.restate struct).render = text := by
  rw [ofBoth_eq, mem_predicates_foldl]
  simp

/-- No bound is lost or invented. -/
theorem mem_canonicalBounds {param : GenericParameter} {p : GenericParam} {c : String}
    (declared : struct.params[position]? = some param)
    (folded : (ofBoth struct block names).params[position]? = some p) :
    c ∈ p.canonicalBounds ↔ ∃ s ∈ boundsOf struct block names position param, s.canonical = c := by
  rw [ofBoth_params, declared, Option.map_some, Option.some.injEq] at folded
  rw [← folded, GenericParam.mem_addAll, (GenericParam.ofDeclared_records struct param).canonical c,
    boundsOf]
  simp only [List.mem_append, or_and_right, exists_or]

/-- The written bounds are texts of the bounds, one for each canonical form. -/
theorem exists_records {param : GenericParameter} {p : GenericParam}
    (declared : struct.params[position]? = some param)
    (folded : (ofBoth struct block names).params[position]? = some p) :
    ∃ written, written.Sublist (boundsOf struct block names position param) ∧
      p.Records struct written := by
  rw [ofBoth_params, declared, Option.map_some, Option.some.injEq] at folded
  obtain ⟨more, part, records⟩ := (GenericParam.ofDeclared_records struct param).addAll
    (Condition.boundsAt position (conditions struct block names))
  rw [folded] at records
  exact ⟨_, (List.Sublist.refl _).append part, records⟩

end Requirements

end Forwarding
