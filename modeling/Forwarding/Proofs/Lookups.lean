import Forwarding.Plan
import Forwarding.Proofs.Folding
import Forwarding.Proofs.Grouping
import Forwarding.Proofs.Origin
import Forwarding.Proofs.Ranking
/-!
Lookups. The folding of bounds looks parameters up by their positions, groups are made of lists of
definitions, and a resolution takes the first of such a list. Here each of these steps is a partial
one, without a result where the parameter or the definition is missing, and a pass made of them has
the result of the pass: the tables of names lead only to parameters that the struct has, folding
keeps their number, and no list of definitions is empty.
-/

namespace Forwarding

/-- Where a step with lookups has the result of the step without them, and what follows the step
does as well, both together do. -/
theorem run_bind_eq_some {ε α β : Type} {first? : ExceptT ε Option α} {first : Except ε α}
    {next? : α → ExceptT ε Option β} {next : α → Except ε β} (now : first?.run = some first)
    (later : ∀ a, first = .ok a → (next? a).run = some (next a)) :
    (first? >>= next?).run = some (first >>= next) := by
  rw [ExceptT.run_bind, now]
  cases first with
  | error failure => rfl
  | ok a => exact later a rfl

theorem GenericNames.Within.positionOf {names : GenericNames} {count position : Nat} {type : Tree}
    (within : names.Within count) (found : names.positionOf type = some position) :
    position < count := by
  rw [positionOf_eq] at found
  obtain ⟨name, -, found⟩ := Option.bind_eq_some_iff.mp found
  exact within (.value name) position found

namespace Requirements

variable {struct block : Generics} {names : GenericNames}

section Steps

/-- Requires bounds of the parameter at a position; without a result if there is no parameter. -/
def bound? (struct : Generics) (names : GenericNames) (position : Nat) (bounds : List Tree)
    (r : Requirements) : Option Requirements :=
  if position < r.params.length then some (r.bound struct names position bounds) else none

/-- Requires a predicate. The kind of the parameter that it bounds is looked up first. -/
def addWhere? (struct : Generics) (names : GenericNames) (r : Requirements)
    (predicate : WherePredicate) : Option Requirements :=
  let whole := some (r.addPredicate (predicate.tree.restated names struct))
  match predicate with
  | .type none bounded bounds _ =>
    match names.positionOf bounded with
    | some position => do
      let param ← r.params[position]?
      if param.kind == .type then r.bound? struct names position bounds else whole
    | none => whole
  | .type (some _) _ _ _ => whole
  | .lifetime name bounds _ =>
    match names.lifetimePosition name with
    | some position => r.bound? struct names position (bounds.map Tree.lifetime)
    | none => whole

/-- Requires the bounds written at a parameter of the impl block. -/
def addInline? (struct : Generics) (names : GenericNames) (r : Requirements) :
    GenericParameter → Option Requirements
  | .type _ name bounds _ _ =>
    match names.valuePosition name with
    | some position => r.bound? struct names position bounds
    | none => some r
  | .lifetime _ name bounds _ =>
    match names.lifetimePosition name with
    | some position => r.bound? struct names position (bounds.map Tree.lifetime)
    | none => some r
  | .const .. => some r

/-- What a struct itself requires, with every parameter looked up. -/
def ofStruct? (struct : Generics) : Option Requirements :=
  let names := GenericNames.declared struct
  struct.predicates.foldlM (addWhere? struct names)
    ⟨struct.params.map (GenericParam.ofDeclared names), []⟩

/-- What the impl block requires on top, with every parameter looked up. -/
def ofBlock? (struct block : Generics) (names : GenericNames) (r : Requirements) :
    Option Requirements := do
  let r ← block.params.foldlM (addInline? struct names) r
  block.predicates.foldlM (addWhere? struct names) r

/-- What both require, with every parameter looked up. -/
def ofBoth? (struct block : Generics) (names : GenericNames) : Option Requirements := do
  (← ofStruct? struct).ofBlock? struct block names

end Steps

theorem length_bound (position : Nat) (bounds : List Tree) (r : Requirements) :
    (r.bound struct names position bounds).params.length = r.params.length := by
  rw [bound, List.length_modify]

theorem length_addPredicate (text : String) (r : Requirements) :
    (r.addPredicate text).params.length = r.params.length := by
  rw [params_addPredicate]

/-- A step has a result, and keeps the number of parameters. -/
def Succeeds (r : Requirements) (found : Option Requirements) (total : Requirements) : Prop :=
  found = some total ∧ total.params.length = r.params.length

theorem succeeds_bound? {position : Nat} {r : Requirements} (within : position < r.params.length)
    (bounds : List Tree) :
    r.Succeeds (r.bound? struct names position bounds) (r.bound struct names position bounds) :=
  ⟨if_pos within, length_bound position bounds r⟩

theorem succeeds_addInline? (struct : Generics) {r : Requirements}
    (within : names.Within r.params.length)
    (param : GenericParameter) :
    r.Succeeds (r.addInline? struct names param) (r.addInline struct names param) := by
  cases param with
  | type attributes name bounds trailing byDefault =>
    unfold addInline? addInline
    dsimp only
    cases found : names.valuePosition name with
    | none => exact ⟨rfl, rfl⟩
    | some position => exact succeeds_bound? (within (.value name) position found) bounds
  | lifetime attributes name bounds trailing =>
    unfold addInline? addInline
    dsimp only
    cases found : names.lifetimePosition name with
    | none => exact ⟨rfl, rfl⟩
    | some position => exact succeeds_bound? (within (.lifetime name) position found) _
  | const attributes name type byDefault => exact ⟨rfl, rfl⟩

theorem succeeds_addWhere? {r : Requirements} (within : names.Within r.params.length)
    (predicate : WherePredicate) :
    r.Succeeds (r.addWhere? struct names predicate) (r.addWhere struct names predicate) := by
  have whole (text : String) : r.Succeeds (some (r.addPredicate text)) (r.addPredicate text) :=
    ⟨rfl, length_addPredicate text r⟩
  unfold addWhere? addWhere plainBounds?
  cases predicate with
  | lifetime name bounds trailing =>
    dsimp only
    cases found : names.lifetimePosition name with
    | none => exact whole _
    | some position => exact succeeds_bound? (within (.lifetime name) position found) _
  | type binder bounded bounds trailing =>
    cases binder with
    | some tree => exact whole _
    | none =>
      dsimp only
      cases found : names.positionOf bounded with
      | none => exact whole _
      | some position =>
        have inside := within.positionOf found
        dsimp only
        rw [isType, List.getElem?_eq_getElem inside]
        dsimp only [Option.bind_eq_bind, Option.bind_some]
        split
        · exact succeeds_bound? inside bounds
        · exact whole _

/-- A fold over steps that have results has the result of the whole fold. -/
theorem succeeds_foldlM {α : Type} {count : Nat} {step? : Requirements → α → Option Requirements}
    {step : Requirements → α → Requirements}
    (each : ∀ r : Requirements, r.params.length = count → ∀ a, r.Succeeds (step? r a) (step r a))
    (l : List α) {r : Requirements} (start : r.params.length = count) :
    r.Succeeds (l.foldlM step? r) (l.foldl step r) := by
  induction l generalizing r with
  | nil => exact ⟨rfl, rfl⟩
  | cons a rest ih =>
    obtain ⟨found, kept⟩ := each r start a
    obtain ⟨later, whole⟩ := ih (kept.trans start)
    refine ⟨?_, whole.trans kept⟩
    rw [List.foldlM_cons, found, List.foldl_cons]
    exact later

theorem succeeds_addWheres (struct : Generics) {r : Requirements}
    (within : names.Within r.params.length) (predicates : List WherePredicate) :
    r.Succeeds (predicates.foldlM (addWhere? struct names) r)
      (predicates.foldl (addWhere struct names) r) :=
  succeeds_foldlM (fun _ same predicate => succeeds_addWhere? (same ▸ within) predicate)
    predicates rfl

theorem succeeds_ofBlock? (struct : Generics) {r : Requirements}
    (within : names.Within r.params.length) (block : Generics) :
    r.Succeeds (r.ofBlock? struct block names) (r.ofBlock struct block names) := by
  obtain ⟨found, kept⟩ := succeeds_foldlM
    (fun _ same param => succeeds_addInline? struct (same ▸ within) param) block.params rfl
  obtain ⟨later, whole⟩ := succeeds_addWheres struct (kept.symm ▸ within) block.predicates
  refine ⟨?_, whole.trans kept⟩
  rw [ofBlock?, found]
  exact later

/-- Every parameter that is looked up for a struct and a block is there. -/
theorem ofBoth?_eq (within : names.Within struct.params.length) (block : Generics) :
    ofBoth? struct block names = some (ofBoth struct block names) := by
  let declared : Requirements :=
    ⟨struct.params.map (GenericParam.ofDeclared (.declared struct)), []⟩
  have length : declared.params.length = struct.params.length := List.length_map _
  obtain ⟨found, kept⟩ := succeeds_addWheres struct
    (length.symm ▸ GenericNames.within_declared struct) struct.predicates
  have own : ofStruct? struct = some (ofStruct struct) := found
  rw [ofBoth?, own]
  exact (succeeds_ofBlock? struct ((kept.trans length).symm ▸ within) block).1

end Requirements

namespace Scan

/-- What is found of a struct, with every parameter looked up. -/
def describe? (c : Conventions) (module : List String) (blocks : List ImplItem)
    (struct : StructItem) (arguments : Annotation) (location : Location) :
    ExceptT Defect Option Definition := do
  let type := unraw struct.name
  if !struct.visibility.isExported then throw (.privateType type)
  if struct.fields.isPositional then throw (.tupleStruct type)
  let constructor ← Constructor.find type c.constructor blocks
  let names ← constructor.names type struct
  let params ← constructor.params type struct names
  let requirements ←
    ExceptT.lift (Requirements.ofBoth? struct.generics constructor.block.generics names)
  let properties := struct.properties (constructor.values struct)
  if let some property := reservedAccessor? c.constructor properties then
    throw (.reservedProperty type property)
  if module = ["crate"] && type = arguments.name then throw (.nameCollision arguments.name)
  return {
    name := arguments.name
    priority := arguments.priority
    typePath := ModulePath.member module struct.name
    constructor := constructor.method.signature.name
    params
    generics := requirements.params
    predicates := requirements.predicates
    properties
    location }

theorem describe?_eq (c : Conventions) (module : List String) (blocks : List ImplItem)
    (struct : StructItem) (arguments : Annotation) (location : Location) :
    (describe? c module blocks struct arguments location).run =
      some (describe c module blocks struct arguments location) := by
  unfold describe? describe
  dsimp only
  split
  · rfl
  split
  · rfl
  refine run_bind_eq_some rfl fun k _ => run_bind_eq_some rfl fun names named =>
    run_bind_eq_some rfl fun params _ => ?_
  obtain ⟨-, -, -, -, given⟩ := Constructor.names_eq_ok_iff.mp named
  rw [Requirements.ofBoth?_eq (GenericNames.within_ofImpl? given) k.block.generics]
  cases reservedAccessor? c.constructor (struct.properties (k.values struct)) with
  | some property => rfl
  | none =>
    dsimp only
    split <;> rfl

/-- What is found of a struct that carries the attribute once, with every parameter looked up. -/
def ofStruct? (c : Conventions) (unit : SourceUnit) (module : List String)
    (blocks : List ImplItem) (struct : StructItem) (mark : Attribute) : Option Finding :=
  match Annotation.ofAttribute mark with
  | .error error =>
    some (.error (.scan (unit.location error.place) (.invalidAttribute c.mark error)))
  | .ok arguments => do
    let location := unit.location struct.nameStart
    match ← (describe? c module blocks struct arguments location).run with
    | .error defect => return .error (.scan location defect)
    | .ok definition => return .ok definition

theorem ofStruct?_eq (c : Conventions) (unit : SourceUnit) (module : List String)
    (blocks : List ImplItem) (struct : StructItem) (mark : Attribute) :
    ofStruct? c unit module blocks struct mark =
      some (ofStruct c unit module blocks struct mark) := by
  unfold ofStruct? ofStruct
  cases Annotation.ofAttribute mark with
  | error error => rfl
  | ok arguments =>
    dsimp only
    rw [describe?_eq]
    cases describe c module blocks struct arguments (unit.location struct.nameStart) <;> rfl

/-- What is found of a struct, with every parameter looked up. Only a struct that carries the
attribute once has parameters to look up. -/
def findingsOfStruct? (c : Conventions) (unit : SourceUnit) (module : List String)
    (blocks : List ImplItem) (struct : StructItem) : Option (List Finding) :=
  match struct.attributes.filter c.marks with
  | [mark] => (ofStruct? c unit module blocks struct mark).map fun finding => [finding]
  | _ => some (findingsOfStruct c unit module blocks struct)

theorem findingsOfStruct?_eq (c : Conventions) (unit : SourceUnit) (module : List String)
    (blocks : List ImplItem) (struct : StructItem) :
    findingsOfStruct? c unit module blocks struct =
      some (findingsOfStruct c unit module blocks struct) := by
  unfold findingsOfStruct?
  split
  · next mark once => rw [ofStruct?_eq, Option.map_some, findingsOfStruct, once]
  · rfl

mutual

/-- What is found of a declaration, with every parameter looked up. -/
def findingsOfItem? (c : Conventions) (unit : SourceUnit) (module : List String)
    (blocks : List ImplItem) : Item → Option (List Finding)
  | .struct struct => findingsOfStruct? c unit module blocks struct
  | .implementation block =>
    some (failureFound (misplaced? c unit block.attributes "an impl block"))
  | .other kind attributes _ =>
    match kind.phrase? with
    | some phrase => some (failureFound (misplaced? c unit attributes phrase))
    | none => some []
  | .module attributes _ name content =>
    match misplaced? c unit attributes "a module" with
    | some failure => some [.error failure]
    | none =>
      match content with
      | none => some []
      | some items => findingsOfItems? c unit (module ++ [unraw name]) (blocksOf items) items

/-- What is found of declarations, with every parameter looked up. -/
def findingsOfItems? (c : Conventions) (unit : SourceUnit) (module : List String)
    (blocks : List ImplItem) : List Item → Option (List Finding)
  | [] => some []
  | item :: rest => do
    return (← findingsOfItem? c unit module blocks item) ++
      (← findingsOfItems? c unit module blocks rest)

end

mutual

theorem findingsOfItem?_eq (c : Conventions) (unit : SourceUnit) (module : List String)
    (blocks : List ImplItem) (item : Item) :
    findingsOfItem? c unit module blocks item =
      some (findingsOfItem c unit module blocks item) := by
  cases item with
  | struct struct =>
    rw [findingsOfItem?, findingsOfItem]
    exact findingsOfStruct?_eq c unit module blocks struct
  | implementation block => rw [findingsOfItem?, findingsOfItem]
  | other kind attributes tokens =>
    rw [findingsOfItem?, findingsOfItem]
    cases kind.phrase? <;> rfl
  | module attributes visibility name content =>
    cases content with
    | none =>
      rw [findingsOfItem?, findingsOfItem]
      cases misplaced? c unit attributes "a module" <;> rfl
    | some items =>
      rw [findingsOfItem?, findingsOfItem]
      cases misplaced? c unit attributes "a module" with
      | some failure => rfl
      | none => exact findingsOfItems?_eq c unit (module ++ [unraw name]) (blocksOf items) items

theorem findingsOfItems?_eq (c : Conventions) (unit : SourceUnit) (module : List String)
    (blocks : List ImplItem) (items : List Item) :
    findingsOfItems? c unit module blocks items =
      some (findingsOfItems c unit module blocks items) := by
  cases items with
  | nil => rw [findingsOfItems?, findingsOfItems]
  | cons item rest =>
    rw [findingsOfItems?, findingsOfItems, findingsOfItem?_eq c unit module blocks item,
      findingsOfItems?_eq c unit module blocks rest]
    rfl

end

/-- What is found in a unit, with every parameter looked up. -/
def findings? (c : Conventions) (unit : SourceUnit) : Option (List Finding) :=
  match Grammar.parseFile unit.text with
  | .error error => some [.error (.scan (unit.location error.place) (.malformed error))]
  | .ok items => findingsOfItems? c unit unit.modulePath (blocksOf items) items

theorem findings?_eq (c : Conventions) (unit : SourceUnit) :
    findings? c unit = some (findings c unit) := by
  rw [findings_eq]
  delta findings?
  cases Grammar.parseFile unit.text with
  | error error => rfl
  | ok items => exact findingsOfItems?_eq c unit unit.modulePath (blocksOf items) items

/-- The definitions of some units, with every parameter of every unit looked up. -/
def collect? (c : Conventions) (units : List SourceUnit) :
    Option (Except Failure (List Definition)) := do
  let found ← units.mapM (findings? c)
  return (found.mapM fun findings : List Finding => findings.mapM id).map List.flatten

theorem collect?_eq (c : Conventions) (units : List SourceUnit) :
    collect? c units = some (collect c units) := by
  have all : units.mapM (findings? c) = some (units.map (findings c)) := by
    rw [funext (findings?_eq c)]
    exact List.mapM_pure
  rw [collect?, all]
  dsimp only [Option.bind_eq_bind, Option.bind_some]
  rw [List.mapM_map]
  rfl

end Scan

namespace Group

/-- Enters a definition into a table of the definitions by name, in the order of the names. -/
def enter (d : Definition) : List (String × List Definition) → List (String × List Definition)
  | [] => [(d.name, [d])]
  | (name, members) :: rest =>
    if d.name < name then (d.name, [d]) :: (name, members) :: rest
    else if d.name = name then (name, members ++ [d]) :: rest
    else (name, members) :: enter d rest

/-- The definitions by name. -/
def table (definitions : List Definition) : List (String × List Definition) :=
  definitions.foldl (fun entries d => enter d entries) []

/-- The group of an entry; without a result if the entry has no definition. -/
def ofEntry? : String × List Definition → Option Group
  | (_, []) => none
  | (name, first :: others) => some ⟨name, first, others⟩

/-- A group as an entry. -/
def entry (g : Group) : String × List Definition :=
  (g.name, g.members)

theorem enter_entries (d : Definition) (groups : List Group) :
    enter d (groups.map entry) = (insert d groups).map entry := by
  induction groups with
  | nil => rfl
  | cons g rest ih =>
    rw [List.map_cons, entry, enter, insert]
    split
    · rfl
    split
    · rfl
    · rw [ih]
      rfl

theorem table_eq (definitions : List Definition) :
    table definitions = (partition definitions).map entry := by
  induction definitions using List.reverseRecOn with
  | nil => rfl
  | append_singleton definitions d ih =>
    have step : table (definitions ++ [d]) = enter d (table definitions) := by simp [table]
    rw [step, ih, enter_entries, partition_concat]

theorem mapM_ofEntry? (groups : List Group) : (groups.map entry).mapM ofEntry? = some groups := by
  induction groups with
  | nil => rfl
  | cons g rest ih =>
    rw [List.map_cons, List.mapM_cons, ih]
    rfl

end Group

namespace Resolution

/-- The resolution of an entry; without a result if there is no definition to win. -/
def ofEntry? : String × List Definition → Option Resolution
  | (name, members) =>
    match sortBy byRank members with
    | [] => none
    | winner :: others => some ⟨name, winner, others⟩

theorem ofEntry?_entry (g : Group) : ofEntry? g.entry = some (rank g) := by
  have ranked := chain_rank g
  rw [chain] at ranked
  unfold ofEntry? Group.entry
  dsimp only
  rw [← ranked]
  rfl

/-- Resolves a group, with the winner looked up. -/
def ofGroup? (g : Group) : Option (Except Failure Resolution) := do
  let r ← ofEntry? g.entry
  match r.misfit? with
  | some failure => return .error failure
  | none => return .ok r

theorem ofGroup?_eq (g : Group) : ofGroup? g = some (ofGroup g) := by
  rw [ofGroup?, ofEntry?_entry, ofGroup]
  dsimp only [Option.bind_eq_bind, Option.bind_some]
  cases (rank g).misfit? <;> rfl

/-- Resolves groups, with the winner of each looked up. -/
def ofGroups? (groups : List Group) : Option (Except Failure (List Resolution)) :=
  (groups.mapM ofGroup?).map fun results => results.mapM id

theorem ofGroups?_eq (groups : List Group) : ofGroups? groups = some (ofGroups groups) := by
  have all : groups.mapM ofGroup? = some (groups.map ofGroup) := by
    rw [funext ofGroup?_eq]
    exact List.mapM_pure
  rw [ofGroups?, all, Option.map_some, List.mapM_map]
  rfl

end Resolution

namespace Plan

/-- The resolutions of definitions, with the first definition of every group looked up. -/
def resolve? (definitions : List Definition) : Option (Except Failure (List Resolution)) := do
  let groups ← (Group.table definitions).mapM Group.ofEntry?
  match groups.mapM Group.checked with
  | .error failure => return .error failure
  | .ok groups => Resolution.ofGroups? groups

theorem resolve?_eq (definitions : List Definition) :
    resolve? definitions = some (resolve definitions) := by
  rw [resolve?, Group.table_eq, Group.mapM_ofEntry?, resolve, Group.ofDefinitions]
  dsimp only [Option.bind_eq_bind, Option.bind_some]
  cases (Group.partition definitions).mapM Group.checked with
  | error failure => rfl
  | ok groups => exact Resolution.ofGroups?_eq groups

/-- The plan for some units, with every lookup made. -/
def ofUnits? (c : Conventions) (units : List SourceUnit) : ExceptT Failure Option Plan := do
  let definitions ← ExceptT.mk (Scan.collect? c units)
  let resolutions ← ExceptT.mk (resolve? definitions)
  let artifacts ← liftM (Artifact.ofResolutions resolutions)
  return ⟨units.length, resolutions, artifacts⟩

theorem ofUnits?_eq (c : Conventions) (units : List SourceUnit) :
    (ofUnits? c units).run = some (ofUnits c units) := by
  refine run_bind_eq_some (Scan.collect?_eq c units) fun definitions _ =>
    run_bind_eq_some (resolve?_eq definitions) fun resolutions _ =>
      run_bind_eq_some rfl fun artifacts _ => rfl

/-- The tables of names lead only to parameters that the struct has, whatever is declared twice; no
entry of a table of definitions is empty, and neither is its chain; and a pass in which every
parameter, group and winner is looked up has the result of the pass. -/
theorem lookups_succeed (c : Conventions) (units : List SourceUnit) :
    (∀ struct : Generics, (GenericNames.declared struct).Within struct.params.length) ∧
      (∀ (block : Generics) (selfType : Tree) (arity : Nat) (names : GenericNames),
        GenericNames.ofImpl? block selfType arity = some names → names.Within arity) ∧
      (∀ definitions, ∀ entry ∈ Group.table definitions,
        entry.2 ≠ [] ∧ sortBy Resolution.byRank entry.2 ≠ []) ∧
      (ofUnits? c units).run = some (ofUnits c units) := by
  refine ⟨GenericNames.within_declared, fun _ _ _ _ given => GenericNames.within_ofImpl? given,
    fun definitions entry member => ?_, ofUnits?_eq c units⟩
  rw [Group.table_eq] at member
  obtain ⟨g, -, rfl⟩ := List.mem_map.mp member
  refine ⟨List.cons_ne_nil _ _, ?_⟩
  rw [Group.entry, ← Resolution.chain_rank]
  exact List.cons_ne_nil _ _

/-- A struct and an impl block that name their parameters twice, in different kinds. -/
def repeating : SourceUnit :=
  ⟨"src/lib.rs", ["crate"],
    "#[variant_merge(name=\"G\")]pub struct H<'T,T:Eq,T>where T:Send\x7b\x7d" ++
      "impl<'U:'static,U:Copy>H<'U,U,U>\x7bpub fn new()->Self\x7bH\x7b\x7d\x7d\x7d"⟩

theorem lookups_succeed_repeating :
    ∃ o ∈ Scan.origins {} repeating, o.names.Within 3 ∧
      ∃ plan, (ofUnits? {} [repeating]).run = some (.ok plan) ∧
        plan.resolutions.map (·.winner.generics.map (·.canonicalBounds)) =
          [[["'static"], ["Eq"], ["Copy", "Send"]]] := by
  have computed : (ofUnits {} [repeating]).toOption.map (fun plan =>
        plan.resolutions.map (·.winner.generics.map (·.canonicalBounds))) =
      some [[["'static"], ["Eq"], ["Copy", "Send"]]] ∧
      ∃ o ∈ Scan.origins {} repeating,
        GenericNames.ofImpl? o.constructor.block.generics o.constructor.block.selfType 3 =
          some o.names := by
    rw [ofUnits_of_hasChars repeating (.append .literal .literal),
      Scan.origins_of_hasChars repeating (.append .literal .literal)]
    decide +kernel
  obtain ⟨-, within, -, pass⟩ := lookups_succeed {} [repeating]
  obtain ⟨planned, o, origin, given⟩ := computed
  refine ⟨o, origin, within _ _ _ _ given, ?_⟩
  rw [pass]
  cases result : ofUnits {} [repeating] with
  | error failure => rw [result] at planned; cases planned
  | ok plan =>
    rw [result] at planned
    exact ⟨plan, rfl, Option.some.inj planned⟩

end Plan

end Forwarding
