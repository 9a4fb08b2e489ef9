import Forwarding.Proofs.Characters
import Forwarding.Proofs.ParameterNames
import Forwarding.Proofs.Traversal
/-!
Origins. A definition that a scan returns is read off a struct of the unit and the constructor in
the impl blocks beside it. The structs that carry the mark once and have a constructor which can be
forwarded to are listed with it, so that whatever holds of all of them holds of all definitions.
-/

namespace Forwarding

namespace Scan

/-- A struct where it stands, with the impl blocks of its module. -/
structure Site where
  module : List String
  blocks : List ImplItem
  struct : StructItem

mutual

def sitesOfItem (module : List String) (blocks : List ImplItem) : Item → List Site
  | .struct struct => [⟨module, blocks, struct⟩]
  | .module _ _ name (some items) =>
    sitesOfItems (module ++ [unraw name]) (blocksOf items) items
  | _ => []

def sitesOfItems (module : List String) (blocks : List ImplItem) : List Item → List Site
  | [] => []
  | item :: rest => sitesOfItem module blocks item ++ sitesOfItems module blocks rest

end

def sites (unit : SourceUnit) : List Site :=
  match Grammar.parseFile unit.text with
  | .ok items => sitesOfItems unit.modulePath (blocksOf items) items
  | .error _ => []

/-- The sites of a unit whose text has been read. -/
def sitesOfRead (unit : SourceUnit) : Except Grammar.ParseError (List Item) → List Site
  | .ok items => sitesOfItems unit.modulePath (blocksOf items) items
  | .error _ => []

theorem sites_eq (unit : SourceUnit) :
    sites unit = sitesOfRead unit (Grammar.parseFile unit.text) := by
  delta sites
  cases Grammar.parseFile unit.text <;> rfl

theorem sites_of_hasChars (unit : SourceUnit) {chars : List Char}
    (given : HasChars unit.text chars) :
    sites unit =
      sitesOfRead unit (Grammar.parseChars Grammar.file (Grammar.withoutPreamble chars)) := by
  rw [sites_eq, Grammar.parseFile_of_hasChars unit.text given]

/-- Where a definition comes from: a struct, its constructor, and the names that the block of the
constructor uses for the parameters of the struct. -/
structure Origin where
  struct : StructItem
  constructor : Constructor
  names : GenericNames

/-- The origin of the definition of a struct that carries the mark once and has a constructor which
can be forwarded to. -/
def Site.origin? (c : Conventions) (site : Site) : Option Origin :=
  let type := unraw site.struct.name
  match site.struct.attributes.filter c.marks, Constructor.find type c.constructor site.blocks with
  | [_], .ok k =>
    match k.names type site.struct with
    | .ok names => some ⟨site.struct, k, names⟩
    | .error _ => none
  | _, _ => none

def origins (c : Conventions) (unit : SourceUnit) : List Origin :=
  (sites unit).filterMap (Site.origin? c)

theorem origins_of_hasChars {c : Conventions} (unit : SourceUnit) {chars : List Char}
    (given : HasChars unit.text chars) :
    origins c unit =
      (sitesOfRead unit (Grammar.parseChars Grammar.file
        (Grammar.withoutPreamble chars))).filterMap (Site.origin? c) :=
  congrArg (List.filterMap (Site.origin? c)) (sites_of_hasChars unit given)

/-- What a definition records of its origin. -/
structure Origin.Describes (o : Origin) (d : Definition) : Prop where
  named : o.constructor.names (unraw o.struct.name) o.struct = .ok o.names
  listed : o.constructor.params (unraw o.struct.name) o.struct o.names = .ok d.params
  required : Requirements.ofBoth o.struct.generics o.constructor.block.generics o.names =
    ⟨d.generics, d.predicates⟩

theorem describe_ok {c : Conventions} {module : List String} {blocks : List ImplItem}
    {struct : StructItem} {arguments : Annotation} {location : Location} {d : Definition}
    (described : describe c module blocks struct arguments location = .ok d) :
    ∃ k names, Constructor.find (unraw struct.name) c.constructor blocks = .ok k ∧
      k.names (unraw struct.name) struct = .ok names ∧
      k.params (unraw struct.name) struct names = .ok d.params ∧
      Requirements.ofBoth struct.generics k.block.generics names = ⟨d.generics, d.predicates⟩ ∧
      d.name = arguments.name ∧ d.typePath = ModulePath.member module struct.name ∧
      d.constructor = k.method.signature.name ∧
      d.properties = struct.properties (k.values struct) ∧
      (module = ["crate"] → unraw struct.name ≠ arguments.name) ∧
      reservedAccessor? c.constructor d.properties = none ∧ d.location = location := by
  unfold describe at described
  dsimp only [bind, Except.bind, throw, throwThe, MonadExceptOf.throw] at described
  -- one split for each check, in the order of the scan; only the last branch gives a definition
  split at described
  · cases described
  split at described
  · cases described
  split at described
  · cases described
  rename_i k found
  split at described
  · cases described
  rename_i names named
  split at described
  · cases described
  rename_i params listed
  split at described
  · cases described
  rename_i free
  split at described
  · cases described
  rename_i apart
  cases described
  refine ⟨k, names, found, named, listed, rfl, rfl, rfl, rfl, rfl, fun root same => apart ?_,
    Option.eq_none_iff_forall_ne_some.mpr free, rfl⟩
  simp [root, same]

theorem findingsOfStruct_ok {c : Conventions} {unit : SourceUnit} {module : List String}
    {blocks : List ImplItem} {struct : StructItem} {d : Definition}
    (member : .ok d ∈ findingsOfStruct c unit module blocks struct) :
    ∃ mark arguments, struct.attributes.filter c.marks = [mark] ∧
      Annotation.ofAttribute mark = .ok arguments ∧
        describe c module blocks struct arguments (unit.location struct.nameStart) = .ok d := by
  unfold findingsOfStruct at member
  split at member
  · cases member
  · rename_i mark marked
    rw [List.mem_singleton] at member
    unfold ofStruct at member
    split at member
    · cases member
    · rename_i arguments given
      dsimp only at member
      split at member
      · cases member
      · rename_i described
        cases member
        exact ⟨mark, arguments, marked, given, described⟩
  · rw [List.mem_singleton] at member
    cases member

theorem describes_of_findingsOfStruct {c : Conventions} {unit : SourceUnit} {site : Site}
    {d : Definition}
    (member : .ok d ∈ findingsOfStruct c unit site.module site.blocks site.struct) :
    ∃ o, site.origin? c = some o ∧ o.Describes d := by
  obtain ⟨mark, arguments, marked, -, described⟩ := findingsOfStruct_ok member
  obtain ⟨k, names, found, named, listed, required, -⟩ := describe_ok described
  refine ⟨⟨site.struct, k, names⟩, ?_, named, listed, required⟩
  simp only [Site.origin?, marked, found, named]

theorem not_ok_mem_failureFound (failure : Option Failure) (d : Definition) :
    .ok d ∉ failureFound failure := by
  cases failure <;> simp [failureFound]

mutual

theorem findingsOfItem_ok {c : Conventions} {unit : SourceUnit} {module : List String}
    {blocks : List ImplItem} {item : Item} {d : Definition}
    (member : .ok d ∈ findingsOfItem c unit module blocks item) :
    ∃ site ∈ sitesOfItem module blocks item,
      .ok d ∈ findingsOfStruct c unit site.module site.blocks site.struct := by
  cases item with
  | struct declaration =>
    rw [findingsOfItem] at member
    exact ⟨_, List.mem_singleton_self _, member⟩
  | implementation block =>
    rw [findingsOfItem] at member
    exact absurd member (not_ok_mem_failureFound _ d)
  | other kind attributes tree =>
    rw [findingsOfItem.eq_def] at member
    dsimp only at member
    split at member
    · exact absurd member (not_ok_mem_failureFound _ d)
    · cases member
  | module attributes before name content =>
    rw [findingsOfItem.eq_def] at member
    dsimp only at member
    split at member
    · rw [List.mem_singleton] at member
      cases member
    · cases content with
      | none => cases member
      | some items => exact findingsOfItems_ok member

theorem findingsOfItems_ok {c : Conventions} {unit : SourceUnit} {module : List String}
    {blocks : List ImplItem} {items : List Item} {d : Definition}
    (member : .ok d ∈ findingsOfItems c unit module blocks items) :
    ∃ site ∈ sitesOfItems module blocks items,
      .ok d ∈ findingsOfStruct c unit site.module site.blocks site.struct := by
  cases items with
  | nil =>
    rw [findingsOfItems] at member
    cases member
  | cons item rest =>
    rw [findingsOfItems] at member
    rcases List.mem_append.mp member with member | member
    · obtain ⟨site, inside, described⟩ := findingsOfItem_ok member
      exact ⟨site, List.mem_append_left _ inside, described⟩
    · obtain ⟨site, inside, described⟩ := findingsOfItems_ok member
      exact ⟨site, List.mem_append_right _ inside, described⟩

end

theorem exists_scanned {c : Conventions} {unit : SourceUnit} {β : Type}
    {f : List Definition → β} {value : β}
    (computed : (scan c unit).toOption.map f = some value) :
    ∃ definitions, scan c unit = .ok definitions ∧ f definitions = value := by
  cases scanned : scan c unit with
  | error failure =>
    rw [scanned] at computed
    cases computed
  | ok definitions =>
    rw [scanned] at computed
    exact ⟨definitions, rfl, Option.some.inj computed⟩

theorem exists_single {c : Conventions} {unit : SourceUnit} {β : Type} {f : Definition → β}
    {value : β} (computed : (scan c unit).toOption.map (·.map f) = some [value]) :
    ∃ d, scan c unit = .ok [d] ∧ f d = value := by
  obtain ⟨definitions, scanned, same⟩ := exists_scanned computed
  obtain ⟨d, rfl, own⟩ := List.map_eq_singleton_iff.mp same
  exact ⟨d, scanned, own⟩

theorem exists_site {c : Conventions} {unit : SourceUnit} {definitions : List Definition}
    {d : Definition} (scanned : scan c unit = .ok definitions) (member : d ∈ definitions) :
    ∃ site ∈ sites unit, .ok d ∈ findingsOfStruct c unit site.module site.blocks site.struct := by
  have related := (mapM_eq_ok_iff id _ definitions).mp scanned
  obtain ⟨finding, found, same⟩ := exists_of_mem_right related member
  change finding = .ok d at same
  rw [same] at found
  rw [findings_eq] at found
  rw [sites_eq]
  cases read : Grammar.parseFile unit.text with
  | error error =>
    rw [read, findingsOfRead, List.mem_singleton] at found
    cases found
  | ok items =>
    rw [read] at found
    exact findingsOfItems_ok found

/-- Every definition that a scan returns describes an origin of the unit. -/
theorem exists_origin {c : Conventions} {unit : SourceUnit} {definitions : List Definition}
    {d : Definition} (scanned : scan c unit = .ok definitions) (member : d ∈ definitions) :
    ∃ o ∈ origins c unit, o.Describes d := by
  obtain ⟨site, inside, found⟩ := exists_site scanned member
  obtain ⟨o, given, described⟩ := describes_of_findingsOfStruct found
  exact ⟨o, List.mem_filterMap.mpr ⟨site, inside, given⟩, described⟩

theorem Site.origin?_eq_some {c : Conventions} {site : Site} {o : Origin}
    (given : site.origin? c = some o) :
    o.struct = site.struct ∧
      Constructor.find (unraw o.struct.name) c.constructor site.blocks = .ok o.constructor ∧
      o.constructor.names (unraw o.struct.name) o.struct = .ok o.names := by
  unfold origin? at given
  dsimp only at given
  split at given
  · rename_i found
    split at given
    · rename_i named
      cases given
      exact ⟨rfl, found, named⟩
    · cases given
  · cases given

end Scan

namespace Constructor

theorem find_ok {type name : String} {blocks : List ImplItem} {k : Constructor}
    (found : find type name blocks = .ok k) :
    k.block ∈ blocks ∧ k.block.inherentName? = some type ∧ .method k.method ∈ k.block.members ∧
      k.method.signature.name = name ∧ k.method.visibility.isExported = true := by
  unfold find at found
  dsimp only at found
  split at found
  · cases found
  · rename_i only single
    cases found
    have member : k ∈ (blocks.filter fun block => block.inherentName? == some type).flatMap
        (ImplItem.exported name) := by
      rw [single]
      exact List.mem_singleton_self k
    obtain ⟨block, inherent, exported⟩ := List.mem_flatMap.mp member
    obtain ⟨inside, own⟩ := List.mem_filter.mp inherent
    obtain ⟨declared, present, kept⟩ := List.mem_filterMap.mp exported
    cases declared with
    | other tree => cases kept
    | method method =>
      dsimp only at kept
      split at kept
      · rename_i suitable
        rw [Bool.and_eq_true, beq_iff_eq] at suitable
        cases kept
        exact ⟨inside, beq_iff_eq.mp own, present, suitable⟩
      · cases kept
  · cases found

/-- A constructor can be forwarded to when it takes no receiver, is not asynchronous, has no generic
parameters of its own, returns the struct and stands in a block for every instance of it. -/
theorem names_eq_ok_iff {type : String} {struct : StructItem} {k : Constructor}
    {names : GenericNames} :
    k.names type struct = .ok names ↔
      takesReceiver k.method.signature.params = false ∧ k.method.signature.isAsync = false ∧
        k.method.signature.generics.params = [] ∧
        returnsOwn struct k.method.signature.output = true ∧
        GenericNames.ofImpl? k.block.generics k.block.selfType struct.generics.params.length =
          some names := by
  unfold Constructor.names
  dsimp only
  split
  · simp_all
  split
  · simp_all
  split
  · simp_all
  split
  · simp_all
  split
  · simp_all
  · simp_all

theorem paramOf_eq_ok_iff {type constructor : String} {struct : Generics} {names : GenericNames}
    {index : Nat} {param : Parameter} {recorded : ConstructorParam} :
    paramOf type constructor struct names index param = .ok recorded ↔
      ∃ attributes pattern name declared, param = .typed attributes pattern (some name) declared ∧
        declared.mentionsSelf = false ∧ recorded = ⟨name, shapeOf struct names declared⟩ := by
  cases param with
  | receiver tree => simp [paramOf]
  | typed attributes pattern name declared =>
    cases name with
    | none => simp [paramOf]
    | some name =>
      have unfolded : paramOf type constructor struct names index
          (.typed attributes pattern (some name) declared) =
            if declared.mentionsSelf then .error (.selfParameter type constructor index)
            else .ok ⟨name, shapeOf struct names declared⟩ := rfl
      rw [unfolded]
      constructor
      · intro given
        split at given
        · cases given
        · rename_i plain
          cases given
          exact ⟨_, _, _, _, rfl, Bool.not_eq_true _ ▸ plain, rfl⟩
      · rintro ⟨_, _, _, _, same, plain, rfl⟩
        cases same
        rw [plain]
        rfl

theorem paramsFrom_ok {type constructor : String} {struct : Generics} {names : GenericNames}
    {index : Nat} {params : List Parameter} {recorded : List ConstructorParam}
    (listed : paramsFrom type constructor struct names index params = .ok recorded) :
    List.Forall₂ (fun param recorded => ∃ attributes pattern name declared,
      param = .typed attributes pattern (some name) declared ∧ declared.mentionsSelf = false ∧
        recorded = ⟨name, shapeOf struct names declared⟩) params recorded := by
  induction params generalizing index recorded with
  | nil =>
    cases listed
    exact .nil
  | cons param rest ih =>
    unfold paramsFrom at listed
    dsimp only [bind, Except.bind] at listed
    split at listed
    · cases listed
    rename_i first given
    split at listed
    · cases listed
    rename_i others more
    cases listed
    exact .cons (paramOf_eq_ok_iff.mp given) (ih more)

end Constructor

end Forwarding
