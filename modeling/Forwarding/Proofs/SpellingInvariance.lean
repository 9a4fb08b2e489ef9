import Forwarding.Proofs.Interchange
import Forwarding.Proofs.OwnSpelling
import Forwarding.Proofs.RespelledBlocks
/-!
What is found of a struct does not depend on how parameters are spelled. Other names for the
parameters of a block that are passed to the struct leave all that is recorded, or the reason why
nothing is, the same, the values of a struct literal aside. Other names for the struct's own
parameters leave the canonical forms the same, so that the same definitions fit.
-/

namespace Forwarding

def Property.withoutValue (p : Property) : Property :=
  { p with value := none }

/-- The definition without what a struct literal gives the fields. -/
def Definition.withoutValues (d : Definition) : Definition :=
  { d with properties := d.properties.map (Prod.map id Property.withoutValue) }

/-- The position of a parameter, or the canonical form of another type. -/
def ParamShape.form : ParamShape → Nat ⊕ String
  | generic position _ => .inl position
  | concrete _ canonical => .inr canonical

/-- A parameter of a constructor without the text of its type. -/
def ConstructorParam.form (p : ConstructorParam) : String × (Nat ⊕ String) :=
  (p.name, p.shape.form)

/-- The forms of the constructor's parameters, and the canonical bounds of the generic ones. -/
def Definition.forms (d : Definition) : List (String × (Nat ⊕ String)) × List (List String) :=
  (d.params.map ConstructorParam.form, d.generics.map (·.canonicalBounds))

section Properties

theorem map_putKey {α β : Type} (g : α → β) (key : String) (value : α)
    (entries : List (String × α)) :
    (putKey key value entries).map (Prod.map id g) =
      putKey key (g value) (entries.map (Prod.map id g)) := by
  induction entries with
  | nil => rfl
  | cons entry rest ih =>
    obtain ⟨k, v⟩ := entry
    simp only [putKey, List.map_cons, Prod.map_apply, id]
    split
    · rfl
    · rw [List.map_cons, ih, Prod.map_apply, id]

/-- Which accessor collides with another function depends on the keys alone. -/
theorem reservedAccessor?_congr {constructor : String}
    {properties others : List (String × Property)}
    (keys : others.map Prod.fst = properties.map Prod.fst) :
    reservedAccessor? constructor others = reservedAccessor? constructor properties := by
  have keyed (entries : List (String × Property)) : reservedAccessor? constructor entries =
      (entries.map Prod.fst).findSome? fun key =>
        if key == constructor || key == "into_inner" then some key
        else if (entries.map Prod.fst).any (· == mutableName key) then some (mutableName key)
        else none := by
    rw [List.findSome?_map]
    simp only [List.any_map]
    rfl
  rw [keyed, keyed, keys]

namespace StructItem

/-- Without their values the properties do not depend on a struct literal. -/
theorem properties_withoutValues (struct : StructItem) (values others : List (String × String)) :
    (struct.properties values).map (Prod.map id Property.withoutValue) =
      (struct.properties others).map (Prod.map id Property.withoutValue) := by
  unfold properties
  cases struct.fields with
  | named fields trailing =>
    refine List.foldl_rel (r := fun first second : List (String × Property) =>
      first.map (Prod.map id Property.withoutValue) =
        second.map (Prod.map id Property.withoutValue)) rfl ?_
    intro field _ first second same
    cases field.name with
    | none => exact same
    | some name =>
      dsimp only
      split
      · rw [map_putKey, map_putKey, same]
        rfl
      · exact same
  | positional fields trailing => rfl
  | unit => rfl

end StructItem

end Properties

section Structs

variable {f : Mention → String} {struct : StructItem}

def Field.renamed (f : Mention → String) (field : Field) : Field :=
  { field with type := field.type.mapNames f }

def Fields.renamed (f : Mention → String) : Fields → Fields
  | named fields trailing => .named (fields.map (Field.renamed f)) trailing
  | positional fields trailing => .positional (fields.map (Field.renamed f)) trailing
  | unit => .unit

/-- The struct with new names. -/
def StructItem.renamed (f : Mention → String) (struct : StructItem) : StructItem :=
  { struct with
    generics := struct.generics.renamed f
    fields := struct.fields.renamed f }

theorem StructItem.name_renamed : (struct.renamed f).name = struct.name := rfl

theorem StructItem.visibility_renamed : (struct.renamed f).visibility = struct.visibility := rfl

theorem Fields.isPositional_renamed (fields : Fields) :
    (fields.renamed f).isPositional = fields.isPositional := by
  cases fields <;> rfl

theorem Fields.withNames_renamed (fields : Fields) :
    (fields.renamed f).withNames = fields.withNames.map (Field.renamed f) := by
  cases fields <;> rfl

/-- The keys of properties are folded from the names and the visibilities of the fields. -/
theorem StructItem.keys_properties_eq (struct : StructItem) (values : List (String × String)) :
    (struct.properties values).map Prod.fst =
      struct.fields.withNames.foldl (fun keys field =>
        match field.name with
        | some name =>
          if field.visibility.isExported then
            if unraw name ∈ keys then keys else keys ++ [unraw name]
          else keys
        | none => keys) [] := by
  unfold properties
  cases struct.fields with
  | named fields trailing =>
    refine (List.foldl_hom (List.map Prod.fst) fun entries field => ?_).symm
    cases field.name with
    | none => rfl
    | some name =>
      dsimp only
      split
      · rw [keys_putKey]
      · rfl
  | positional fields trailing => rfl
  | unit => rfl

theorem StructItem.keys_properties_renamed (struct : StructItem) (values : List (String × String)) :
    ((struct.renamed f).properties values).map Prod.fst =
      (struct.properties values).map Prod.fst := by
  rw [keys_properties_eq, keys_properties_eq, renamed, Fields.withNames_renamed, List.foldl_map]
  rfl

namespace Constructor

variable (k : Constructor) (type : String) (names : GenericNames)

/-- Only the number of parameters and the name of a struct matter for the names of a block. -/
theorem names_struct : k.names type (struct.renamed f) = k.names type struct := by
  have arity : (struct.renamed f).generics.params.length = struct.generics.params.length :=
    List.length_map _
  unfold names
  dsimp only
  rw [arity]
  rfl

theorem form_shapeOf (own other : Generics) (tree : Tree) :
    (shapeOf own names tree).form = (shapeOf other names tree).form := by
  unfold shapeOf
  cases names.positionOf tree <;> rfl

theorem forms_paramsFrom (constructor : String) (own other : Generics) (index : Nat)
    (params : List Parameter) :
    (paramsFrom type constructor own names index params).map (List.map ConstructorParam.form) =
      (paramsFrom type constructor other names index params).map
        (List.map ConstructorParam.form) := by
  -- the forms of a list are those of its first entry and of the others, if there are any
  have cons (first : Except Defect ConstructorParam)
      (others : Except Defect (List ConstructorParam)) :
      (do return (← first) :: (← others)).map (List.map ConstructorParam.form) =
        do return (← first.map ConstructorParam.form) ::
          (← others.map (List.map ConstructorParam.form)) := by
    cases first with
    | error defect => rfl
    | ok param => cases others <;> rfl
  induction params generalizing index with
  | nil => rfl
  | cons param rest ih =>
    have first : (paramOf type constructor own names index param).map ConstructorParam.form =
        (paramOf type constructor other names index param).map ConstructorParam.form := by
      cases param with
      | receiver tree => rfl
      | typed attributes pattern name declared =>
        cases name with
        | none => rfl
        | some name =>
          unfold paramOf
          dsimp only
          split
          · rfl
          · exact congrArg (fun form => Except.ok (name, form))
              (form_shapeOf names own other declared)
    rw [paramsFrom, paramsFrom, cons, cons, first, ih]

theorem forms_params (f : Mention → String) (struct : StructItem) :
    (k.params type (struct.renamed f) names).map (List.map ConstructorParam.form) =
      (k.params type struct names).map (List.map ConstructorParam.form) :=
  forms_paramsFrom type names _ _ _ 0 _

end Constructor

end Structs

namespace Definition

variable {a b : Definition}

/-- A definition fits another one of the same forms and kinds. -/
theorem compatible_of_forms (forms : a.forms = b.forms)
    (kinds : a.generics.map (·.kind) = b.generics.map (·.kind)) (grounded : a.Grounded) :
    a.Compatible b := by
  obtain ⟨params, bounds⟩ := Prod.mk.inj forms
  have arity : a.params.length = b.params.length := by
    simpa using congrArg List.length params
  have genericArity : a.generics.length = b.generics.length := by
    simpa using congrArg List.length kinds
  have admitted {index : Nat} {w m : GenericParam} (left : a.generics[index]? = some w)
      (right : b.generics[index]? = some m) : w.admits m = true := by
    have kind : w.kind = m.kind := by simpa [left, right] using congrArg (·[index]?) kinds
    have required : w.canonicalBounds = m.canonicalBounds := by
      simpa [left, right] using congrArg (·[index]?) bounds
    refine GenericParam.admits_iff.mpr ⟨kind, ?_⟩
    rw [GenericParam.declaredBounds, GenericParam.declaredBounds, kind, required]
    exact List.Subset.refl _
  refine ⟨arity, ?_, genericArity, fun index w m left right => admitted left right⟩
  rintro index ⟨name, shape⟩ ⟨name', shape'⟩ left right
  have same : shape.form = shape'.form := by
    have form := congrArg (·[index]?) params
    simp only [List.getElem?_map, left, right, Option.map_some, Option.some.injEq] at form
    exact congrArg Prod.snd form
  cases shape with
  | concrete type canonical =>
    cases shape' with
    | concrete type' canonical' =>
      cases same
      exact .concrete type type' canonical
    | generic => cases same
  | generic position type =>
    cases shape' with
    | concrete => cases same
    | generic position' type' =>
      cases same
      have within := grounded _ (List.mem_of_getElem? left) position type rfl
      have declared := List.getElem?_eq_getElem within
      have declared' := List.getElem?_eq_getElem (genericArity ▸ within)
      exact .generic type type' declared declared' (admitted declared declared')

end Definition

/-- Outcomes that a map does not tell apart are the same error, or values that it does not tell
apart. -/
theorem outcomes_of_map_eq {ε α β : Type} {g : α → β} {first second : Except ε α}
    (same : first.map g = second.map g) :
    (∃ error, first = .error error ∧ second = .error error) ∨
      ∃ value other, first = .ok value ∧ second = .ok other ∧ g value = g other := by
  cases first with
  | error e =>
    cases second with
    | error e' =>
      cases same
      exact .inl ⟨e, rfl, rfl⟩
    | ok other => cases same
  | ok value =>
    cases second with
    | error e' => cases same
    | ok other => exact .inr ⟨value, other, rfl, rfl, Except.ok.inj same⟩

namespace Scan

variable {c : Conventions} {module : List String} {blocks : List ImplItem} {struct : StructItem}
  {arguments : Annotation} {location : Location}

/-- What is read of a struct, its constructor and what they require. -/
def assembled (module : List String) (struct : StructItem) (arguments : Annotation)
    (location : Location) (k : Constructor) (params : List ConstructorParam)
    (requirements : Requirements) : Definition where
  name := arguments.name
  priority := arguments.priority
  typePath := ModulePath.member module struct.name
  constructor := k.method.signature.name
  params
  generics := requirements.params
  predicates := requirements.predicates
  properties := struct.properties (k.values struct)
  location

theorem assembled_name {k : Constructor} {params : List ConstructorParam}
    {requirements : Requirements} :
    (assembled module struct arguments location k params requirements).name = arguments.name := rfl

/-- A definition unless a name of its forwarding type is taken. -/
def unlessTaken (c : Conventions) (module : List String) (type : String) (d : Definition) :
    Except Defect Definition :=
  match reservedAccessor? c.constructor d.properties with
  | some property => .error (.reservedProperty type property)
  | none =>
    if module = ["crate"] && type = d.name then .error (.nameCollision d.name) else .ok d

theorem describe_eq : describe c module blocks struct arguments location =
    if !struct.visibility.isExported then .error (.privateType (unraw struct.name))
    else if struct.fields.isPositional then .error (.tupleStruct (unraw struct.name))
    else
      (do
        let k ← Constructor.find (unraw struct.name) c.constructor blocks
        let names ← k.names (unraw struct.name) struct
        let params ← k.params (unraw struct.name) struct names
        let required := Requirements.ofBoth struct.generics k.block.generics names
        unlessTaken c module (unraw struct.name)
          (assembled module struct arguments location k params required)) := by
  unfold describe
  split
  · rfl
  split
  · rfl
  dsimp only [bind, Except.bind]
  cases Constructor.find (unraw struct.name) c.constructor blocks with
  | error defect => rfl
  | ok k =>
    dsimp only
    cases k.names (unraw struct.name) struct with
    | error defect => rfl
    | ok names =>
      dsimp only
      cases k.params (unraw struct.name) struct names with
      | error defect => rfl
      | ok params =>
        dsimp only [unlessTaken, assembled]
        cases reservedAccessor? c.constructor (struct.properties (k.values struct)) with
        | some property => rfl
        | none =>
          dsimp only
          split <;> rfl

/-- Whether a name is taken depends on the keys of the properties and the logical name. -/
theorem map_unlessTaken {β : Type} {g : Definition → β} {type : String} {d other : Definition}
    (keys : other.properties.map Prod.fst = d.properties.map Prod.fst) (name : other.name = d.name)
    (same : g other = g d) :
    (unlessTaken c module type other).map g = (unlessTaken c module type d).map g := by
  unfold unlessTaken
  rw [reservedAccessor?_congr keys, name]
  split
  · rfl
  · split
    · rfl
    · exact congrArg Except.ok same

/-- Blocks in another spelling give the same definition but for the values, or the same defect. -/
theorem describe_respelled {after : List ImplItem}
    (respelled : List.Forall₂ (ImplItem.Respelled struct) blocks after) :
    (describe c module after struct arguments location).map Definition.withoutValues =
      (describe c module blocks struct arguments location).map Definition.withoutValues := by
  obtain ⟨found, missing⟩ := Constructor.find_respelled c.constructor respelled
  rw [describe_eq, describe_eq]
  split
  · rfl
  split
  · rfl
  dsimp only [bind, Except.bind]
  cases here : Constructor.find (unraw struct.name) c.constructor blocks with
  | error defect => rw [missing defect here]
  | ok k =>
    obtain ⟨other, there, f, respells, foreign, rfl⟩ := found k here
    obtain ⟨-, -, declared, -⟩ := Constructor.find_ok here
    obtain ⟨given, failed⟩ := Constructor.names_renamed respells foreign declared
    rw [there]
    dsimp only
    cases named : k.names (unraw struct.name) struct with
    | error defect => rw [failed defect named]
    | ok names =>
      obtain ⟨others, used, each⟩ := given names named
      have required : Requirements.ofBoth struct.generics (k.renamed f).block.generics others =
          Requirements.ofBoth struct.generics k.block.generics names :=
        Generics.ofBoth_renamed fun m member => each m
          (List.mem_append_left _ (List.mem_append_left _ member))
      rw [used]
      dsimp only
      rw [Constructor.params_renamed respells foreign declared each, required]
      cases k.params (unraw struct.name) struct names with
      | error defect => rfl
      | ok params =>
        have kept := struct.properties_withoutValues ((k.renamed f).values struct) (k.values struct)
        refine map_unlessTaken ?_ rfl ?_
        · have same := congrArg (List.map Prod.fst) kept
          rwa [List.map_map, List.map_map] at same
        · unfold Definition.withoutValues assembled
          rw [kept]
          rfl

variable {f : Mention → String}
  (respells : Mention.Respells f (struct.generics.params.map GenericParameter.mention)
    struct.generics.mentioned)

include respells

/-- The names of the struct lead where they led in the old spelling. -/
theorem respelled_declared {m : Mention} (member : m ∈ struct.generics.mentioned) :
    (GenericNames.declared struct.generics).Respelled (.declared (struct.generics.renamed f)) f
      m := by
  rw [GenericNames.declared_eq, GenericNames.declared_eq, Generics.mentions_renamed]
  exact GenericNames.respelled_ofMentions respells (List.subset_append_left _ _)
    (List.Subset.refl _) member

/-- A struct in another spelling gives a definition of the same forms, or the same defect. -/
theorem describe_renamed :
    (describe c module blocks (struct.renamed f) arguments location).map Definition.forms =
      (describe c module blocks struct arguments location).map Definition.forms := by
  have positional : (struct.renamed f).fields.isPositional = struct.fields.isPositional :=
    struct.fields.isPositional_renamed
  rw [describe_eq, describe_eq, positional, StructItem.visibility_renamed, StructItem.name_renamed]
  split
  · rfl
  split
  · rfl
  dsimp only [bind, Except.bind]
  cases Constructor.find (unraw struct.name) c.constructor blocks with
  | error defect => rfl
  | ok k =>
    dsimp only
    rw [k.names_struct]
    cases k.names (unraw struct.name) struct with
    | error defect => rfl
    | ok names =>
      dsimp only
      have forms := k.forms_params (unraw struct.name) names f struct
      rcases outcomes_of_map_eq forms with
        ⟨defect, here, there⟩ | ⟨params, others, here, there, same⟩
      · rw [here, there]
      · have bounds := Requirements.canonicalBounds_renamed k.block.generics names
          fun m member => respelled_declared respells member
        rw [here, there]
        refine map_unlessTaken (struct.keys_properties_renamed _)
          (assembled_name.trans assembled_name.symm) ?_
        exact Prod.ext same bounds

/-- Nor does the spelling matter for the kinds, where no type of a constant mentions a parameter. -/
theorem kinds_renamed {d after : Definition} {arguments' : Annotation} {location' : Location}
    (closed : struct.generics.IsClosed)
    (described : describe c module blocks struct arguments location = .ok d)
    (described' : describe c module blocks (struct.renamed f) arguments' location' = .ok after) :
    after.generics.map (·.kind) = d.generics.map (·.kind) := by
  obtain ⟨k, names, found, named, -, required, -⟩ := describe_ok described
  obtain ⟨k', names', found', named', -, required', -⟩ := describe_ok described'
  rw [StructItem.name_renamed] at found' named'
  obtain rfl := Except.ok.inj (found.symm.trans found')
  rw [k.names_struct] at named'
  obtain rfl := Except.ok.inj (named.symm.trans named')
  have kinds := Requirements.kinds_renamed k.block.generics names closed respells
  rw [required] at kinds
  change (Requirements.ofBoth (struct.renamed f).generics _ _).params.map _ = _ at kinds
  rwa [required'] at kinds

omit respells

section Findings

variable {β : Type} {g : Definition → β} {unit : SourceUnit} {after : List ImplItem}
  {other : StructItem}

/-- What is found is told apart no more than what is described. -/
theorem map_findingsOfStruct (attributes : other.attributes = struct.attributes)
    (name : other.name = struct.name) (start : other.nameStart = struct.nameStart)
    (same : ∀ arguments location, (describe c module after other arguments location).map g =
      (describe c module blocks struct arguments location).map g) :
    (findingsOfStruct c unit module after other).map (Except.map g) =
      (findingsOfStruct c unit module blocks struct).map (Except.map g) := by
  unfold findingsOfStruct
  rw [attributes, name]
  split
  · rfl
  · rename_i mark _
    refine congrArg (fun finding => [finding]) ?_
    unfold ofStruct
    cases Annotation.ofAttribute mark with
    | error error => rfl
    | ok arguments =>
      dsimp only
      rw [start]
      rcases outcomes_of_map_eq (same arguments (unit.location struct.nameStart)) with
        ⟨defect, here, there⟩ | ⟨d, d', here, there, equal⟩
      · rw [here, there]
      · rw [here, there]
        exact congrArg Except.ok equal
  · rfl

theorem findingsOfStruct_unique {first second : Finding}
    (member : first ∈ findingsOfStruct c unit module blocks struct)
    (member' : second ∈ findingsOfStruct c unit module blocks struct) : first = second := by
  unfold findingsOfStruct at member member'
  split at member
  · cases member
  · rename_i mark marked
    rw [marked] at member'
    exact (List.mem_singleton.mp member).trans (List.mem_singleton.mp member').symm
  · rename_i second rest marked
    rw [marked] at member'
    exact (List.mem_singleton.mp member).trans (List.mem_singleton.mp member').symm

theorem grounded_of_findings {d : Definition}
    (member : .ok d ∈ findingsOfStruct c unit module blocks struct) : d.Grounded := by
  have described : ∃ o, Site.origin? c ⟨module, blocks, struct⟩ = some o ∧ o.Describes d :=
    describes_of_findingsOfStruct member
  obtain ⟨_, -, described⟩ := described
  exact described.grounded

end Findings

section Verdicts

variable {unit : SourceUnit} {d after : Definition}

include respells

theorem forms_findings_renamed :
    (findingsOfStruct c unit module blocks (struct.renamed f)).map (Except.map Definition.forms) =
      (findingsOfStruct c unit module blocks struct).map (Except.map Definition.forms) :=
  map_findingsOfStruct rfl rfl rfl fun _ _ => describe_renamed respells

theorem forms_of_findings
    (member : .ok d ∈ findingsOfStruct c unit module blocks struct)
    (member' : .ok after ∈ findingsOfStruct c unit module blocks (struct.renamed f)) :
    after.forms = d.forms := by
  have listed : Except.map Definition.forms (.ok after) ∈
      (findingsOfStruct c unit module blocks struct).map (Except.map Definition.forms) := by
    rw [← forms_findings_renamed respells]
    exact List.mem_map_of_mem member'
  obtain ⟨finding, found, equal⟩ := List.mem_map.mp listed
  obtain rfl := findingsOfStruct_unique found member
  exact (Except.ok.inj equal).symm

/-- A struct in another spelling fits the same definitions and is fitted by the same ones. -/
theorem verdicts_renamed (closed : struct.generics.IsClosed)
    (member : .ok d ∈ findingsOfStruct c unit module blocks struct)
    (member' : .ok after ∈ findingsOfStruct c unit module blocks (struct.renamed f))
    (other : Definition) :
    (after.mismatch? other = none ↔ d.mismatch? other = none) ∧
      (other.mismatch? after = none ↔ other.mismatch? d = none) := by
  have forms := forms_of_findings respells member member'
  have kinds : after.generics.map (·.kind) = d.generics.map (·.kind) := by
    obtain ⟨_, _, -, -, described⟩ := findingsOfStruct_ok member
    obtain ⟨_, _, -, -, described'⟩ := findingsOfStruct_ok member'
    exact kinds_renamed respells closed described described'
  have fits := Definition.compatible_of_forms forms kinds (grounded_of_findings member')
  have fits' := Definition.compatible_of_forms forms.symm kinds.symm (grounded_of_findings member)
  simp only [Definition.mismatch?_eq_none_iff]
  exact ⟨fits.fits_iff fits' other, fits.fitted_iff fits' other⟩

end Verdicts

/-- Other names for parameters that blocks pass to a struct, none of them that of the struct, leave
what is found of it the same but for the values of a literal. Other names for the parameters of the
struct leave the forms of the definition the same, and where no type of a constant mentions a
parameter, it fits and is fitted as before. -/
theorem respelling_preserves (c : Conventions) (unit : SourceUnit) (module : List String)
    (struct : StructItem) (blocks : List ImplItem) :
    (∀ after, List.Forall₂ (ImplItem.Respelled struct) blocks after →
      (findingsOfStruct c unit module after struct).map (Except.map Definition.withoutValues) =
        (findingsOfStruct c unit module blocks struct).map
          (Except.map Definition.withoutValues)) ∧
      ∀ f, Mention.Respells f (struct.generics.params.map GenericParameter.mention)
          struct.generics.mentioned →
        (findingsOfStruct c unit module blocks (struct.renamed f)).map
            (Except.map Definition.forms) =
          (findingsOfStruct c unit module blocks struct).map (Except.map Definition.forms) ∧
        (struct.generics.IsClosed → ∀ d after,
          .ok d ∈ findingsOfStruct c unit module blocks struct →
          .ok after ∈ findingsOfStruct c unit module blocks (struct.renamed f) →
          ∀ other : Definition, (after.mismatch? other = none ↔ d.mismatch? other = none) ∧
            (other.mismatch? after = none ↔ other.mismatch? d = none)) := by
  refine ⟨fun after respelled => ?_, fun f respells => ⟨?_, fun closed d after => ?_⟩⟩
  · exact map_findingsOfStruct rfl rfl rfl fun _ _ => describe_respelled respelled
  · exact forms_findings_renamed respells
  · exact verdicts_renamed respells closed

theorem exists_finding {β : Type} {g : Definition → β} {findings : List Finding} {value : β}
    (same : findings.map (Except.map g) = [.ok value]) : ∃ d, findings = [.ok d] ∧ g d = value := by
  obtain ⟨finding, rfl, given⟩ := List.map_eq_singleton_iff.mp same
  cases finding with
  | error failure => cases given
  | ok d => exact ⟨d, rfl, Except.ok.inj given⟩

/-- New names for some mentions. -/
def respelt (names : List (String × String)) (m : Mention) : String :=
  (names.lookup m.name).getD m.name

/-- A unit whose struct and whose block have names and bounds of their own. -/
def spelled : SourceUnit :=
  ⟨"src/lib.rs", ["crate"],
    "#[variant_merge(name=\"G\",priority=1)]pub struct H<'a,T:Copy>\x7bpub a:&'a T\x7d" ++
      "impl<'b,U:'b+Ord>H<'b,U>where U:Eq\x7bpub fn new(a:&'b U)->Self\x7bH\x7ba\x7d\x7d\x7d"⟩

theorem respelling_preserves_spelled :
    ∃ site ∈ sites spelled, ∃ d after,
      findingsOfStruct {} spelled site.module site.blocks site.struct = [.ok d] ∧
      findingsOfStruct {} spelled site.module site.blocks
        (site.struct.renamed (respelt [("a", "s"), ("T", "U")])) = [.ok after] ∧
      (findingsOfStruct {} spelled site.module
          (site.blocks.map (ImplItem.renamed (respelt [("b", "c"), ("U", "V")]))) site.struct).map
          (Except.map Definition.withoutValues) = [.ok d.withoutValues] ∧
      after.forms = d.forms ∧ after.mismatch? d = none := by
  have computed : (sites spelled).map (fun site => decide (
      (findingsOfStruct {} spelled site.module site.blocks site.struct).map
          (Except.map (·.generics.length)) = [.ok 2] ∧
      (∀ block ∈ site.blocks,
        Mention.Respells (respelt [("b", "c"), ("U", "V")]) block.passed block.mentioned ∧
          block.Foreign site.struct (respelt [("b", "c"), ("U", "V")])) ∧
      Mention.Respells (respelt [("a", "s"), ("T", "U")])
        (site.struct.generics.params.map GenericParameter.mention) site.struct.generics.mentioned ∧
      site.struct.generics.IsClosed)) = [true] := by
    rw [sites_of_hasChars spelled (.append .literal .literal)]
    decide +kernel
  obtain ⟨site, single, holds⟩ := List.map_eq_singleton_iff.mp computed
  have inside : site ∈ sites spelled := by
    rw [single]
    exact List.mem_singleton_self site
  obtain ⟨found, passes, respells, closed⟩ := of_decide_eq_true holds
  obtain ⟨d, found, -⟩ := exists_finding found
  obtain ⟨blocks, struct⟩ :=
    respelling_preserves {} spelled site.module site.struct site.blocks
  obtain ⟨forms, verdicts⟩ := struct _ respells
  rw [found] at forms
  obtain ⟨after, found', same⟩ := exists_finding forms
  have respelled : List.Forall₂ (ImplItem.Respelled site.struct) site.blocks
      (site.blocks.map (ImplItem.renamed (respelt [("b", "c"), ("U", "V")]))) := by
    rw [List.forall₂_map_right_iff, List.forall₂_same]
    exact fun block member => ⟨_, (passes block member).1, (passes block member).2, rfl⟩
  have kept := blocks _ respelled
  rw [found] at kept
  have member : .ok d ∈ findingsOfStruct {} spelled site.module site.blocks site.struct := by
    rw [found]
    exact List.mem_singleton_self _
  have member' : .ok after ∈ findingsOfStruct {} spelled site.module site.blocks
      (site.struct.renamed (respelt [("a", "s"), ("T", "U")])) := by
    rw [found']
    exact List.mem_singleton_self _
  refine ⟨site, inside, d, after, found, found', kept, same,
    (verdicts closed d after member member' d).1.mpr ?_⟩
  rw [Definition.mismatch?_eq_none_iff, Definition.compatible_self_iff]
  exact grounded_of_findings member

/-- A unit whose constructor returns a parameter of the block that has the name of the struct. -/
def shadowing : SourceUnit :=
  ⟨"src/lib.rs", ["crate"],
    "#[variant_merge(name=\"G\",priority=1)]pub struct H<T>\x7bpub a:T\x7d" ++
      "impl<H>self::H<H>\x7bpub fn new(a:H)->H\x7ba\x7d\x7d"⟩

/-- A unit with a constant whose type is a parameter. -/
def dependent : SourceUnit :=
  ⟨"src/lib.rs", ["crate"],
    "#[variant_merge(name=\"G\",priority=1)]pub struct H<A,const N:A>\x7bpub a:A\x7d" ++
      "impl<A,const N:A>H<A,N>\x7bpub fn new(a:A)->Self\x7bH\x7ba\x7d\x7d\x7d"⟩

/-- The constructor is recorded, and it does not return the struct once the parameter has another
name. The struct whose constant has a parameter for its type does not fit itself once it is spelled
in another way. -/
theorem respelling_matters_shadowing :
    (∃ site ∈ sites shadowing,
      (∀ block ∈ site.blocks,
        Mention.Respells (respelt [("H", "U")]) block.passed block.mentioned) ∧
      (findingsOfStruct {} shadowing site.module site.blocks site.struct).map
          (Except.map (·.name)) = [.ok "G"] ∧
      (findingsOfStruct {} shadowing site.module
          (site.blocks.map (ImplItem.renamed (respelt [("H", "U")]))) site.struct).map
          (Except.map (·.name)) =
        [.error (.scan ⟨"src/lib.rs", 1, 49⟩ (.constructorReturn "H" "new"))]) ∧
    ∃ site ∈ sites dependent,
      Mention.Respells (respelt [("A", "B")])
        (site.struct.generics.params.map GenericParameter.mention) site.struct.generics.mentioned ∧
      (findingsOfStruct {} dependent site.module site.blocks site.struct).any (fun finding =>
        (findingsOfStruct {} dependent site.module site.blocks
          (site.struct.renamed (respelt [("A", "B")]))).any fun other =>
            match finding, other with
            | .ok d, .ok after => (after.mismatch? d).isSome
            | _, _ => false) = true := by
  constructor
  · rw [sites_of_hasChars shadowing (.append .literal .literal)]
    decide +kernel
  · rw [sites_of_hasChars dependent (.append .literal .literal)]
    decide +kernel

end Scan

end Forwarding
