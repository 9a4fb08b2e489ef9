import Forwarding.Proofs.OwnType
import Forwarding.Proofs.Respelling
/-!
Other spellings of a block's parameters. A constructor in a block that spells the parameters of the
struct in another way has parameters of the same shapes and requires the same, unless a parameter is
named as the struct is: whether a type is that of the block, and whether a function returns it, is
told by the last name of a path alone.
-/

namespace Forwarding

section Ends

namespace Tree

variable {f : Mention → String}

/-- The last name of a path. -/
def endName? : Tree → Option String
  | path _ segments => segments.getLast?.map segmentName
  | _ => none

/-- Whether a path has one segment. -/
def isSingle : Tree → Bool
  | path _ segments => segments.length == 1
  | _ => false

theorem segmentName_mapNames (tree : Tree) : (tree.mapNames f).segmentName = tree.segmentName := by
  cases tree <;> rfl

theorem isSingle_mapNames (tree : Tree) : (tree.mapNames f).isSingle = tree.isSingle := by
  cases tree with
  | path isGlobal segments =>
    cases isGlobal with
    | true => simp [mapNames, isSingle, mapNamesAll_eq_map]
    | false =>
      cases segments with
      | nil => rfl
      | cons first rest => cases first <;> simp [mapNames, isSingle, mapNamesAll_eq_map, mapHead]
  | _ => rfl

/-- What is asked of the last name of a path is answered as before if new names are answered as the
old ones. -/
theorem any_endName?_mapNames {asked : String → Bool} {tree : Tree}
    (each : ∀ name, .value name ∈ tree.mentions → asked (f (.value name)) = asked name) :
    (tree.mapNames f).endName?.any asked = tree.endName?.any asked := by
  have inside (segments : List Tree) :
      (mapNamesAll f segments).getLast?.map segmentName = segments.getLast?.map segmentName := by
    rw [mapNamesAll_eq_map, List.getLast?_map, Option.map_map]
    exact congrArg (segments.getLast?.map ·) (funext segmentName_mapNames)
  cases tree with
  | path isGlobal segments =>
    cases isGlobal with
    | true => simp only [mapNames, if_true, endName?, inside]
    | false =>
      simp only [mapNames, Bool.false_eq_true, if_false, endName?]
      rcases segments with _ | ⟨first, _ | ⟨second, rest⟩⟩
      · rfl
      · cases first with
        | segment name args => exact each name (by simp [mentions, headMentions])
        | _ => rfl
      · have last := inside (second :: rest)
        cases first <;>
          simpa [mapNamesAll, mapNames, mapHead, List.getLast?_cons_cons] using
            congrArg (·.any asked) last
  | _ => rfl

theorem argumentsOf_mapNames (segment : Tree) :
    GenericNames.argumentsOf (segment.mapNames f) =
      (GenericNames.argumentsOf segment).map (List.map (mapNames f)) := by
  cases segment with
  | segment name args =>
    rcases args with _ | ⟨first, _ | ⟨second, rest⟩⟩
    · rfl
    · cases first with
      | arguments turbofish items trailing =>
        simp [mapNames, mapNamesAll, GenericNames.argumentsOf, mapNamesAll_eq_map]
      | _ => rfl
    · cases first <;> rfl
  | _ => rfl

theorem argumentsOf_mapHead (segments : List Tree) :
    (mapHead f segments).getLast?.bind GenericNames.argumentsOf =
      segments.getLast?.bind GenericNames.argumentsOf := by
  rcases segments with _ | ⟨first, _ | ⟨second, rest⟩⟩
  · rfl
  · cases first with
    | segment name args =>
      rcases args with _ | ⟨argument, _ | ⟨second, rest⟩⟩
      · rfl
      · cases argument <;> rfl
      · cases argument <;> rfl
    | _ => rfl
  · cases first <;> simp [mapHead, List.getLast?_cons_cons]

theorem lastArguments?_mapNames (tree : Tree) :
    (tree.mapNames f).lastArguments? = tree.lastArguments?.map (List.map (mapNames f)) := by
  have inside (segments : List Tree) :
      (mapNamesAll f segments).getLast?.bind GenericNames.argumentsOf =
        (segments.getLast?.bind GenericNames.argumentsOf).map (List.map (mapNames f)) := by
    rw [mapNamesAll_eq_map, List.getLast?_map]
    cases segments.getLast? with
    | none => rfl
    | some last => exact argumentsOf_mapNames last
  cases tree with
  | path isGlobal segments =>
    cases isGlobal with
    | true => exact inside segments
    | false => exact (argumentsOf_mapHead _).trans (inside segments)
  | qualified selfType traitPath rest => exact inside rest
  | _ => rfl

theorem mentions_lastArguments? {tree argument : Tree} {arguments : List Tree}
    (present : tree.lastArguments? = some arguments) (listed : argument ∈ arguments) :
    argument.mentions ⊆ tree.mentions := by
  have inside {segments : List Tree}
      (present : segments.getLast?.bind GenericNames.argumentsOf = some arguments) :
      argument.mentions ⊆ mentionsOf segments := by
    intro m member
    obtain ⟨last, ending, given⟩ := Option.bind_eq_some_iff.mp present
    refine mem_mentionsOf.mpr ⟨last, List.mem_of_getLast? ending, ?_⟩
    unfold GenericNames.argumentsOf at given
    split at given
    · cases given
      cases listed
    · cases given
      exact List.mem_append_left _ (mem_mentionsOf.mpr ⟨argument, listed, member⟩)
    · cases given
  cases tree with
  | path isGlobal segments => exact fun m member => List.mem_append_right _ (inside present member)
  | qualified selfType traitPath rest =>
    exact fun m member => List.mem_append_right _ (inside present member)
  | _ => cases present

theorem argumentMention?_mapNames (tree : Tree) :
    (tree.mapNames f).argumentMention? = tree.argumentMention?.map (Mention.renamed f) := by
  cases tree with
  | path isGlobal segments =>
    cases isGlobal with
    | true => rfl
    | false =>
      rcases segments with _ | ⟨first, _ | ⟨second, rest⟩⟩
      · rfl
      · cases first with
        | segment name args => cases args <;> rfl
        | _ => rfl
      · cases first with
        | segment name args => cases args <;> rfl
        | _ => rfl
  | _ => rfl

/-- Arguments that are names once they are renamed were names before. -/
theorem exists_arguments {arguments : List Tree} {spelled : List Mention}
    (same : arguments.map (mapNames f) = spelled.map Mention.argument) :
    ∃ passed : List Mention, arguments = passed.map Mention.argument ∧
      passed.map (Mention.renamed f) = spelled := by
  induction arguments generalizing spelled with
  | nil =>
    rw [List.map_nil, eq_comm, List.map_eq_nil_iff] at same
    exact ⟨[], rfl, same.symm⟩
  | cons argument rest ih =>
    cases spelled with
    | nil => cases same
    | cons m others =>
      rw [List.map_cons, List.map_cons, List.cons.injEq] at same
      obtain ⟨passed, rfl, rfl⟩ := ih same.2
      have named := congrArg argumentMention? same.1
      rw [argumentMention?_mapNames, argumentMention?_argument] at named
      obtain ⟨old, given, rfl⟩ := Option.map_eq_some_iff.mp named
      exact ⟨old :: passed, by rw [argumentMention?_eq_some given]; rfl, rfl⟩

theorem mem_mentions_argument (m : Mention) : m ∈ m.argument.mentions := by
  cases m <;> simp [Mention.argument, mentions, headMentions]

end Tree

end Ends

section Blocks

/-- The parameter with new names in its type; the name that it binds is kept. -/
def Parameter.renamed (f : Mention → String) : Parameter → Parameter
  | receiver tree => .receiver (tree.mapNames f)
  | typed attributes pattern name type =>
    .typed attributes (pattern.mapNames f) name (type.mapNames f)

def Signature.renamed (f : Mention → String) (s : Signature) : Signature :=
  { s with
    generics := s.generics.renamed f
    params := s.params.map (Parameter.renamed f)
    variadic := s.variadic.map (Tree.mapNames f)
    output := s.output.map (Tree.mapNames f) }

def Method.renamed (f : Mention → String) (m : Method) : Method :=
  { m with
    signature := m.signature.renamed f
    body := Tree.mapNamesAll f m.body }

def ImplMember.renamed (f : Mention → String) : ImplMember → ImplMember
  | method m => .method (m.renamed f)
  | other tree => .other (tree.mapNames f)

/-- The names that the types of a function's parameters and its result mention. -/
def Signature.mentioned (s : Signature) : List Mention :=
  Tree.mentionsOf (s.params.filterMap Parameter.type? ++ s.output.toList)

def ImplMember.mentioned : ImplMember → List Mention
  | method m => m.signature.mentioned
  | other _ => []

namespace ImplItem

/-- The block with new names. -/
def renamed (f : Mention → String) (block : ImplItem) : ImplItem :=
  { block with
    generics := block.generics.renamed f
    ofTrait := block.ofTrait.map (Tree.mapNames f)
    selfType := block.selfType.mapNames f
    members := block.members.map (ImplMember.renamed f) }

/-- The names that the parameters, the self type and the signatures of a block mention. -/
def mentioned (block : ImplItem) : List Mention :=
  block.generics.mentioned ++ block.selfType.mentions
    ++ block.members.flatMap ImplMember.mentioned

/-- The parameters of the block that are arguments of its self type. -/
def passed (block : ImplItem) : List Mention :=
  ((block.selfType.lastArguments?.getD []).filterMap Tree.argumentMention?).filter
    (· ∈ block.generics.params.map GenericParameter.mention)

/-- Where a type or a constant gets a new name, neither the old nor the new one is that of the
struct or the word for the type being declared. -/
def Foreign (block : ImplItem) (struct : StructItem) (f : Mention → String) : Prop :=
  ∀ m ∈ block.passed, m.isLifetime = false → f m = m.name ∨
    ∀ name ∈ [m.name, f m], name ≠ "Self" ∧ unraw name ≠ unraw struct.name

instance (block : ImplItem) (struct : StructItem) (f : Mention → String) :
    Decidable (block.Foreign struct f) :=
  inferInstanceAs (Decidable (∀ m ∈ block.passed, _ → _ ∨ ∀ name ∈ [m.name, f m], _))

/-- The second block is the first one with new names for parameters that it passes to the struct. -/
def Respelled (struct : StructItem) (block after : ImplItem) : Prop :=
  ∃ f, Mention.Respells f block.passed block.mentioned ∧ block.Foreign struct f ∧
    after = block.renamed f

end ImplItem

variable {f : Mention → String} {block : ImplItem} {struct : StructItem}

section

variable (respells : Mention.Respells f block.passed block.mentioned)
  (foreign : block.Foreign struct f)

include respells foreign

/-- What is asked about the struct's name and the word is answered of a new name as of the old
one. -/
theorem ImplItem.asked_eq (asked : String → Bool)
    (about : ∀ name, asked name = true → name = "Self" ∨ unraw name = unraw struct.name)
    {name : String} (member : .value name ∈ block.mentioned) :
    asked (f (.value name)) = asked name := by
  by_cases chosen : .value name ∈ block.passed
  · rcases foreign (.value name) chosen rfl with kept | apart
    · rw [kept]
      rfl
    · have other : ∀ new ∈ [name, f (.value name)], asked new = false := by
        intro new listed
        obtain ⟨word, named⟩ := apart new listed
        exact Bool.eq_false_iff.mpr fun yes => (about new yes).elim word named
      rw [other _ (by simp), other name (by simp)]
  · rw [respells.outside _ member chosen]
    rfl

theorem ImplItem.inherentName?_renamed :
    ((block.renamed f).inherentName? == some (unraw struct.name)) =
      (block.inherentName? == some (unraw struct.name)) := by
  have ends (b : ImplItem) : (b.inherentName? == some (unraw struct.name)) =
      (b.ofTrait.isNone && b.selfType.endName?.any (unraw · == unraw struct.name)) := by
    unfold inherentName?
    cases b.ofTrait with
    | some path => rfl
    | none =>
      cases b.selfType with
      | path isGlobal segments =>
        dsimp only [Tree.endName?]
        cases segments.getLast? <;> rfl
      | _ => rfl
  rw [ends, ends]
  congr 1
  · exact Option.isNone_map
  · refine Tree.any_endName?_mapNames fun name member => ?_
    refine asked_eq respells foreign _ (fun name yes => .inr (beq_iff_eq.mp yes)) ?_
    exact List.mem_append_left _ (List.mem_append_right _ member)

theorem Constructor.returnsOwn_renamed {output : Option Tree}
    (among : ∀ type ∈ output, type.mentions ⊆ block.mentioned) :
    returnsOwn struct (output.map (Tree.mapNames f)) = returnsOwn struct output := by
  have ends (output : Option Tree) : returnsOwn struct output = output.any fun type =>
      type.endName?.any fun name => (name == "Self" && type.isSingle) || name == struct.name := by
    unfold returnsOwn
    cases output with
    | none => rfl
    | some type =>
      cases type with
      | path isGlobal segments =>
        dsimp only [Option.any_some, Tree.endName?, Tree.isSingle]
        cases segments.getLast? <;> rfl
      | _ => rfl
  rw [ends, ends]
  cases output with
  | none => rfl
  | some type =>
    simp only [Option.map_some, Option.any_some, Tree.isSingle_mapNames]
    refine Tree.any_endName?_mapNames fun name member => ?_
    refine ImplItem.asked_eq respells foreign
      (fun name => (name == "Self" && type.isSingle) || name == struct.name)
      (fun name yes => ?_) (among type rfl member)
    rw [Bool.or_eq_true, Bool.and_eq_true, beq_iff_eq, beq_iff_eq] at yes
    exact yes.imp (·.1) (congrArg unraw)

/-- New names do not make nor lose the word for the type being declared. -/
theorem Tree.mentionsSelf_renamed {tree : Tree} (among : tree.mentions ⊆ block.mentioned) :
    (tree.mapNames f).mentionsSelf = tree.mentionsSelf := by
  have within : tree.mapNames f =
      tree.mapNames fun m => if m ∈ tree.mentions then f m else m.name :=
    (mapNames_eq_iff _ _ tree).mpr fun m member => (if_pos member).symm
  rw [within]
  refine mentionsSelf_mapNames (fun name => ?_) tree
  split
  · rename_i member
    have same := ImplItem.asked_eq respells foreign (· == "Self")
      (fun name yes => .inl (beq_iff_eq.mp yes)) (among member)
    rw [Bool.eq_iff_iff, beq_iff_eq, beq_iff_eq] at same
    exact same
  · rfl

end

/-- A block gives names under its new spelling exactly if it did so before. -/
theorem GenericNames.ofImpl?_renamed
    (respells : Mention.Respells f block.passed block.mentioned) (arity : Nat) :
    (∀ names, ofImpl? block.generics block.selfType arity = some names →
      ∃ after, ofImpl? (block.generics.renamed f) (block.selfType.mapNames f) arity = some after ∧
        ∀ m ∈ block.mentioned, names.Respelled after f m) ∧
    (ofImpl? block.generics block.selfType arity = Option.none →
      ofImpl? (block.generics.renamed f) (block.selfType.mapNames f) arity = Option.none) := by
  constructor
  · intro names given
    obtain ⟨passed, own, length, known, rfl⟩ := ofImpl?_eq_some_iff.mp given
    refine ⟨ofMentions (passed.map (Mention.renamed f)), ofImpl?_eq_some_iff.mpr
      ⟨_, ?_, ?_, ?_, rfl⟩, fun m member => respelled_ofMentions respells ?_ ?_ member⟩
    · rw [Tree.lastArguments?_mapNames, own, Option.map_some, List.map_map, List.map_map]
      exact congrArg some (List.map_congr_left fun m _ => Tree.mapNames_argument f m)
    · rw [List.length_map, length]
    · rw [Generics.mentions_renamed, List.forall_mem_map]
      exact fun m member => List.mem_map_of_mem (known m member)
    · exact fun m member => List.mem_append_left _ (List.mem_append_left _
        (List.mem_append_left _ (known m member)))
    · intro m member
      have listed := (List.mem_filter.mp member).1
      rw [own] at listed
      obtain ⟨argument, inside, named⟩ := List.mem_filterMap.mp listed
      obtain ⟨other, given, rfl⟩ := List.mem_map.mp inside
      rw [Tree.argumentMention?_argument, Option.some.injEq] at named
      rwa [← named]
  · intro absent
    rw [Option.eq_none_iff_forall_ne_some]
    intro after given
    obtain ⟨spelled, own, length, known, -⟩ := ofImpl?_eq_some_iff.mp given
    rw [Tree.lastArguments?_mapNames] at own
    obtain ⟨arguments, present, same⟩ := Option.map_eq_some_iff.mp own
    obtain ⟨passed, rfl, rfl⟩ := Tree.exists_arguments same
    have result : ofImpl? block.generics block.selfType arity = some (ofMentions passed) := by
      refine ofImpl?_eq_some_iff.mpr
        ⟨passed, present, by simpa using length, fun m member => ?_, rfl⟩
      have spelled := known _ (List.mem_map_of_mem member)
      rw [Generics.mentions_renamed] at spelled
      obtain ⟨other, inside, equal⟩ := List.mem_map.mp spelled
      -- both are mentioned by the block, so that the new names tell them apart
      have mentioned : m ∈ block.mentioned := List.mem_append_left _ (List.mem_append_right _
        (Tree.mentions_lastArguments? present (List.mem_map_of_mem member)
          (Tree.mem_mentions_argument m)))
      have mentioned' : other ∈ block.mentioned := List.mem_append_left _ (List.mem_append_left _
        (List.mem_append_left _ inside))
      rwa [← respells.apart other mentioned' m mentioned equal]
    rw [result] at absent
    cases absent

namespace Constructor

/-- The constructor with new names. -/
def renamed (f : Mention → String) (k : Constructor) : Constructor :=
  ⟨k.block.renamed f, k.method.renamed f⟩

/-- The second constructor is the first one with new names for parameters that its block passes to
the struct. -/
def Respelled (struct : StructItem) (k after : Constructor) : Prop :=
  ∃ f, Mention.Respells f k.block.passed k.block.mentioned ∧ k.block.Foreign struct f ∧
    after = k.renamed f

theorem exported_renamed (name : String) (block : ImplItem) :
    (block.renamed f).exported name = (block.exported name).map (renamed f) := by
  unfold ImplItem.exported
  rw [List.map_filterMap]
  change (block.members.map (ImplMember.renamed f)).filterMap _ = _
  rw [List.filterMap_map]
  refine List.filterMap_congr fun member _ => ?_
  cases member with
  | other tree => rfl
  | method method =>
    dsimp only [Function.comp_apply, ImplMember.renamed, Method.renamed, Signature.renamed]
    split <;> rfl

theorem block_of_exported {name : String} {k : Constructor} (member : k ∈ block.exported name) :
    k.block = block := by
  obtain ⟨declared, -, kept⟩ := List.mem_filterMap.mp member
  cases declared with
  | other tree => cases kept
  | method method =>
    dsimp only at kept
    split at kept
    · cases kept
      rfl
    · cases kept

/-- The candidates among blocks that are spelled in another way are the same, spelled so. -/
theorem candidates_respelled (name : String) {blocks after : List ImplItem}
    (respelled : List.Forall₂ (ImplItem.Respelled struct) blocks after) :
    List.Forall₂ (Respelled struct)
      ((blocks.filter fun b => b.inherentName? == some (unraw struct.name)).flatMap
        (ImplItem.exported name))
      ((after.filter fun b => b.inherentName? == some (unraw struct.name)).flatMap
        (ImplItem.exported name)) := by
  induction respelled with
  | nil => exact .nil
  | @cons block other rest others first _ ih =>
    obtain ⟨f, respells, foreign, rfl⟩ := first
    rw [List.filter_cons, List.filter_cons, ImplItem.inherentName?_renamed respells foreign]
    split
    · rw [List.flatMap_cons, List.flatMap_cons, exported_renamed]
      refine List.rel_append ?_ ih
      rw [List.forall₂_map_right_iff, List.forall₂_same]
      intro k member
      rw [← block_of_exported member] at respells foreign
      exact ⟨f, respells, foreign, rfl⟩
    · exact ih

theorem find_respelled (name : String) {blocks after : List ImplItem}
    (respelled : List.Forall₂ (ImplItem.Respelled struct) blocks after) :
    (∀ k, find (unraw struct.name) name blocks = .ok k →
      ∃ other, find (unraw struct.name) name after = .ok other ∧ k.Respelled struct other) ∧
    ∀ defect, find (unraw struct.name) name blocks = .error defect →
      find (unraw struct.name) name after = .error defect := by
  have related := candidates_respelled name respelled
  unfold find
  dsimp only
  generalize (blocks.filter fun b => b.inherentName? == some (unraw struct.name)).flatMap
    (ImplItem.exported name) = candidates at related
  generalize (after.filter fun b => b.inherentName? == some (unraw struct.name)).flatMap
    (ImplItem.exported name) = others at related
  cases related with
  | nil => exact ⟨fun k found => (nomatch found), fun _ failed => failed⟩
  | cons first more =>
    cases more with
    | nil =>
      refine ⟨fun k found => ?_, fun _ failed => (nomatch failed)⟩
      cases found
      exact ⟨_, rfl, first⟩
    | cons second rest => exact ⟨fun k found => (nomatch found), fun _ failed => failed⟩

theorem paramsFrom_renamed {type constructor : String} {own : Generics} {names after : GenericNames}
    {index : Nat} {params : List Parameter}
    (each : ∀ declared ∈ params.filterMap Parameter.type?,
      (∀ m ∈ declared.mentions, names.Respelled after f m) ∧
        (declared.mapNames f).mentionsSelf = declared.mentionsSelf) :
    paramsFrom type constructor own after index (params.map (Parameter.renamed f)) =
      paramsFrom type constructor own names index params := by
  induction params generalizing index with
  | nil => rfl
  | cons param rest ih =>
    have first : paramOf type constructor own after index (param.renamed f) =
        paramOf type constructor own names index param := by
      cases param with
      | receiver tree => rfl
      | typed attributes pattern name declared =>
        cases name with
        | none => rfl
        | some name =>
          obtain ⟨respelled, word⟩ := each declared (by simp [Parameter.type?])
          simp only [Parameter.renamed, paramOf, word, shapeOf,
            GenericNames.positionOf_renamed respelled, Tree.restated_renamed respelled,
            Tree.canonical_renamed respelled]
    rw [List.map_cons, paramsFrom, paramsFrom, first, ih fun declared member => each declared ?_]
    obtain ⟨other, inside, given⟩ := List.mem_filterMap.mp member
    exact List.mem_filterMap.mpr ⟨other, List.mem_cons_of_mem _ inside, given⟩

theorem takesReceiver_renamed (params : List Parameter) :
    takesReceiver (params.map (Parameter.renamed f)) = takesReceiver params := by
  cases params with
  | nil => rfl
  | cons param rest => cases param <;> rfl

section

variable {k : Constructor} {type : String}
  (respells : Mention.Respells f k.block.passed k.block.mentioned)
  (foreign : k.block.Foreign struct f) (declared : .method k.method ∈ k.block.members)

theorem mentions_signature {tree : Tree} (declared : .method k.method ∈ k.block.members)
    (inside : tree ∈ k.method.signature.params.filterMap Parameter.type?
      ++ k.method.signature.output.toList) : tree.mentions ⊆ k.block.mentioned := by
  intro m member
  refine List.mem_append_right _ (List.mem_flatMap.mpr ⟨.method k.method, declared, ?_⟩)
  exact Tree.mem_mentionsOf.mpr ⟨tree, inside, member⟩

include respells foreign declared

theorem params_renamed {names after : GenericNames}
    (respelled : ∀ m ∈ k.block.mentioned, names.Respelled after f m) :
    (k.renamed f).params type struct after = k.params type struct names := by
  refine paramsFrom_renamed fun tree inside => ?_
  have among := mentions_signature declared (List.mem_append_left _ inside)
  exact ⟨fun m member => respelled m (among member),
    Tree.mentionsSelf_renamed respells foreign among⟩

theorem names_renamed :
    (∀ names, k.names type struct = .ok names →
      ∃ after, (k.renamed f).names type struct = .ok after ∧
        ∀ m ∈ k.block.mentioned, names.Respelled after f m) ∧
    ∀ defect, k.names type struct = .error defect →
      (k.renamed f).names type struct = .error defect := by
  have returns : returnsOwn struct (k.renamed f).method.signature.output =
      returnsOwn struct k.method.signature.output := by
    refine returnsOwn_renamed respells foreign fun tree given => ?_
    exact mentions_signature declared (List.mem_append_right _ (by simpa using given))
  have receives : takesReceiver (k.renamed f).method.signature.params =
      takesReceiver k.method.signature.params := takesReceiver_renamed _
  obtain ⟨found, absent⟩ := GenericNames.ofImpl?_renamed respells struct.generics.params.length
  constructor
  · intro names given
    obtain ⟨free, synchronous, monomorphic, constructing, fits⟩ := names_eq_ok_iff.mp given
    obtain ⟨after, fitting, respelled⟩ := found names fits
    refine ⟨after, names_eq_ok_iff.mpr ⟨receives.trans free, synchronous, ?_,
      returns.trans constructing, fitting⟩, respelled⟩
    exact List.map_eq_nil_iff.mpr monomorphic
  · intro defect failed
    have monomorphic : (k.renamed f).method.signature.generics.params.isEmpty =
        k.method.signature.generics.params.isEmpty := List.isEmpty_map
    have synchronous : (k.renamed f).method.signature.isAsync = k.method.signature.isAsync := rfl
    unfold names at failed ⊢
    dsimp only at failed ⊢
    rw [receives, synchronous, monomorphic, returns]
    cases given : GenericNames.ofImpl? k.block.generics k.block.selfType
        struct.generics.params.length with
    | none =>
      rw [given] at failed
      simp only [renamed, ImplItem.renamed, absent given]
      exact failed
    | some names =>
      obtain ⟨after, fitting, -⟩ := found names given
      rw [given] at failed
      simp only [renamed, ImplItem.renamed, fitting]
      -- each check has the same outcome in both spellings
      split_ifs at failed ⊢
      all_goals exact failed

end

end Constructor

end Blocks

end Forwarding
