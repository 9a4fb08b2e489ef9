import Forwarding.Proofs.Instances
import Mathlib.Tactic.TFAE
/-!
Results of constructors. A scan accepts a function that returns the word for the type being declared
or a path that ends in the name of the struct. The word stands for the self type of the block. A
path stands for it exactly if its arguments are those of the self type, elided lifetimes aside: any
other arguments are told apart by some values of the block's parameters.
-/

namespace Forwarding

/-- Written arguments stand for some arguments: they are the same, or lifetimes are elided, one by
one or all together. -/
def StandFor (written arguments : List Tree) : Prop :=
  List.Forall₂ (fun w a => w = a ∨ w = .lifetime "_" ∧ a.isLifetime = true) written arguments ∨
    written = arguments.filter (!·.isLifetime)

namespace StandFor

variable {written arguments : List Tree} {f : Mention → String}

theorem refl (arguments : List Tree) : StandFor arguments arguments :=
  .inl (List.forall₂_same.mpr fun _ _ => .inl rfl)

/-- New names that keep the elided lifetime keep what stands for what. -/
theorem mapNames (keeps : f (.lifetime "_") = "_") (stand : StandFor written arguments) :
    StandFor (written.map (Tree.mapNames f)) (arguments.map (Tree.mapNames f)) := by
  rcases stand with each | rfl
  · left
    rw [List.forall₂_map_left_iff, List.forall₂_map_right_iff]
    refine each.imp fun w a same => ?_
    rcases same with rfl | ⟨rfl, lifetime⟩
    · exact .inl rfl
    · refine .inr ⟨?_, (Tree.isLifetime_mapNames f a).trans lifetime⟩
      rw [Tree.mapNames, keeps]
  · right
    rw [List.filter_map]
    congr 1
    exact List.filter_congr fun a _ => by rw [Function.comp_apply, Tree.isLifetime_mapNames]

end StandFor

namespace Generics

/-- The names of parameters; the elided lifetime is none of them. -/
def parameterNames (g : Generics) : List Mention :=
  (g.params.map GenericParameter.mention).filter (· ≠ .lifetime "_")

/-- New names for the parameters, and for nothing else. -/
def valued (g : Generics) (choice : Mention → String) (m : Mention) : String :=
  if m ∈ g.parameterNames then choice m else m.name

/-- The parameters are given names that are not those of parameters. -/
def Grounds (g : Generics) (choice : Mention → String) : Prop :=
  ∀ m ∈ g.parameterNames, m.renamed choice ∉ g.parameterNames

/-- Written arguments stand for some arguments where the parameters are given other names. -/
def StandForAt (g : Generics) (choice : Mention → String) (written arguments : List Tree) : Prop :=
  StandFor (written.map (Tree.mapNames (g.valued choice)))
    (arguments.map (Tree.mapNames (g.valued choice)))

variable (g : Generics)

theorem valued_elided (choice : Mention → String) : g.valued choice (.lifetime "_") = "_" := by
  refine if_neg fun member => ?_
  simp [parameterNames] at member

theorem StandForAt.of_standFor {written arguments : List Tree}
    (stand : StandFor written arguments) (choice : Mention → String) :
    g.StandForAt choice written arguments :=
  stand.mapNames (g.valued_elided choice)

/-- A word longer than all of some names. -/
def padding (mentions : List Mention) : String :=
  String.ofList (List.replicate ((mentions.map (·.name.length)).max?.getD 0 + 1) 'a')

theorem length_lt_padding {mentions : List Mention} {m : Mention} (member : m ∈ mentions) :
    m.name.length < (padding mentions).length := by
  have bounded := List.le_max?_getD_of_mem (k := 0)
    (List.mem_map_of_mem (f := fun m : Mention => m.name.length) member)
  rw [padding, String.length_ofList, List.length_replicate]
  exact Nat.lt_succ_of_le bounded

/-- What follows a word in a name that is as long; a shorter name as it is. -/
def withoutPadding (word : String) (m : Mention) : String :=
  if m.name.length < word.length then m.name
  else String.ofList (m.name.toList.drop word.length)

theorem withoutPadding_append (word : String) {m : Mention} {name : String}
    (same : m.name = word ++ name) : withoutPadding word m = name := by
  have long : ¬ m.name.length < word.length := by
    rw [same, String.length_append]
    omega
  rw [withoutPadding, if_neg long, same, String.toList_append, List.drop_left' String.length_toList,
    String.ofList_toList]

/-- Parameters can be given names that are not used, so that the old ones are known from them. -/
theorem exists_grounding (trees : List Tree) :
    ∃ choice back : Mention → String, g.Grounds choice ∧ back (.lifetime "_") = "_" ∧
      ∀ tree ∈ trees, (tree.mapNames (g.valued choice)).mapNames back = tree := by
  let used := g.parameterNames ++ .lifetime "_" :: Tree.mentionsOf trees
  let choice := fun m : Mention => padding used ++ m.name
  have short {m : Mention} (member : m ∈ used) : m.name.length < (padding used).length :=
    length_lt_padding member
  refine ⟨choice, withoutPadding (padding used), ?_, if_pos (short (by simp [used])), ?_⟩
  · intro m member inside
    have bounded := short (List.mem_append_left _ inside)
    rw [Mention.name_renamed, String.length_append] at bounded
    omega
  · intro tree member
    rw [Tree.mapNames_mapNames]
    refine Eq.trans ((Tree.mapNames_eq_iff _ _ tree).mpr fun m mentioned => ?_) tree.mapNames_name
    by_cases parameter : m ∈ g.parameterNames
    · apply withoutPadding_append
      rw [Mention.name_renamed, valued, if_pos parameter]
    · have inside : m ∈ used := List.mem_append_right _
        (List.mem_cons_of_mem _ (Tree.mem_mentionsOf.mpr ⟨tree, member, mentioned⟩))
      have kept : (m.renamed (g.valued choice)).name = m.name := by
        rw [Mention.name_renamed, valued, if_neg parameter]
      rw [withoutPadding, kept]
      exact if_pos (short inside)

theorem standFor_of_grounded {written arguments : List Tree}
    (each : ∀ choice, g.Grounds choice → g.StandForAt choice written arguments) :
    StandFor written arguments := by
  obtain ⟨choice, back, grounds, keeps, restores⟩ := g.exists_grounding (written ++ arguments)
  have restored := (each choice grounds).mapNames keeps
  have same {trees : List Tree} (inside : trees ⊆ written ++ arguments) :
      (trees.map (Tree.mapNames (g.valued choice))).map (Tree.mapNames back) = trees := by
    rw [List.map_map]
    conv_rhs => rw [← List.map_id trees]
    exact List.map_congr_left fun tree member => restores tree (inside member)
  rwa [same (List.subset_append_left _ _), same (List.subset_append_right _ _)] at restored

end Generics

namespace Constructor

/-- Whether the return type is the word for the type being declared. -/
def returnsWord (k : Constructor) : Bool :=
  match k.method.signature.output with
  | some (.path _ [segment]) => segment.segmentName == "Self"
  | _ => false

/-- The arguments of the type that a constructor returns. The word has those of the self type. -/
def resultArguments? (k : Constructor) : Option (List Tree) :=
  if k.returnsWord then k.block.selfType.lastArguments?
  else k.method.signature.output.bind Tree.lastArguments?

/-- Where the parameters of the block are given other names, the constructor returns the type with
the arguments of the self type. -/
def ConstructsAt (k : Constructor) (choice : Mention → String) : Prop :=
  ∃ written arguments, k.resultArguments? = some written ∧
    k.block.selfType.lastArguments? = some arguments ∧
    k.block.generics.StandForAt choice written arguments

variable {k : Constructor}

/-- A constructor returns what it constructs whatever the parameters are exactly if the arguments
that it returns stand for those of the self type. Parameters that are given other names already tell
the two apart. -/
theorem constructs_tfae {arguments : List Tree}
    (own : k.block.selfType.lastArguments? = some arguments) :
    [∃ written, k.resultArguments? = some written ∧ StandFor written arguments,
      ∀ choice, k.ConstructsAt choice,
      ∀ choice, k.block.generics.Grounds choice → k.ConstructsAt choice].TFAE := by
  tfae_have 1 → 2 := by
    rintro ⟨written, result, stand⟩ choice
    exact ⟨written, arguments, result, own, .of_standFor _ stand choice⟩
  tfae_have 2 → 3 := fun each choice _ => each choice
  tfae_have 3 → 1 := by
    intro each
    obtain ⟨first, -, grounds, -⟩ := k.block.generics.exists_grounding []
    obtain ⟨written, -, result, -⟩ := each first grounds
    refine ⟨written, result, k.block.generics.standFor_of_grounded fun choice grounds => ?_⟩
    obtain ⟨_, _, other, same, stand⟩ := each choice grounds
    rw [result, Option.some.injEq] at other
    rw [own, Option.some.injEq] at same
    rwa [other, same]
  tfae_finish

theorem returnsOwn_last {struct : StructItem}
    (returns : returnsOwn struct k.method.signature.output = true)
    (path : k.returnsWord = false) :
    ∃ isGlobal segments, k.method.signature.output = some (.path isGlobal segments) ∧
      segments.getLast?.map Tree.segmentName = some struct.name := by
  unfold returnsOwn at returns
  unfold returnsWord at path
  split at returns
  · rename_i isGlobal segments output
    refine ⟨isGlobal, segments, output, ?_⟩
    rw [output] at path
    split at returns
    · rename_i segment last
      rw [last, Option.map_some, Option.some.injEq]
      rw [Bool.or_eq_true, Bool.and_eq_true, beq_iff_eq, beq_iff_eq, beq_iff_eq] at returns
      rcases returns with ⟨word, single⟩ | named
      · -- a single segment that is the word
        obtain ⟨only, rfl⟩ := List.length_eq_one_iff.mp single
        rw [List.getLast?_singleton, Option.some.injEq] at last
        rw [last, beq_eq_false_iff_ne] at path
        exact absurd word path
      · exact named
    · cases returns
  · cases returns

end Constructor

namespace Scan

/-- A scanned constructor returns the word for the type being declared, and then what it constructs,
or a path that ends in the name of the struct. In any case it returns what it constructs, whatever
the parameters of the block are, exactly if the arguments that it returns stand for those of the
self type. -/
theorem result_constructs {c : Conventions} {unit : SourceUnit} {definitions : List Definition}
    {d : Definition} (scanned : scan c unit = .ok definitions) (member : d ∈ definitions) :
    ∃ o ∈ origins c unit, o.Describes d ∧
      (o.constructor.returnsWord = true → ∀ choice, o.constructor.ConstructsAt choice) ∧
      (o.constructor.returnsWord = false →
        ∃ isGlobal segments, o.constructor.method.signature.output =
            some (.path isGlobal segments) ∧
          segments.getLast?.map Tree.segmentName = some o.struct.name) ∧
      ∃ arguments, o.constructor.block.selfType.lastArguments? = some arguments ∧
        [∃ written, o.constructor.resultArguments? = some written ∧ StandFor written arguments,
          ∀ choice, o.constructor.ConstructsAt choice,
          ∀ choice, o.constructor.block.generics.Grounds choice →
            o.constructor.ConstructsAt choice].TFAE := by
  obtain ⟨o, origin, described⟩ := exists_origin scanned member
  obtain ⟨-, -, -, returns, fits⟩ := Constructor.names_eq_ok_iff.mp described.named
  obtain ⟨passed, own, -⟩ := GenericNames.ofImpl?_eq_some_iff.mp fits
  have constructs := Constructor.constructs_tfae own
  refine ⟨o, origin, described, fun word => ?_, Constructor.returnsOwn_last returns, _, own,
    constructs⟩
  apply (constructs.out 0 1).mp
  exact ⟨_, by rw [Constructor.resultArguments?, if_pos word, own], .refl _⟩

/-- A unit whose constructor writes out its type and elides the lifetime. -/
def eliding : SourceUnit :=
  ⟨"src/lib.rs", ["crate"],
    "#[variant_merge(name=\"G\",priority=1)]pub struct H<'a,T>\x7bpub a:&'a T\x7d" ++
      "impl<'b,U>H<'b,U>\x7bpub fn new(a:&'b U)->H<'_,U>\x7bH\x7ba\x7d\x7d\x7d"⟩

theorem result_constructs_eliding :
    ∃ d, scan {} eliding = .ok [d] ∧ ∃ o ∈ origins {} eliding, o.Describes d ∧
      ∀ choice, o.constructor.ConstructsAt choice := by
  have computed : (scan {} eliding).toOption.map (·.map (·.generics.length)) = some [2] ∧
      ∀ o ∈ origins {} eliding,
        o.constructor.resultArguments?.map (·.map Tree.argumentMention?) =
          some ([.lifetime "_", .value "U"].map some) ∧
        o.constructor.block.selfType.lastArguments?.map (·.map Tree.argumentMention?) =
          some ([.lifetime "b", .value "U"].map some) := by
    rw [scan_of_hasChars eliding (.append .literal .literal),
      origins_of_hasChars eliding (.append .literal .literal)]
    decide +kernel
  obtain ⟨d, scanned, -⟩ := exists_single computed.1
  obtain ⟨o, origin, described, -, -, arguments, own, constructs⟩ :=
    result_constructs scanned (List.mem_singleton_self d)
  obtain ⟨result, named⟩ := computed.2 o origin
  have same := own.symm.trans (Tree.eq_of_argumentMentions named)
  refine ⟨d, scanned, o, origin, described, (constructs.out 0 1).mp ?_⟩
  refine ⟨_, Tree.eq_of_argumentMentions result, ?_⟩
  rw [Option.some.inj same]
  exact .inl (.cons (.inr ⟨rfl, rfl⟩) (.cons (.inl rfl) .nil))

/-- A unit whose constructor returns one instance of the struct in a block for all of them. -/
def specialising : SourceUnit :=
  ⟨"src/lib.rs", ["crate"],
    "#[variant_merge(name=\"G\",priority=1)]pub struct H<T>\x7bpub a:T\x7d" ++
      "impl<T>H<T>\x7bpub fn new(a:T)->H<u8>\x7bH\x7ba:0\x7d\x7d\x7d"⟩

/-- The constructor is recorded, and for another type than that of the instance it does not return
what it constructs. -/
theorem result_differs_specialising :
    ∃ d, scan {} specialising = .ok [d] ∧ ∃ o ∈ origins {} specialising, o.Describes d ∧
      ∃ choice, o.constructor.block.generics.Grounds choice ∧
        ¬ o.constructor.ConstructsAt choice := by
  have computed : (scan {} specialising).toOption.map (·.map (·.generics.length)) = some [1] ∧
      ∀ o ∈ origins {} specialising,
        o.constructor.block.generics.parameterNames = [.value "T"] ∧
        o.constructor.resultArguments?.map (·.map Tree.argumentMention?) =
          some ([.value "u8"].map some) ∧
        o.constructor.block.selfType.lastArguments?.map (·.map Tree.argumentMention?) =
          some ([.value "T"].map some) := by
    rw [scan_of_hasChars specialising (.append .literal .literal),
      origins_of_hasChars specialising (.append .literal .literal)]
    decide +kernel
  obtain ⟨d, scanned, -⟩ := exists_single computed.1
  obtain ⟨o, origin, described⟩ := exists_origin scanned (List.mem_singleton_self d)
  obtain ⟨parameters, result, named⟩ := computed.2 o origin
  refine ⟨d, scanned, o, origin, described, fun _ => "u16", ?_, ?_⟩
  · rw [Generics.Grounds, parameters]
    decide
  · rintro ⟨written, arguments, returned, own, stand⟩
    have same := returned.symm.trans (Tree.eq_of_argumentMentions result)
    have same' := own.symm.trans (Tree.eq_of_argumentMentions named)
    let values := o.constructor.block.generics.valued fun _ => "u16"
    have concrete : (Mention.value "u8").renamed values = .value "u8" := by
      simp [values, Mention.renamed, Generics.valued, parameters, Mention.name]
    have chosen : (Mention.value "T").renamed values = .value "u16" := by
      simp [values, Mention.renamed, Generics.valued, parameters]
    rw [Option.some.inj same, Option.some.inj same', Generics.StandForAt, List.map_map,
      List.map_map, List.map_singleton, List.map_singleton, Function.comp_apply,
      Function.comp_apply, Tree.mapNames_argument, Tree.mapNames_argument, concrete,
      chosen] at stand
    simp [StandFor, Mention.argument, Tree.isLifetime] at stand

end Scan

end Forwarding
