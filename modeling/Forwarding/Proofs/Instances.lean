import Forwarding.Proofs.Origin
import Forwarding.Proofs.Restating
/-!
Instances of a struct. An impl block declares its functions for those lists of arguments that its
self type has for some values of the parameters of the block. The block of a scanned constructor has
only its own parameters as arguments, as many as the struct has parameters. It is for every instance
of the struct exactly if no parameter is passed twice and each is of the kind of the parameter it
stands for.
-/

namespace Forwarding

namespace Mention

theorem isLifetime_argument (m : Mention) : m.argument.isLifetime = m.isLifetime := by
  cases m <;> rfl

/-- Values for parameters: lifetimes for lifetimes, and types or constants for the others. -/
def Respects (choice : Mention → Tree) : Prop :=
  ∀ m, (choice m).isLifetime = m.isLifetime

theorem respects_argument : Respects argument :=
  isLifetime_argument

theorem argument_injective : Function.Injective argument := by
  intro first second same
  have named := congrArg Tree.argumentMention? same
  rwa [Tree.argumentMention?_argument, Tree.argumentMention?_argument, Option.some.injEq] at named

variable {mentions : List Mention} {kinds : List Bool}

/-- Where no parameter is repeated, values can be chosen one after another. -/
theorem exists_choice (distinct : mentions.Nodup) {values : List Tree}
    (suits : values.map Tree.isLifetime = mentions.map isLifetime) :
    ∃ choice, Respects choice ∧ mentions.map choice = values := by
  induction mentions generalizing values with
  | nil => exact ⟨argument, respects_argument, (List.map_eq_nil_iff.mp suits).symm⟩
  | cons m rest ih =>
    obtain ⟨absent, apart⟩ := List.nodup_cons.mp distinct
    cases values with
    | nil => cases suits
    | cons value others =>
      rw [List.map_cons, List.map_cons, List.cons.injEq] at suits
      obtain ⟨choice, respects, same⟩ := ih apart suits.2
      refine ⟨fun other => if other = m then value else choice other, ?_, ?_⟩
      · intro other
        by_cases here : other = m
        · simpa [here] using suits.1
        · simpa [here] using respects other
      · have kept : rest.map (fun other => if other = m then value else choice other) =
            rest.map choice := by
          apply List.map_congr_left
          intro other member
          exact if_neg (ne_of_mem_of_not_mem member absent)
        rw [List.map_cons, if_pos rfl, kept, same]

/-- Values of some kinds of which the one at a position differs from all others. -/
def marked (position : Nat) (kinds : List Bool) : List Tree :=
  kinds.mapIdx fun i kind =>
    let name := if i = position then "a" else "b"
    (if kind then lifetime name else value name).argument

theorem isLifetime_marked (position : Nat) (kinds : List Bool) :
    (marked position kinds).map Tree.isLifetime = kinds := by
  apply List.ext_getElem?
  intro i
  rw [List.getElem?_map, marked, List.getElem?_mapIdx]
  cases kinds[i]? with
  | none => rfl
  | some kind => cases kind <;> rfl

theorem marked_ne {kinds : List Bool} {i j : Nat} (apart : i ≠ j) (within : i < kinds.length) :
    (marked i kinds)[i]? ≠ (marked i kinds)[j]? := by
  rw [marked, List.getElem?_mapIdx, List.getElem?_mapIdx, List.getElem?_eq_getElem within,
    if_pos rfl, if_neg apart.symm]
  cases kinds[i] <;> cases kinds[j]? with
  | none => simp
  | some kind => cases kind <;> simp [argument]

/-- All values of some kinds can be chosen for mentions exactly if these are of the kinds and none
of them is repeated. -/
theorem choices_iff :
    (∀ values : List Tree, values.map Tree.isLifetime = kinds →
        ∃ choice, Respects choice ∧ mentions.map choice = values) ↔
      mentions.Nodup ∧ mentions.map isLifetime = kinds := by
  constructor
  · intro covered
    have suits : mentions.map isLifetime = kinds := by
      obtain ⟨choice, respects, same⟩ := covered _ (isLifetime_marked 0 kinds)
      rw [← isLifetime_marked 0 kinds, ← same, List.map_map]
      exact List.map_congr_left fun m _ => (respects m).symm
    refine ⟨List.nodup_iff_getElem?_ne_getElem?.mpr fun i j before within same => ?_, suits⟩
    -- values that differ at the two places are chosen for one mention
    obtain ⟨choice, -, chosen⟩ := covered _ (isLifetime_marked i kinds)
    have length : mentions.length = kinds.length := by rw [← suits, List.length_map]
    apply marked_ne (Nat.ne_of_lt before) (by omega : i < kinds.length)
    rw [← chosen, List.getElem?_map, List.getElem?_map, same]
  · rintro ⟨distinct, rfl⟩ values suits
    exact exists_choice distinct suits

end Mention

namespace ImplItem

/-- The arguments of the self type where the parameters of the block have the given values. An
argument that is no parameter of the block is left as it is. -/
def argumentsWith (choice : Mention → Tree) (block : ImplItem) : Option (List Tree) :=
  block.selfType.lastArguments?.map (List.map fun argument =>
    match argument.argumentMention? with
    | some m =>
      if m ∈ block.generics.params.map GenericParameter.mention then choice m else argument
    | none => argument)

/-- Every list of arguments of some kinds is that of the self type for some values of the
parameters. -/
def Covers (block : ImplItem) (kinds : List Bool) : Prop :=
  ∀ arguments : List Tree, arguments.map Tree.isLifetime = kinds →
    ∃ choice, Mention.Respects choice ∧ block.argumentsWith choice = some arguments

theorem argumentsWith_eq {block : ImplItem} {passed : List Mention}
    (own : block.selfType.lastArguments? = some (passed.map Mention.argument))
    (declared : ∀ m ∈ passed, m ∈ block.generics.params.map GenericParameter.mention)
    (choice : Mention → Tree) : block.argumentsWith choice = some (passed.map choice) := by
  rw [argumentsWith, own, Option.map_some, List.map_map]
  apply congrArg some
  apply List.map_congr_left
  intro m member
  rw [Function.comp_apply, Tree.argumentMention?_argument]
  exact if_pos (declared m member)

/-- A block that has only parameters of its own as arguments covers all arguments of some kinds if
no parameter is passed twice and each is of the kind, and only then. -/
theorem covers_iff {block : ImplItem} {passed : List Mention} {kinds : List Bool}
    (own : block.selfType.lastArguments? = some (passed.map Mention.argument))
    (declared : ∀ m ∈ passed, m ∈ block.generics.params.map GenericParameter.mention) :
    block.Covers kinds ↔ passed.Nodup ∧ passed.map Mention.isLifetime = kinds := by
  simp only [Covers, argumentsWith_eq own declared, Option.some.injEq]
  exact Mention.choices_iff

end ImplItem

namespace Scan

/-- The kinds of the arguments that a struct takes: whether each is a lifetime. -/
def Origin.kinds (o : Origin) : List Bool :=
  o.struct.generics.params.map GenericParameter.isLifetime

/-- The block of a scanned constructor has as many arguments as the struct has parameters, all of
them parameters that it declares. It covers every instance of the struct exactly if no argument is
repeated and each is of the kind of its parameter. -/
theorem block_covers_iff {c : Conventions} {unit : SourceUnit} {definitions : List Definition}
    {d : Definition} (scanned : scan c unit = .ok definitions) (member : d ∈ definitions) :
    ∃ o ∈ origins c unit, o.Describes d ∧
      o.constructor.block.inherentName? = some (unraw o.struct.name) ∧
      ∃ passed : List Mention,
        o.constructor.block.selfType.lastArguments? = some (passed.map Mention.argument) ∧
        passed.length = o.struct.generics.params.length ∧
        (∀ m ∈ passed,
          m ∈ o.constructor.block.generics.params.map GenericParameter.mention) ∧
        (o.constructor.block.Covers o.kinds ↔
          passed.Nodup ∧ passed.map Mention.isLifetime = o.kinds) := by
  obtain ⟨o, origin, described⟩ := exists_origin scanned member
  obtain ⟨site, -, given⟩ := List.mem_filterMap.mp origin
  obtain ⟨-, found, named⟩ := Site.origin?_eq_some given
  obtain ⟨-, inherent, -⟩ := Constructor.find_ok found
  obtain ⟨-, -, -, -, fits⟩ := Constructor.names_eq_ok_iff.mp named
  obtain ⟨passed, own, length, declared, -⟩ := GenericNames.ofImpl?_eq_some_iff.mp fits
  exact ⟨o, origin, described, inherent, passed, own, length, declared,
    ImplItem.covers_iff own declared⟩

/-- A unit whose impl block renames the parameters of the struct. -/
def respelling : SourceUnit :=
  ⟨"src/lib.rs", ["crate"],
    "#[variant_merge(name=\"G\",priority=1)]pub struct H<'a,T,const N:usize>" ++
      "\x7bpub a:&'a[T;N]\x7dimpl<'b,U,const M:usize>H<'b,U,M>" ++
      "\x7bpub fn new(a:&'b[U;M])->Self\x7bH\x7ba\x7d\x7d\x7d"⟩

theorem block_covers_iff_respelling :
    ∃ d, scan {} respelling = .ok [d] ∧ ∃ o ∈ origins {} respelling, o.Describes d ∧
      o.constructor.block.Covers [true, false, false] := by
  have computed : (scan {} respelling).toOption.map (·.map (·.generics.length)) = some [3] ∧
      ∀ o ∈ origins {} respelling, o.kinds = [true, false, false] ∧
        o.constructor.block.selfType.lastArguments?.map (·.map Tree.argumentMention?) =
          some ([.lifetime "b", .value "U", .value "M"].map some) := by
    rw [scan_of_hasChars respelling (by repeat constructor),
      origins_of_hasChars respelling (by repeat constructor)]
    decide +kernel
  obtain ⟨d, scanned, -⟩ := exists_single computed.1
  obtain ⟨o, origin, described, -, passed, own, -, -, covers⟩ :=
    block_covers_iff scanned (List.mem_singleton_self d)
  obtain ⟨kinds, arguments⟩ := computed.2 o origin
  have listed : passed = [.lifetime "b", .value "U", .value "M"] := by
    have same := own.symm.trans (Tree.eq_of_argumentMentions arguments)
    exact List.map_injective_iff.mpr Mention.argument_injective (Option.some.inj same)
  rw [kinds, listed] at covers
  exact ⟨d, scanned, o, origin, described, covers.mpr (by decide)⟩

/-- A unit whose impl block passes one parameter twice. -/
def repeating : SourceUnit :=
  ⟨"src/lib.rs", ["crate"],
    "#[variant_merge(name=\"G\",priority=1)]pub struct H<A,B>\x7bpub a:A,pub b:B\x7d" ++
      "impl<T>H<T,T>\x7bpub fn new(a:T,b:T)->Self\x7bH\x7ba,b\x7d\x7d\x7d"⟩

/-- Its constructor is recorded, and the block covers no instance with two different arguments. -/
theorem block_not_covers_repeating :
    ∃ d, scan {} repeating = .ok [d] ∧ ∃ o ∈ origins {} repeating, o.Describes d ∧
      ¬ o.constructor.block.Covers o.kinds := by
  have computed : (scan {} repeating).toOption.map (·.map (·.generics.length)) = some [2] ∧
      ∀ o ∈ origins {} repeating,
        Mention.value "T" ∈ o.constructor.block.generics.params.map GenericParameter.mention ∧
        o.constructor.block.selfType.lastArguments?.map (·.map Tree.argumentMention?) =
          some ([.value "T", .value "T"].map some) := by
    rw [scan_of_hasChars repeating (.append .literal .literal),
      origins_of_hasChars repeating (.append .literal .literal)]
    decide +kernel
  obtain ⟨d, scanned, -⟩ := exists_single computed.1
  obtain ⟨o, origin, described⟩ := exists_origin scanned (List.mem_singleton_self d)
  obtain ⟨declared, arguments⟩ := computed.2 o origin
  refine ⟨d, scanned, o, origin, described, fun covers => ?_⟩
  have own := Tree.eq_of_argumentMentions arguments
  have apart := ((ImplItem.covers_iff own (by simpa using declared)).mp covers).1
  exact absurd apart (by decide)

end Scan

end Forwarding
