import Forwarding.Proofs.Renaming
import Mathlib.Data.List.Nodup
/-!
Tables of parameter names. The table of some parameters leads from each of them to a position at
which it stands, and leads nowhere from any other name. A struct gives such a table by its
declaration, and an impl block by the arguments of its self type, all of which it has to declare.
-/

namespace Forwarding

/-- A declared parameter as trees mention it. -/
def GenericParameter.mention : GenericParameter → Mention
  | lifetime _ name _ _ => .lifetime name
  | type _ name _ _ _ => .value name
  | const _ name _ _ => .value name

/-- A generic argument that is only a name, as trees mention it. -/
def Tree.argumentMention? : Tree → Option Mention
  | lifetime name => some (.lifetime name)
  | argument => argument.ident?.map .value

/-- A mention as a generic argument. -/
def Mention.argument : Mention → Tree
  | value name => .path false [.segment name []]
  | lifetime name => .lifetime name

/-- The generic arguments that a type ends in. -/
def Tree.lastArguments? (type : Tree) : Option (List Tree) :=
  type.lastSegment?.bind GenericNames.argumentsOf

theorem Tree.argumentMention?_argument (m : Mention) : m.argument.argumentMention? = some m := by
  cases m <;> rfl

theorem Tree.mapNames_argument (f : Mention → String) (m : Mention) :
    m.argument.mapNames f = (m.renamed f).argument := by
  cases m <;> rfl

theorem Tree.argumentMention?_eq_some {t : Tree} {m : Mention}
    (named : t.argumentMention? = some m) : t = m.argument := by
  cases t with
  | lifetime name =>
    cases named
    rfl
  | path isGlobal segments =>
    obtain ⟨name, single, rfl⟩ := Option.map_eq_some_iff.mp named
    unfold ident? at single
    split at single
    · rename_i same
      cases single
      cases same
      rfl
    · cases single
  | _ => cases named

theorem Tree.eq_map_argument {arguments : List Tree} {mentions : List Mention}
    (named : arguments.map argumentMention? = mentions.map some) :
    arguments = mentions.map Mention.argument := by
  induction arguments generalizing mentions with
  | nil =>
    rw [List.map_nil, eq_comm, List.map_eq_nil_iff] at named
    rw [named]
    rfl
  | cons argument rest ih =>
    cases mentions with
    | nil => cases named
    | cons m mentions =>
      rw [List.map_cons, List.map_cons, List.cons.injEq] at named
      rw [List.map_cons, argumentMention?_eq_some named.1, ih named.2]

theorem Tree.eq_of_argumentMentions {arguments? : Option (List Tree)} {mentions : List Mention}
    (named : arguments?.map (·.map argumentMention?) = some (mentions.map some)) :
    arguments? = some (mentions.map Mention.argument) := by
  obtain ⟨arguments, present, same⟩ := Option.map_eq_some_iff.mp named
  rw [present, eq_map_argument same]

namespace GenericNames

def position (names : GenericNames) : Mention → Option Nat
  | .value name => names.valuePosition name
  | .lifetime name => names.lifetimePosition name

def add (names : GenericNames) (position : Nat) : Mention → GenericNames
  | .value name => names.addValue name position
  | .lifetime name => names.addLifetime name position

def addAll (names : GenericNames) (position : Nat) : List Mention → GenericNames
  | [] => names
  | m :: rest => (names.add position m).addAll (position + 1) rest

def ofMentions (mentions : List Mention) : GenericNames :=
  none.addAll 0 mentions

theorem lookup_cons_eq (name other : String) (p : Nat) (entries : List (String × Nat)) :
    ((name, p) :: entries).lookup other =
      if other = name then some p else entries.lookup other := by
  by_cases same : other = name
  · simp [same]
  · simp [List.lookup_cons, beq_eq_false_iff_ne.mpr same, same]

theorem position_add (names : GenericNames) (p : Nat) (m other : Mention) :
    (names.add p m).position other = if other = m then some p else names.position other := by
  cases m <;> cases other <;>
    simp [add, position, addValue, addLifetime, valuePosition, lifetimePosition, lookup_cons_eq]

theorem position_none (m : Mention) : none.position m = Option.none := by
  cases m <;> rfl

theorem position_addAll {names : GenericNames} {start : Nat} {mentions : List Mention} {m : Mention}
    {p : Nat} (found : (names.addAll start mentions).position m = some p) :
    (∃ i, p = start + i ∧ mentions[i]? = some m) ∨ names.position m = some p := by
  induction mentions generalizing names start with
  | nil => exact .inr found
  | cons first rest ih =>
    rcases ih found with ⟨i, rfl, present⟩ | earlier
    · exact .inl ⟨i + 1, by omega, by simpa using present⟩
    · rw [position_add] at earlier
      split at earlier
      · rename_i same
        exact .inl ⟨0, by simpa using earlier.symm, by simp [same]⟩
      · exact .inr earlier

theorem isSome_position_addAll (names : GenericNames) (start : Nat) (mentions : List Mention)
    (m : Mention) :
    ((names.addAll start mentions).position m).isSome ↔
      m ∈ mentions ∨ (names.position m).isSome := by
  induction mentions generalizing names start with
  | nil => simp [addAll]
  | cons first rest ih =>
    rw [addAll, ih, position_add, List.mem_cons]
    by_cases same : m = first <;> simp [same]

theorem getElem?_of_position {mentions : List Mention} {m : Mention} {p : Nat}
    (found : (ofMentions mentions).position m = some p) : mentions[p]? = some m := by
  rcases position_addAll found with ⟨i, rfl, present⟩ | absent
  · simpa using present
  · rw [position_none] at absent
    cases absent

theorem isSome_position_ofMentions (mentions : List Mention) (m : Mention) :
    ((ofMentions mentions).position m).isSome ↔ m ∈ mentions := by
  rw [ofMentions, isSome_position_addAll, position_none]
  simp

/-- Where no name is repeated, a name has no position but its own. -/
theorem position_eq_some_iff {mentions : List Mention} (distinct : mentions.Nodup) (m : Mention)
    (p : Nat) : (ofMentions mentions).position m = some p ↔ mentions[p]? = some m := by
  constructor
  · exact getElem?_of_position
  · intro present
    have member : m ∈ mentions := List.mem_of_getElem? present
    obtain ⟨q, found⟩ := Option.isSome_iff_exists.mp
      ((isSome_position_ofMentions mentions m).mpr member)
    have same := getElem?_of_position found
    rw [found, (List.getElem?_inj (List.getElem?_eq_some_iff.mp same).1 distinct).mp
      (same.trans present.symm)]

theorem addDeclared_eq (names : GenericNames) (start : Nat) (params : List GenericParameter) :
    names.addDeclared start params = names.addAll start (params.map GenericParameter.mention) := by
  induction params generalizing names start with
  | nil => rfl
  | cons param rest ih => cases param <;> exact ih _ _

theorem declared_eq (generics : Generics) :
    declared generics = ofMentions (generics.params.map GenericParameter.mention) :=
  addDeclared_eq none 0 generics.params

theorem addArguments_cons (parameters names : GenericNames) (start : Nat) (argument : Tree)
    (rest : List Tree) :
    addArguments parameters names start (argument :: rest) =
      match argument.argumentMention? with
      | some m =>
        if (parameters.position m).isSome then
          addArguments parameters (names.add start m) (start + 1) rest
        else Option.none
      | Option.none => Option.none := by
  cases argument with
  | lifetime name => rfl
  | _ =>
    conv_lhs => unfold addArguments
    simp only [Tree.argumentMention?]
    cases Tree.ident? _ <;> rfl

theorem addArguments_eq_some_iff (parameters names result : GenericNames) (start : Nat)
    (arguments : List Tree) :
    addArguments parameters names start arguments = some result ↔
      ∃ mentions, arguments.map Tree.argumentMention? = mentions.map some ∧
        (∀ m ∈ mentions, (parameters.position m).isSome) ∧
          result = names.addAll start mentions := by
  induction arguments generalizing names start with
  | nil =>
    constructor
    · intro given
      exact ⟨[], rfl, by simp, (Option.some.inj given).symm⟩
    · rintro ⟨mentions, same, -, rfl⟩
      rw [List.map_nil, eq_comm, List.map_eq_nil_iff] at same
      rw [same]
      rfl
  | cons argument rest ih =>
    rw [addArguments_cons]
    constructor
    · intro given
      -- the argument is a name, and the block declares it
      split at given
      · rename_i m named
        split at given
        · rename_i known
          obtain ⟨mentions, same, all, rfl⟩ := (ih _ _).mp given
          refine ⟨m :: mentions, by rw [List.map_cons, named, same]; rfl, ?_, rfl⟩
          intro other member
          rcases List.mem_cons.mp member with rfl | member
          · exact known
          · exact all other member
        · cases given
      · cases given
    · rintro ⟨mentions, same, all, rfl⟩
      cases mentions with
      | nil => simp at same
      | cons m mentions =>
        rw [List.map_cons, List.map_cons, List.cons.injEq] at same
        rw [same.1]
        dsimp only
        rw [if_pos (all m List.mem_cons_self)]
        exact (ih _ _).mpr
          ⟨mentions, same.2, fun o member => all o (List.mem_cons_of_mem m member), rfl⟩

/-- A block gives names to the parameters of a struct when its self type has as many arguments as
the struct has parameters, each of them a parameter that the block declares. -/
theorem ofImpl?_eq_some_iff {block : Generics} {selfType : Tree} {arity : Nat}
    {names : GenericNames} :
    ofImpl? block selfType arity = some names ↔
      ∃ mentions : List Mention, selfType.lastArguments? = some (mentions.map Mention.argument) ∧
        mentions.length = arity ∧ (∀ m ∈ mentions, m ∈ block.params.map GenericParameter.mention) ∧
        names = ofMentions mentions := by
  have known (m : Mention) : ((declared block).position m).isSome ↔
      m ∈ block.params.map GenericParameter.mention := by
    rw [declared_eq, isSome_position_ofMentions]
  have last : selfType.lastSegment?.bind argumentsOf = selfType.lastArguments? := rfl
  unfold ofImpl?
  rw [last]
  constructor
  · intro given
    split at given
    · rename_i arguments present
      split at given
      · rename_i length
        obtain ⟨mentions, same, each, rfl⟩ := (addArguments_eq_some_iff _ _ _ _ _).mp given
        have named := Tree.eq_map_argument same
        refine ⟨mentions, by rw [present, named], ?_, fun m member => (known m).mp (each m member),
          rfl⟩
        rw [← length, named, List.length_map]
      · cases given
    · cases given
  · rintro ⟨mentions, present, length, each, rfl⟩
    rw [present]
    dsimp only
    rw [List.length_map, if_pos length]
    refine (addArguments_eq_some_iff _ _ _ _ _).mpr
      ⟨mentions, ?_, fun m member => (known m).mpr (each m member), rfl⟩
    rw [List.map_map]
    exact List.map_congr_left fun m _ => Tree.argumentMention?_argument m

/-- The names that a block uses are the arguments of its self type, and the block declares them. -/
theorem ofImpl?_eq_some {block : Generics} {selfType : Tree} {arity : Nat} {names : GenericNames}
    (given : ofImpl? block selfType arity = some names) :
    ∃ mentions, names = ofMentions mentions ∧ mentions.length = arity ∧
      ∀ m ∈ mentions, m ∈ block.params.map GenericParameter.mention := by
  obtain ⟨mentions, -, length, each, rfl⟩ := ofImpl?_eq_some_iff.mp given
  exact ⟨mentions, rfl, length, each⟩

/-- Names that only lead to the first so many positions. -/
def Within (names : GenericNames) (count : Nat) : Prop :=
  ∀ m position, names.position m = some position → position < count

theorem within_ofMentions (mentions : List Mention) :
    (ofMentions mentions).Within mentions.length :=
  fun _ _ found => (List.getElem?_eq_some_iff.mp (getElem?_of_position found)).1

theorem within_declared (generics : Generics) :
    (declared generics).Within generics.params.length := by
  have within := within_ofMentions (generics.params.map GenericParameter.mention)
  rwa [← declared_eq, List.length_map] at within

/-- As many arguments as the struct has parameters lead to no position beyond them. -/
theorem within_ofImpl? {block : Generics} {selfType : Tree} {arity : Nat} {names : GenericNames}
    (given : ofImpl? block selfType arity = some names) : names.Within arity := by
  obtain ⟨mentions, rfl, rfl, -⟩ := ofImpl?_eq_some given
  exact within_ofMentions mentions

end GenericNames

end Forwarding
