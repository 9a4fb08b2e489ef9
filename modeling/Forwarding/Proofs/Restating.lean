import Forwarding.Proofs.ParameterNames
/-!
Restating. Syntax that uses the names of an impl block is written in the names of the struct. Its
canonical form, read with the names of the struct, is the one that it has with the names of the
block as long as every name it mentions is kept. Names are kept when the struct and the block have
parameters of the same kinds and nothing else that is mentioned has the name of a parameter of the
struct.
-/

namespace Forwarding

/-- Syntax with the names that it uses for the parameters of a struct. -/
structure Scoped where
  names : GenericNames
  tree : Tree

namespace Tree

/-- The name that a type consists of, brackets aside. -/
def soleName? : Tree → Option String
  | path false [segment name []] => some name
  | group .parenthesis [inner] => inner.soleName?
  | _ => none

theorem soleName?_mapNames (f : Mention → String) (tree : Tree) :
    (tree.mapNames f).soleName? = tree.soleName?.map fun name => f (.value name) := by
  cases tree with
  | path isGlobal segments =>
    cases isGlobal with
    | true => rfl
    | false =>
      rcases segments with _ | ⟨first, _ | ⟨second, rest⟩⟩
      · rfl
      all_goals
        cases first with
        | segment name args => cases args <;> rfl
        | _ => rfl
  | group delimiter children =>
    rcases children with _ | ⟨inner, _ | ⟨second, rest⟩⟩
    · cases delimiter <;> rfl
    · cases delimiter with
      | parenthesis => exact soleName?_mapNames f inner
      | _ => rfl
    · cases delimiter <;> rfl
  | _ => rfl

theorem mention_of_soleName? {tree : Tree} {name : String} (sole : tree.soleName? = some name) :
    .value name ∈ tree.mentions := by
  fun_induction soleName? tree with
  | case1 => simp_all [mentions, headMentions]
  | case2 inner ih => simpa [mentions, mentionsOf] using ih sole
  | case3 => cases sole

end Tree

theorem GenericNames.positionOf_eq (names : GenericNames) (tree : Tree) :
    names.positionOf tree = tree.soleName?.bind names.valuePosition := by
  fun_induction Tree.soleName? tree with
  | case1 => rfl
  | case2 inner ih => exact ih
  | case3 => simp [positionOf]

namespace Mention

def isLifetime : Mention → Bool
  | value _ => false
  | lifetime _ => true

/-- What a mention becomes in the names of a struct. -/
def counterpart (names : GenericNames) (struct : Generics) (m : Mention) : Mention :=
  m.renamed ((Renaming.toDeclared struct).ofMention names)

/-- The counterpart of a mention stands for the same parameter as the mention, or for none if the
mention stands for none. -/
def Kept (names : GenericNames) (struct : Generics) (m : Mention) : Prop :=
  (GenericNames.declared struct).position (m.counterpart names struct) = names.position m

end Mention

theorem GenericParameter.isLifetime_mention (param : GenericParameter) :
    param.mention.isLifetime = param.isLifetime := by
  cases param <;> rfl

namespace Renaming

theorem ofMention_of_none {names : GenericNames} {m : Mention} (r : Renaming)
    (absent : names.position m = none) : r.ofMention names m = m.name := by
  cases m with
  | value name =>
    change names.valuePosition name = none at absent
    simp only [ofMention, ofValue, absent, Mention.name]
  | lifetime name =>
    change names.lifetimePosition name = none at absent
    simp only [ofMention, ofLifetime, absent, Mention.name]

theorem positional_of_some {names : GenericNames} {m : Mention} {p : Nat}
    (found : names.position m = some p) :
    positional.ofMention names m =
      if m.isLifetime then positional.lifetime p else positional.value p := by
  cases m with
  | value name =>
    change names.valuePosition name = some p at found
    simp only [ofMention, ofValue, found, Mention.isLifetime, Bool.false_eq_true, if_false]
  | lifetime name =>
    change names.lifetimePosition name = some p at found
    simp only [ofMention, ofLifetime, found, Mention.isLifetime, if_true]

end Renaming

namespace Mention

variable {names : GenericNames} {struct : Generics} {m : Mention}

theorem isLifetime_renamed (f : Mention → String) (m : Mention) :
    (m.renamed f).isLifetime = m.isLifetime := by
  cases m <;> rfl

theorem counterpart_of_none (absent : names.position m = none) :
    m.counterpart names struct = m := by
  unfold counterpart
  have same := Renaming.ofMention_of_none (Renaming.toDeclared struct) absent
  cases m <;> simp only [renamed, same] <;> rfl

theorem counterpart_of_some {p : Nat} {param : GenericParameter}
    (found : names.position m = some p) (present : struct.params[p]? = some param)
    (kind : param.mention.isLifetime = m.isLifetime) :
    m.counterpart names struct = param.mention := by
  cases m with
  | value name =>
    change names.valuePosition name = some p at found
    cases param with
    | lifetime => cases kind
    | _ =>
      simp only [counterpart, renamed, Renaming.ofMention, Renaming.ofValue, found,
        Renaming.toDeclared, present, GenericParameter.mention]
  | lifetime name =>
    change names.lifetimePosition name = some p at found
    cases param with
    | lifetime =>
      simp only [counterpart, renamed, Renaming.ofMention, Renaming.ofLifetime, found,
        Renaming.toDeclared, present, GenericParameter.mention]
    | _ => cases kind

theorem exists_param {p : Nat} (found : (GenericNames.declared struct).position m = some p) :
    ∃ param, struct.params[p]? = some param ∧ param.mention = m := by
  rw [GenericNames.declared_eq] at found
  have present := GenericNames.getElem?_of_position found
  rw [List.getElem?_map] at present
  exact Option.map_eq_some_iff.mp present

theorem counterpart_declared (struct : Generics) (m : Mention) :
    m.counterpart (GenericNames.declared struct) struct = m := by
  cases found : (GenericNames.declared struct).position m with
  | none => exact counterpart_of_none found
  | some p =>
    obtain ⟨param, present, same⟩ := exists_param found
    rw [counterpart_of_some found present (by rw [same]), same]

theorem kept_declared (m : Mention) : m.Kept (GenericNames.declared struct) struct := by
  rw [Kept, counterpart_declared]

theorem Kept.positional (kept : m.Kept names struct) :
    Renaming.positional.ofMention (GenericNames.declared struct) (m.counterpart names struct) =
      Renaming.positional.ofMention names m := by
  cases found : names.position m with
  | none =>
    -- the struct has no parameter of this name either, so that both renamings leave it
    have absent := Eq.trans kept found
    rw [counterpart_of_none found] at absent ⊢
    rw [Renaming.ofMention_of_none _ absent, Renaming.ofMention_of_none _ found]
  | some p =>
    have kind : (m.counterpart names struct).isLifetime = m.isLifetime := isLifetime_renamed _ m
    rw [Renaming.positional_of_some (Eq.trans kept found), Renaming.positional_of_some found, kind]

end Mention

namespace GenericNames

/-- The names of a block lead to parameters of the struct of the same kinds, and no two parameters
of the struct have one name. -/
structure Aligned (names : GenericNames) (struct : Generics) : Prop where
  distinct : (struct.params.map GenericParameter.mention).Nodup
  values : ∀ entry ∈ names.values, (struct.params[entry.2]?).any (!·.isLifetime) = true
  lifetimes : ∀ entry ∈ names.lifetimes, (struct.params[entry.2]?).any (·.isLifetime) = true

instance (names : GenericNames) (struct : Generics) : Decidable (names.Aligned struct) :=
  decidable_of_iff
    ((struct.params.map GenericParameter.mention).Nodup ∧
      (∀ entry ∈ names.values, (struct.params[entry.2]?).any (!·.isLifetime) = true) ∧
      ∀ entry ∈ names.lifetimes, (struct.params[entry.2]?).any (·.isLifetime) = true)
    ⟨fun h => ⟨h.1, h.2.1, h.2.2⟩, fun h => ⟨h.distinct, h.values, h.lifetimes⟩⟩

variable {names : GenericNames} {struct : Generics} {m : Mention}

theorem Aligned.exists_param (aligned : names.Aligned struct) {p : Nat}
    (found : names.position m = some p) :
    ∃ param, struct.params[p]? = some param ∧ param.mention.isLifetime = m.isLifetime := by
  cases m with
  | value name =>
    obtain ⟨before, after, entries, -⟩ := List.lookup_eq_some_iff.mp found
    have suits := aligned.values (name, p) (by rw [entries]; simp)
    obtain ⟨param, present, kind⟩ := (Option.any_eq_true _ _).mp suits
    refine ⟨param, present, ?_⟩
    rw [Bool.not_eq_true'] at kind
    exact (GenericParameter.isLifetime_mention param).trans kind
  | lifetime name =>
    obtain ⟨before, after, entries, -⟩ := List.lookup_eq_some_iff.mp found
    have suits := aligned.lifetimes (name, p) (by rw [entries]; simp)
    obtain ⟨param, present, kind⟩ := (Option.any_eq_true _ _).mp suits
    exact ⟨param, present, (GenericParameter.isLifetime_mention param).trans kind⟩

/-- A name is kept unless it stands for no parameter and has the name of a parameter of the
struct. -/
theorem Aligned.kept_iff (aligned : names.Aligned struct) (m : Mention) :
    m.Kept names struct ↔
      (names.position m = Option.none → (declared struct).position m = Option.none) := by
  unfold Mention.Kept
  cases found : names.position m with
  | none => simp [Mention.counterpart_of_none found]
  -- the parameter of the struct at `p` has a name of its own, and this name leads to `p`
  | some p =>
    obtain ⟨param, present, kind⟩ := aligned.exists_param found
    rw [Mention.counterpart_of_some found present kind, declared_eq,
      position_eq_some_iff aligned.distinct, List.getElem?_map, present]
    simp

end GenericNames

namespace Scoped

def restate (s : Scoped) (struct : Generics) : Tree :=
  (Renaming.toDeclared struct).apply s.names s.tree

def canonical (s : Scoped) : String :=
  s.tree.canonical s.names

/-- Every name that is mentioned is kept. -/
def Kept (s : Scoped) (struct : Generics) : Prop :=
  ∀ m ∈ s.tree.mentions, m.Kept s.names struct

variable {s : Scoped} {struct : Generics}

theorem restate_declared (struct : Generics) (tree : Tree) :
    (Scoped.mk (GenericNames.declared struct) tree).restate struct = tree := by
  have own : ∀ m ∈ tree.mentions,
      (Renaming.toDeclared struct).ofMention (GenericNames.declared struct) m = m.name := by
    intro m _
    have same := Mention.counterpart_declared struct m
    cases m <;> simpa [Mention.counterpart, Mention.renamed, Mention.name] using same
  rw [restate, Renaming.apply_eq_mapNames, (Tree.mapNames_eq_iff _ _ tree).mpr own,
    Tree.mapNames_name]

theorem kept_declared (struct : Generics) (tree : Tree) :
    (Scoped.mk (GenericNames.declared struct) tree).Kept struct :=
  fun m _ => Mention.kept_declared m

/-- Read with the names of the struct, restated syntax has the canonical form that it had. -/
theorem canonical_restate (kept : s.Kept struct) :
    (s.restate struct).canonical (GenericNames.declared struct) = s.canonical := by
  unfold canonical restate Tree.canonical
  rw [Renaming.apply_eq_mapNames, Renaming.apply_eq_mapNames, Renaming.apply_eq_mapNames,
    Tree.mapNames_mapNames]
  refine congrArg Tree.render ((Tree.mapNames_eq_iff _ _ s.tree).mpr ?_)
  intro m member
  exact (kept m member).positional

/-- A type that consists of a parameter consists of the same one when it is restated, and a type
that does not consist of one still does not. -/
theorem positionOf_restate (kept : s.Kept struct) :
    (GenericNames.declared struct).positionOf (s.restate struct) = s.names.positionOf s.tree := by
  rw [restate, Renaming.apply_eq_mapNames, GenericNames.positionOf_eq, GenericNames.positionOf_eq,
    Tree.soleName?_mapNames]
  cases sole : s.tree.soleName? with
  | none => rfl
  | some name => exact kept (.value name) (Tree.mention_of_soleName? sole)

end Scoped

end Forwarding
