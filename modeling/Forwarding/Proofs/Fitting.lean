import Forwarding.Proofs.Winners
/-!
Fitting. A definition fits another one when their constructors and their generic parameters
correspond one by one. Otherwise the first thing that does not correspond is reported: the number of
parameters, a parameter, the number of generic parameters, or one of these. A group resolves unless
a definition does not fit the winner, and the greatest such definition is the one that is reported.
-/

namespace Forwarding

section Pairs

variable {α : Type} {holds : α → α → Prop} {ws ms : List α}

/-- All entries of two lists at the same index are related. -/
def AllPairs (holds : α → α → Prop) (ws ms : List α) : Prop :=
  ∀ (index : Nat) (w m : α), ws[index]? = some w → ms[index]? = some m → holds w m

/-- The first entries of two lists at the same index that are not related. -/
structure FirstApart (holds : α → α → Prop) (ws ms : List α) (index : Nat) (w m : α) : Prop where
  left : ws[index]? = some w
  right : ms[index]? = some m
  apart : ¬ holds w m
  before : ∀ i < index, ∀ v n, ws[i]? = some v → ms[i]? = some n → holds v n

theorem allPairs_cons {w m : α} :
    AllPairs holds (w :: ws) (m :: ms) ↔ holds w m ∧ AllPairs holds ws ms := by
  constructor
  · intro all
    exact ⟨all 0 w m rfl rfl, fun index v n left right => all (index + 1) v n left right⟩
  · rintro ⟨first, others⟩ index v n left right
    cases index with
    | zero =>
      cases left
      cases right
      exact first
    | succ index => exact others index v n left right

theorem firstApart_succ {w m v n : α} {index : Nat} :
    FirstApart holds (w :: ws) (m :: ms) (index + 1) v n ↔
      holds w m ∧ FirstApart holds ws ms index v n := by
  constructor
  · rintro ⟨left, right, apart, before⟩
    exact ⟨before 0 (Nat.zero_lt_succ _) w m rfl rfl, left, right, apart,
      fun i less => before (i + 1) (Nat.succ_lt_succ less)⟩
  · rintro ⟨first, left, right, apart, before⟩
    refine ⟨left, right, apart, fun i less v n here there => ?_⟩
    cases i with
    | zero =>
      cases here
      cases there
      exact first
    | succ i => exact before i (Nat.lt_of_succ_lt_succ less) v n here there

variable [DecidableRel holds] {report : Nat → α → α → Mismatch}

/-- The report on the first entries from an index on that are not related. -/
def firstApart? (holds : α → α → Prop) [DecidableRel holds] (report : Nat → α → α → Mismatch)
    (index : Nat) : List α → List α → Option Mismatch
  | w :: ws, m :: ms =>
    if holds w m then firstApart? holds report (index + 1) ws ms else some (report index w m)
  | _, _ => none

theorem firstApart?_eq_none_iff {index : Nat} :
    firstApart? holds report index ws ms = none ↔ AllPairs holds ws ms := by
  induction ws generalizing index ms with
  | nil => simp [firstApart?, AllPairs]
  | cons w ws ih =>
    cases ms with
    | nil => simp [firstApart?, AllPairs]
    | cons m ms =>
      rw [firstApart?, allPairs_cons]
      split
      · rename_i related
        rw [ih, and_iff_right related]
      · rename_i apart
        simp [apart]

theorem firstApart?_eq_some_iff {start : Nat} {mismatch : Mismatch} :
    firstApart? holds report start ws ms = some mismatch ↔
      ∃ index w m, FirstApart holds ws ms index w m ∧ mismatch = report (start + index) w m := by
  induction ws generalizing start ms with
  | nil =>
    refine ⟨fun found => (nomatch found), ?_⟩
    rintro ⟨_, _, _, first, -⟩
    cases first.left
  | cons w ws ih =>
    cases ms with
    | nil =>
      refine ⟨fun found => (nomatch found), ?_⟩
      rintro ⟨_, _, _, first, -⟩
      cases first.right
    | cons m ms =>
      rw [firstApart?]
      split
      · rename_i related
        rw [ih]
        constructor
        · rintro ⟨index, v, n, first, rfl⟩
          exact ⟨index + 1, v, n, firstApart_succ.mpr ⟨related, first⟩, by congr 1; omega⟩
        · rintro ⟨index, v, n, first, rfl⟩
          cases index with
          | zero =>
            cases first.left
            cases first.right
            exact absurd related first.apart
          | succ index =>
            exact ⟨index, v, n, (firstApart_succ.mp first).2, by congr 1; omega⟩
      · rename_i apart
        constructor
        · intro found
          cases found
          exact ⟨0, w, m, ⟨rfl, rfl, apart, fun i less => absurd less (Nat.not_lt_zero i)⟩, rfl⟩
        · rintro ⟨index, v, n, first, rfl⟩
          cases index with
          | zero =>
            cases first.left
            cases first.right
            rfl
          | succ index => exact absurd (firstApart_succ.mp first).1 apart

end Pairs

namespace Definition

/-- A parameter of `member` is of the type of a parameter of `winner`: both are the same type in
canonical form, or both are the generic parameter at one position, which `winner` admits. -/
inductive Assignable (winner member : Definition) : ParamShape → ParamShape → Prop where
  | concrete (type type' canonical : String) :
    Assignable winner member (.concrete type canonical) (.concrete type' canonical)
  | generic {position : Nat} {w m : GenericParam} (type type' : String)
    (declared : winner.generics[position]? = some w)
    (declared' : member.generics[position]? = some m) (admitted : w.admits m = true) :
    Assignable winner member (.generic position type) (.generic position type')

variable {winner member : Definition}

theorem assigns_iff {a b : ParamShape} :
    winner.assigns member a b = true ↔ Assignable winner member a b := by
  constructor
  · intro assigned
    cases a with
    | concrete type canonical =>
      cases b with
      | concrete type' canonical' =>
        obtain rfl := beq_iff_eq.mp assigned
        exact .concrete type type' canonical
      | generic => cases assigned
    | generic i type =>
      cases b with
      | concrete => cases assigned
      | generic j type' =>
        obtain ⟨same, admitted⟩ := (Bool.and_eq_true _ _).mp assigned
        obtain rfl := beq_iff_eq.mp same
        split at admitted
        · rename_i w m declared declared'
          exact .generic type type' declared declared' admitted
        · cases admitted
  · rintro (⟨type, type', canonical⟩ | ⟨type, type', declared, declared', admitted⟩)
    · exact beq_self_eq_true canonical
    · simp only [assigns, beq_self_eq_true, declared, declared', admitted, Bool.and_self]

instance (a b : ParamShape) : Decidable (Assignable winner member a b) :=
  decidable_of_iff _ assigns_iff

/-- Two parameters of constructors correspond. -/
def ParamsFit (winner member : Definition) (w m : ConstructorParam) : Prop :=
  Assignable winner member w.shape m.shape

instance (winner member : Definition) : DecidableRel (ParamsFit winner member) :=
  fun w m => inferInstanceAs (Decidable (Assignable winner member w.shape m.shape))

/-- A definition can be used with the signature of another one. -/
structure Compatible (winner member : Definition) : Prop where
  arity : winner.params.length = member.params.length
  params : AllPairs (ParamsFit winner member) winner.params member.params
  genericArity : winner.generics.length = member.generics.length
  generics : AllPairs (fun w m => w.admits m = true) winner.generics member.generics

/-- The first way in which a definition cannot be used with the signature of another one. -/
inductive Diverges (winner member : Definition) : Mismatch → Prop where
  | parameterCount (different : winner.params.length ≠ member.params.length) :
    Diverges winner member (.parameterCount winner.params.length member.params.length)
  | parameter {index : Nat} {w m : ConstructorParam}
    (arity : winner.params.length = member.params.length)
    (first : FirstApart (ParamsFit winner member) winner.params member.params index w m) :
    Diverges winner member
      (.parameter index (winner.describe w.shape) (member.describe m.shape))
  | genericCount (arity : winner.params.length = member.params.length)
    (params : AllPairs (ParamsFit winner member) winner.params member.params)
    (different : winner.generics.length ≠ member.generics.length) :
    Diverges winner member (.genericCount winner.generics.length member.generics.length)
  | genericParameter {index : Nat} {w m : GenericParam}
    (arity : winner.params.length = member.params.length)
    (params : AllPairs (ParamsFit winner member) winner.params member.params)
    (genericArity : winner.generics.length = member.generics.length)
    (first : FirstApart (fun w m => w.admits m = true) winner.generics member.generics index w m) :
    Diverges winner member (.genericParameter index w.declaration m.declaration)

theorem paramMismatch?_eq (start : Nat) (ws ms : List ConstructorParam) :
    paramMismatch? winner member start ws ms =
      firstApart? (ParamsFit winner member)
        (fun index w m => .parameter index (winner.describe w.shape) (member.describe m.shape))
        start ws ms := by
  induction ws generalizing start ms with
  | nil => rfl
  | cons w ws ih =>
    cases ms with
    | nil => rfl
    | cons m ms =>
      rw [paramMismatch?, firstApart?, ih]
      exact if_congr assigns_iff rfl rfl

theorem genericMismatch?_eq (start : Nat) (ws ms : List GenericParam) :
    genericMismatch? start ws ms =
      firstApart? (fun w m => w.admits m = true)
        (fun index w m => .genericParameter index w.declaration m.declaration) start ws ms := by
  induction ws generalizing start ms with
  | nil => rfl
  | cons w ws ih =>
    cases ms with
    | nil => rfl
    | cons m ms => rw [genericMismatch?, firstApart?, ih]

theorem mismatch?_eq :
    winner.mismatch? member =
      if winner.params.length ≠ member.params.length then
        some (.parameterCount winner.params.length member.params.length)
      else
        match paramMismatch? winner member 0 winner.params member.params with
        | some mismatch => some mismatch
        | none =>
          if winner.generics.length ≠ member.generics.length then
            some (.genericCount winner.generics.length member.generics.length)
          else genericMismatch? 0 winner.generics member.generics :=
  rfl

theorem paramMismatch?_eq_none_iff :
    paramMismatch? winner member 0 winner.params member.params = none ↔
      AllPairs (ParamsFit winner member) winner.params member.params := by
  rw [paramMismatch?_eq, firstApart?_eq_none_iff]

theorem paramMismatch?_eq_some_iff {mismatch : Mismatch} :
    paramMismatch? winner member 0 winner.params member.params = some mismatch ↔
      ∃ index w m, FirstApart (ParamsFit winner member) winner.params member.params index w m ∧
        mismatch = .parameter index (winner.describe w.shape) (member.describe m.shape) := by
  rw [paramMismatch?_eq, firstApart?_eq_some_iff]
  simp only [Nat.zero_add]

theorem genericMismatch?_eq_none_iff :
    genericMismatch? 0 winner.generics member.generics = none ↔
      AllPairs (fun w m => w.admits m = true) winner.generics member.generics := by
  rw [genericMismatch?_eq, firstApart?_eq_none_iff]

theorem genericMismatch?_eq_some_iff {mismatch : Mismatch} :
    genericMismatch? 0 winner.generics member.generics = some mismatch ↔
      ∃ index w m,
        FirstApart (fun w m => w.admits m = true) winner.generics member.generics index w m ∧
          mismatch = .genericParameter index w.declaration m.declaration := by
  rw [genericMismatch?_eq, firstApart?_eq_some_iff]
  simp only [Nat.zero_add]

theorem mismatch?_eq_none_iff : winner.mismatch? member = none ↔ winner.Compatible member := by
  rw [mismatch?_eq]
  constructor
  · intro none
    split at none
    · cases none
    rename_i arity
    split at none
    · cases none
    rename_i params
    split at none
    · cases none
    rename_i genericArity
    exact ⟨Decidable.of_not_not arity, paramMismatch?_eq_none_iff.mp params,
      Decidable.of_not_not genericArity, genericMismatch?_eq_none_iff.mp none⟩
  · rintro ⟨arity, params, genericArity, generics⟩
    rw [if_neg (not_not_intro arity), paramMismatch?_eq_none_iff.mpr params]
    dsimp only
    rw [if_neg (not_not_intro genericArity), genericMismatch?_eq_none_iff.mpr generics]

theorem Diverges.mismatch?_eq {mismatch : Mismatch} (diverges : winner.Diverges member mismatch) :
    winner.mismatch? member = some mismatch := by
  rw [Definition.mismatch?_eq]
  cases diverges with
  | parameterCount different => rw [if_pos different]
  | @parameter index w m arity first =>
    rw [if_neg (not_not_intro arity),
      paramMismatch?_eq_some_iff.mpr ⟨index, w, m, first, rfl⟩]
  | genericCount arity params different =>
    rw [if_neg (not_not_intro arity), paramMismatch?_eq_none_iff.mpr params]
    dsimp only
    rw [if_pos different]
  | @genericParameter index w m arity params genericArity first =>
    rw [if_neg (not_not_intro arity), paramMismatch?_eq_none_iff.mpr params]
    dsimp only
    rw [if_neg (not_not_intro genericArity),
      genericMismatch?_eq_some_iff.mpr ⟨index, w, m, first, rfl⟩]

theorem mismatch?_eq_some_iff {mismatch : Mismatch} :
    winner.mismatch? member = some mismatch ↔ winner.Diverges member mismatch := by
  refine ⟨fun found => ?_, Diverges.mismatch?_eq⟩
  rw [mismatch?_eq] at found
  split at found
  · rename_i different
    cases found
    exact .parameterCount different
  rename_i arity
  have arity := Decidable.of_not_not arity
  split at found
  · rename_i reported
    obtain ⟨index, w, m, first, rfl⟩ := paramMismatch?_eq_some_iff.mp reported
    cases found
    exact .parameter arity first
  rename_i params
  have params := paramMismatch?_eq_none_iff.mp params
  split at found
  · rename_i different
    cases found
    exact .genericCount arity params different
  · rename_i genericArity
    obtain ⟨index, w, m, first, rfl⟩ := genericMismatch?_eq_some_iff.mp found
    exact .genericParameter arity params (Decidable.of_not_not genericArity) first

end Definition

namespace Resolution

theorem ofGroup_eq_error_iff (g : Group) (failure : Failure) :
    ofGroup g = .error failure ↔ (rank g).misfit? = some failure := by
  unfold ofGroup
  cases (rank g).misfit? <;> simp

/-- The definition that is reported is the greatest one that does not fit the winner. -/
theorem misfit?_eq_some_iff {g : Group} (distinct : g.Distinct) {failure : Failure} :
    (rank g).misfit? = some failure ↔
      ∃ member ∈ (rank g).others, ∃ mismatch, (rank g).winner.Diverges member mismatch ∧
        (∀ d ∈ (rank g).others, member.priority < d.priority → (rank g).winner.Compatible d) ∧
          failure =
            .signatureMismatch g.name (rank g).winner.location member.location mismatch := by
  have descends := (List.pairwise_cons.mp (chain_rank_descends distinct)).2
  rw [misfit?, List.findSome?_eq_some_iff]
  constructor
  · rintro ⟨before, member, after, split, found, fit⟩
    obtain ⟨mismatch, given, rfl⟩ := Option.map_eq_some_iff.mp found
    refine ⟨member, by rw [split]; simp, mismatch, Definition.mismatch?_eq_some_iff.mp given,
      fun d inside above => ?_, rfl⟩
    rw [split] at inside descends
    rcases List.mem_append.mp inside with earlier | later
    · exact Definition.mismatch?_eq_none_iff.mp (Option.map_eq_none_iff.mp (fit d earlier))
    · rcases List.mem_cons.mp later with rfl | later
      · exact absurd above Int64.lt_irrefl
      · have below := (List.pairwise_cons.mp (List.pairwise_append.mp descends).2.1).1 d later
        exact absurd (Int64.lt_trans above below) Int64.lt_irrefl
  · rintro ⟨member, inside, mismatch, diverges, fit, rfl⟩
    obtain ⟨before, after, split⟩ := List.append_of_mem inside
    refine ⟨before, member, after, split, ?_, fun d earlier => ?_⟩
    · rw [diverges.mismatch?_eq]
      rfl
    · rw [split] at descends fit
      have above := (List.pairwise_append.mp descends).2.2 d earlier member List.mem_cons_self
      have compatible := fit d (List.mem_append_left _ earlier) above
      rw [Definition.mismatch?_eq_none_iff.mpr compatible]
      rfl

/-- Two definitions fit when everything corresponds, and otherwise the first thing that does not is
reported. A group of different priorities does not resolve exactly if a definition does not fit the
winner, and the greatest such definition is reported, after the winner, with what does not fit
first. -/
theorem ofGroup_cites {g : Group} (distinct : g.Distinct) :
    (∀ winner member : Definition,
      (winner.mismatch? member = none ↔ winner.Compatible member) ∧
        ∀ mismatch,
          winner.mismatch? member = some mismatch ↔ winner.Diverges member mismatch) ∧
      ∃ winner ∈ g.members,
        (∀ d ∈ g.members, d ≠ winner → d.priority < winner.priority) ∧
        ((∃ failure, ofGroup g = .error failure) ↔
          ∃ member ∈ g.members, member ≠ winner ∧ ¬ winner.Compatible member) ∧
        ∀ failure, ofGroup g = .error failure ↔
          ∃ member ∈ g.members, member ≠ winner ∧ ∃ mismatch,
            winner.Diverges member mismatch ∧
              (∀ d ∈ g.members, d ≠ winner → member.priority < d.priority →
                winner.Compatible d) ∧
              failure = .signatureMismatch g.name winner.location member.location mismatch := by
  refine ⟨fun winner member => ⟨Definition.mismatch?_eq_none_iff,
    fun _ => Definition.mismatch?_eq_some_iff⟩, (rank g).winner, winner_mem g,
    fun d inside different => winner_above distinct inside different, ?_, fun failure => ?_⟩
  · have misfits : (∃ failure, ofGroup g = .error failure) ↔ ¬ (rank g).Fits := by
      simp only [ofGroup_eq_error_iff, ← misfit?_eq_none_iff, ← Option.ne_none_iff_exists', Ne]
    rw [misfits, Fits]
    simp only [Definition.mismatch?_eq_none_iff, mem_others_iff distinct, not_forall, exists_prop,
      and_assoc]
  · rw [ofGroup_eq_error_iff, misfit?_eq_some_iff distinct]
    simp only [mem_others_iff distinct, and_assoc, and_imp]

/-- A definition whose constructor takes parameters of some types. -/
def ofTypes (priority : Priority) (line : Nat) (types : List String) : Definition where
  name := "G"
  priority
  typePath := "crate::H"
  constructor := "new"
  params := types.map fun type => ⟨"a", .concrete type type⟩
  generics := []
  predicates := []
  properties := []
  location := ⟨"src/lib.rs", line, 1⟩

/-- A group in which neither of the lower definitions fits the winner. -/
def unfitting : Group :=
  ⟨"G", ofTypes 1 4 ["u8"], [ofTypes 2 8 ["u8", "u16"], ofTypes 3 6 ["u8", "u32"]]⟩

theorem ofGroup_cites_unfitting :
    unfitting.Distinct ∧ ∃ winner ∈ unfitting.members,
      (∀ d ∈ unfitting.members, d ≠ winner → d.priority < winner.priority) ∧
        ∃ member ∈ unfitting.members, member ≠ winner ∧ ∃ mismatch,
          winner.Diverges member mismatch ∧
            (∀ d ∈ unfitting.members, d ≠ winner → member.priority < d.priority →
              winner.Compatible d) ∧
            Failure.signatureMismatch "G" ⟨"src/lib.rs", 6, 1⟩ ⟨"src/lib.rs", 8, 1⟩
                (.parameter 1 "u32" "u16") =
              .signatureMismatch "G" winner.location member.location mismatch := by
  have distinct : unfitting.Distinct := by
    unfold Group.Distinct
    decide
  have fails : ofGroup unfitting = .error (.signatureMismatch "G" ⟨"src/lib.rs", 6, 1⟩
      ⟨"src/lib.rs", 8, 1⟩ (.parameter 1 "u32" "u16")) := by
    decide +kernel
  obtain ⟨-, winner, inside, greatest, -, cites⟩ := ofGroup_cites distinct
  exact ⟨distinct, winner, inside, greatest, (cites _).mp fails⟩

end Resolution

end Forwarding
