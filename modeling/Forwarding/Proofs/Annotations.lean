import Forwarding.Proofs.Arguments
import Forwarding.Proofs.Declared
import Forwarding.Proofs.Traversal
import Mathlib.Data.List.Chain
import Mathlib.Data.List.Perm.Basic
/-!
Annotations. What written arguments say together is the annotation that is read of them: exactly one
name, which is that of a type, and at most one priority. Their order does not matter.
-/

namespace Forwarding

namespace Annotation

open Grammar Grammar.Parser

variable {i j : Input} {args : List Argument} {saids : List Said} {pieces : List (List Lexeme)}

namespace Argument

/-- The name that an argument gives, with its place. -/
def name? : Argument → Option (String × Position)
  | name value start => some (value, start)
  | priority _ => none

def priority? : Argument → Option Priority
  | name _ _ => none
  | priority value => some value

end Argument

namespace Said

def name? : Said → Option String
  | name text => some text
  | priority _ _ => none

def priority? : Said → Option (Nat × Nat)
  | name _ => none
  | priority signs magnitude => some (signs, magnitude)

end Said

/-- At most one name and at most one priority are collected. -/
theorem reads_collect {name name' : Option (String × Position)} {priority priority' : Option Priority} :
    Reads (collect name priority args) i (name', priority') j ↔
      j = i ∧ name.toList ++ args.filterMap Argument.name? = name'.toList ∧
        priority.toList ++ args.filterMap Argument.priority? = priority'.toList := by
  induction args generalizing name priority with
  | nil =>
    rw [collect, reads_pure, Prod.mk.injEq, List.filterMap_nil, List.append_nil, List.filterMap_nil,
      List.append_nil]
    cases name <;> cases name' <;> cases priority <;> cases priority' <;> simp [eq_comm]
  | cons first rest ih =>
    cases first with
    | name value start =>
      simp only [collect, List.filterMap_cons, Argument.name?, Argument.priority?]
      cases name with
      | none => exact ih
      | some given =>
        have tooMany : given :: (value, start) :: rest.filterMap Argument.name? ≠ name'.toList := by
          cases name' <;> simp
        simp [tooMany]
    | priority value =>
      simp only [collect, List.filterMap_cons, Argument.name?, Argument.priority?]
      cases priority with
      | none => exact ih
      | some given =>
        have tooMany : given :: value :: rest.filterMap Argument.priority? ≠ priority'.toList := by
          cases priority' <;> simp
        simp [tooMany]

theorem names_of_records (records : List.Forall₂ Said.Records saids args) :
    (args.filterMap Argument.name?).map Prod.fst = saids.filterMap Said.name? := by
  induction records with
  | nil => rfl
  | cons first _ ih =>
    cases first with
    | name text start =>
      simp only [List.filterMap_cons, Argument.name?, Said.name?, List.map_cons, ih]
    | priority signed => exact ih

theorem priorities_of_records (records : List.Forall₂ Said.Records saids args) :
    List.Forall₂ (fun said value => Signed said.1 said.2 value)
      (saids.filterMap Said.priority?) (args.filterMap Argument.priority?) := by
  induction records with
  | nil => exact .nil
  | cons first _ ih =>
    cases first with
    | name text start => exact ih
    | priority signed => exact .cons signed ih

/-- Whether a text is that of one identifier, no keyword, with nothing but blanks and comments around
it. -/
def IsTypeName (text : String) : Prop :=
  ∃ name place, Lexer.lex text.toList = .ok [.leaf (.ident name) place] ∧ isIdentifier name = true

theorem isIdentifierText_iff {text : String} : isIdentifierText text = true ↔ IsTypeName text := by
  unfold isIdentifierText IsTypeName
  constructor
  · intro holds
    split at holds
    · rename_i name parsed
      obtain ⟨allowed, place, lexed⟩ := parseText_identifier_eq_ok_iff.mp parsed
      exact ⟨name, place, lexed, allowed⟩
    · cases holds
  · rintro ⟨name, place, lexed, allowed⟩
    rw [parseText_identifier_eq_ok_iff.mpr ⟨allowed, place, lexed⟩]

/-- The annotation that pieces give together: exactly one name, which names a type, and at most one
priority. -/
structure Gives (signed : Nat → Nat → Priority → Prop) (saids : List Said) (a : Annotation) :
    Prop where
  name : saids.filterMap Said.name? = [a.name]
  type : IsTypeName a.name
  priority : (saids.filterMap Said.priority? = [] ∧ a.priority = 0) ∨
    ∃ signs magnitude, saids.filterMap Said.priority? = [(signs, magnitude)] ∧
      signed signs magnitude a.priority

variable {a : Annotation} {lexemes : List Lexeme} {stop : Position}

theorem reads_arguments : Reads arguments i a j ↔ ∃ args trailing start priority,
    Reads (punctuatedUpTo "," atEnd argument (i.rest.length + 1)) i (args, trailing) j ∧
      args.filterMap Argument.name? = [(a.name, start)] ∧ IsTypeName a.name ∧
      args.filterMap Argument.priority? = Option.toList priority ∧
      a.priority = priority.getD 0 := by
  simp only [arguments, punctuated, reads_bind, reads_get]
  constructor
  · rintro ⟨⟨args, trailing⟩, k, ⟨_, _, ⟨rfl, rfl⟩, list⟩, ⟨name, priority⟩, l, collected, ran⟩
    obtain ⟨rfl, named, listed⟩ := reads_collect.mp collected
    cases name with
    | none => exact absurd ran reads_fail
    | some given =>
      dsimp only at ran
      rcases reads_ite.mp ran with ⟨type, ran⟩ | ⟨-, failed⟩
      · obtain ⟨rfl, rfl⟩ := reads_pure.mp ran
        exact ⟨args, trailing, given.2, priority, list, named, isIdentifierText_iff.mp type, listed,
          rfl⟩
      · exact absurd failed reads_failAt
  · rintro ⟨args, trailing, start, priority, list, named, type, listed, value⟩
    refine ⟨_, _, ⟨_, _, ⟨rfl, rfl⟩, list⟩, (some (_, start), priority), _,
      reads_collect.mpr ⟨rfl, named, listed⟩, ?_⟩
    refine reads_ite.mpr (.inl ⟨isIdentifierText_iff.mpr type, reads_pure.mpr ⟨rfl, ?_⟩⟩)
    rw [← value]

theorem gives_of_records {start : Position} {priority : Option Priority}
    (records : List.Forall₂ Said.Records saids args) (type : IsTypeName a.name)
    (named : args.filterMap Argument.name? = [(a.name, start)])
    (listed : args.filterMap Argument.priority? = priority.toList)
    (value : a.priority = priority.getD 0) : Gives Signed saids a := by
  have signed := priorities_of_records records
  refine ⟨by rw [← names_of_records records, named]; rfl, type, ?_⟩
  rw [listed] at signed
  rw [value]
  cases priority with
  | none => exact .inl ⟨List.forall₂_nil_right_iff.mp signed, rfl⟩
  | some value =>
    obtain ⟨⟨signs, magnitude⟩, _, first, rest, same⟩ := List.forall₂_cons_right_iff.mp signed
    cases rest
    exact .inr ⟨signs, magnitude, same, first⟩

/-- Arguments that record what gives an annotation hold its name and its priority. -/
theorem Gives.exists_collected (gives : Gives Signed saids a)
    (records : List.Forall₂ Said.Records saids args) : ∃ start priority,
      args.filterMap Argument.name? = [(a.name, start)] ∧
        args.filterMap Argument.priority? = Option.toList priority ∧
          a.priority = priority.getD 0 := by
  obtain ⟨⟨name, start⟩, named, own⟩ := List.map_eq_singleton_iff.mp
    ((names_of_records records).trans gives.name)
  obtain rfl : name = a.name := own
  have signed := priorities_of_records records
  rcases gives.priority with ⟨absent, zero⟩ | ⟨signs, magnitude, one, given⟩
  · rw [absent] at signed
    exact ⟨start, none, named, List.forall₂_nil_left_iff.mp signed, zero⟩
  · rw [one] at signed
    obtain ⟨value, _, first, rest, same⟩ := List.forall₂_cons_left_iff.mp signed
    cases rest
    exact ⟨start, some value, named, same, given.unique first⟩

/-- Every piece of an annotation can be read. -/
theorem Gives.exists_records (gives : Gives Signed saids a) :
    ∃ givens, List.Forall₂ Said.Records saids givens := by
  refine exists_forall₂ fun said member => ?_
  cases said with
  | name text => exact ⟨_, .name text ⟨0, 0⟩⟩
  | priority signs magnitude =>
    have inside : (signs, magnitude) ∈ saids.filterMap Said.priority? :=
      List.mem_filterMap.mpr ⟨_, member, rfl⟩
    rcases gives.priority with ⟨absent, -⟩ | ⟨signs', magnitude', one, signed⟩
    · rw [absent] at inside
      cases inside
    · rw [one, List.mem_singleton] at inside
      cases inside
      exact ⟨_, .priority signed⟩

/-- An annotation is read exactly of the lists of written arguments that give it. -/
theorem parseLexemes_eq_ok_iff :
    parseLexemes (fun _ => arguments) lexemes stop = .ok a ↔
      ∃ pieces saids, Listed pieces lexemes ∧ List.Forall₂ (Written 2) pieces saids ∧
        Gives Signed saids a := by
  unfold parseLexemes
  rw [runAll_eq_ok_iff]
  constructor
  · rintro ⟨j, ran, -, complete⟩
    obtain ⟨args, trailing, start, priority, list, named, type, listed, value⟩ :=
      reads_arguments.mp ran
    obtain ⟨pieces, saids, cut, written, records, -⟩ := listed_of_reads list complete
    exact ⟨pieces, saids, cut, written, gives_of_records records type named listed value⟩
  · rintro ⟨pieces, saids, cut, written, gives⟩
    obtain ⟨givens, records⟩ := gives.exists_records
    obtain ⟨args, trailing, list, records⟩ : ∃ args trailing,
        Reads (punctuatedUpTo "," atEnd argument (lexemes.length + 1)) ⟨lexemes, stop, none⟩
          (args, trailing) ⟨[], stop, none⟩ ∧ List.Forall₂ Said.Records saids args :=
      exists_reads_punctuated cut written records (Nat.lt_succ_self _) rfl
    obtain ⟨start, priority, named, listed, value⟩ := gives.exists_collected records
    exact ⟨⟨[], stop, none⟩, reads_arguments.mpr
      ⟨args, trailing, start, priority, list, named, gives.type, listed, value⟩, rfl, rfl⟩

/-- What is read does not depend on the order of the pieces. -/
theorem Gives.perm {signed : Nat → Nat → Priority → Prop} {saids' : List Said}
    (gives : Gives signed saids a) (perm : saids.Perm saids') : Gives signed saids' a where
  name := List.perm_singleton.mp (gives.name ▸ (perm.filterMap Said.name?).symm)
  type := gives.type
  priority := by
    have priorities := (perm.filterMap Said.priority?).symm
    rcases gives.priority with ⟨absent, zero⟩ | ⟨signs, magnitude, one, own⟩
    · rw [absent] at priorities
      exact .inl ⟨priorities.eq_nil, zero⟩
    · rw [one] at priorities
      exact .inr ⟨signs, magnitude, List.perm_singleton.mp priorities, own⟩

def isComma : Lexeme → Bool
  | .leaf (.punct symbol _) _ => symbol == ','
  | _ => false

/-- Whether something stands in a piece and no comma does. -/
def IsPiece (piece : List Lexeme) : Prop :=
  piece ≠ [] ∧ ∀ lexeme ∈ piece, isComma lexeme = false

theorem Written.isPiece {limit : Nat} {piece : List Lexeme} {said : Said}
    (written : Written limit piece said) : IsPiece piece := by
  refine ⟨written.ne_nil, ?_⟩
  cases written with
  | name => simp [isComma]
  | priority start equals place joint minus few integer =>
    intro lexeme member
    simp only [List.mem_cons, List.mem_append, List.not_mem_nil, or_false] at member
    rcases member with rfl | rfl | sign | rfl
    · rfl
    · rfl
    · obtain ⟨joint, place, rfl⟩ := exists_minus (minus lexeme sign)
      rfl
    · rfl

theorem IsPiece.takeWhile_eq {piece rest : List Lexeme} {joint : Bool} {place : Position}
    (plain : IsPiece piece) :
    (piece ++ .leaf (.punct ',' joint) place :: rest).takeWhile (fun l => !isComma l) = piece := by
  rw [List.takeWhile_append_of_pos fun lexeme member => by rw [plain.2 lexeme member]; rfl]
  simp [isComma]

/-- Commas cut lexemes into pieces in one way. -/
theorem Listed.unique {pieces' : List (List Lexeme)} (listed : Listed pieces lexemes)
    (listed' : Listed pieces' lexemes) (plain : ∀ piece ∈ pieces, IsPiece piece)
    (plain' : ∀ piece ∈ pieces', IsPiece piece) : pieces = pieces' := by
  have noComma {piece front rest : List Lexeme} {joint : Bool} {place : Position}
      (plain : IsPiece piece) (same : piece = front ++ .leaf (.punct ',' joint) place :: rest) :
      False := by
    have comma := plain.2 (.leaf (.punct ',' joint) place) (by simp [same])
    cases comma
  induction listed generalizing pieces' with
  | nil =>
    generalize same : ([] : List Lexeme) = lexemes at listed'
    cases listed' with
    | nil => rfl
    | last => exact absurd same.symm (plain' _ (by simp)).1
    | cons piece joint place more => simp at same
  | last piece =>
    generalize same : piece = lexemes at listed'
    cases listed' with
    | nil => exact absurd same (plain piece (by simp)).1
    | last => rfl
    | cons piece' joint place more => exact (noComma (plain piece (by simp)) same).elim
  | @cons piece joint place pieces rest more ih =>
    generalize same : piece ++ .leaf (.punct ',' joint) place :: rest = lexemes at listed'
    cases listed' with
    | nil => simp at same
    | last => exact (noComma (plain' _ (by simp)) same.symm).elim
    | @cons piece' joint' place' pieces' rest' more' =>
      have first := congrArg (List.takeWhile fun l => !isComma l) same
      rw [(plain piece (by simp)).takeWhile_eq, (plain' piece' (by simp)).takeWhile_eq] at first
      subst first
      obtain ⟨-, rfl⟩ := List.cons.inj (List.append_cancel_left same)
      rw [ih more' (fun p member => plain p (by simp [member]))
        fun p member => plain' p (by simp [member])]

theorem parseLexemes_of_perm {pieces' : List (List Lexeme)} {lexemes' : List Lexeme}
    {stop' : Position} (listed : Listed pieces lexemes) (listed' : Listed pieces' lexemes')
    (plain : ∀ piece ∈ pieces, IsPiece piece) (perm : pieces.Perm pieces')
    (parsed : parseLexemes (fun _ => arguments) lexemes stop = .ok a) :
    parseLexemes (fun _ => arguments) lexemes' stop' = .ok a := by
  obtain ⟨own, saids, ownListed, written, gives⟩ := parseLexemes_eq_ok_iff.mp parsed
  have each : ∀ piece ∈ own, IsPiece piece := by
    intro piece member
    obtain ⟨said, -, one⟩ := exists_of_mem_left written member
    exact one.isPiece
  obtain rfl := listed.unique ownListed plain each
  obtain ⟨saids', written', reordered⟩ := List.perm_comp_forall₂ perm.symm written
  exact parseLexemes_eq_ok_iff.mpr ⟨pieces', saids', listed', written', gives.perm reordered.symm⟩

/-- No minus sign stands directly behind another one. -/
def SingleSigns (lexemes : List Lexeme) : Prop :=
  lexemes.IsChain fun a b => ¬ (isMinus a = true ∧ isMinus b = true)

instance (lexemes : List Lexeme) : Decidable (SingleSigns lexemes) :=
  inferInstanceAs (Decidable (List.IsChain _ _))

theorem Listed.isInfix (listed : Listed pieces lexemes) {piece : List Lexeme}
    (member : piece ∈ pieces) : piece <:+: lexemes := by
  induction listed with
  | nil => cases member
  | last only => exact List.mem_singleton.mp member ▸ List.infix_rfl
  | cons first joint place more ih =>
    rcases List.mem_cons.mp member with rfl | member
    · exact (List.prefix_append _ _).isInfix
    · exact (ih member).trans ((List.suffix_cons _ _).trans (List.suffix_append _ _)).isInfix

theorem Written.mono {limit limit' : Nat} {piece : List Lexeme} {said : Said}
    (written : Written limit piece said) (more : limit ≤ limit') : Written limit' piece said := by
  cases written with
  | name start equals place joint value => exact .name start equals place joint value
  | priority start equals place joint minus few integer =>
    exact .priority start equals place joint minus (few.trans more) integer

theorem Written.single {piece : List Lexeme} {said : Said} (written : Written 2 piece said)
    (single : SingleSigns piece) : Written 1 piece said := by
  cases written with
  | name start equals place joint value => exact .name start equals place joint value
  | @priority start equals place joint signs spelling minus few integer =>
    refine .priority start equals place joint minus ?_ integer
    rcases signs with _ | ⟨first, _ | ⟨second, more⟩⟩
    · exact Nat.zero_le 1
    · exact Nat.le_refl 1
    · have pair : [first, second] <:+: .leaf (.ident "priority") start ::
          .leaf (.punct '=' joint) equals ::
          (first :: second :: more ++ [.leaf (.literal spelling) place]) :=
        ⟨[.leaf (.ident "priority") start, .leaf (.punct '=' joint) equals],
          more ++ [.leaf (.literal spelling) place], by simp⟩
      have apart : [first, second].IsChain fun a b => ¬ (isMinus a = true ∧ isMinus b = true) :=
        List.IsChain.infix single pair
      have both := List.isChain_pair.mp apart
      exact absurd ⟨minus first (by simp), minus second (by simp)⟩ both

/-- The signed value of a magnitude of at most 63 bits. -/
def Exactly (signs magnitude : Nat) (priority : Priority) : Prop :=
  magnitude ≤ 2 ^ 63 - 1 ∧ priority.toInt = (-1) ^ signs * magnitude

/-- Behind at most one sign the magnitude has 63 bits, and the sign is applied without overflow. -/
theorem signed_iff {signs magnitude : Nat} {priority : Priority} (few : signs ≤ 1) :
    Signed signs magnitude priority ↔ Exactly signs magnitude priority := by
  have unsigned : decide (1 < signs) = false := by
    rw [decide_eq_false_iff_not]
    omega
  have power : Nat.pow 2 63 = 2 ^ 63 := rfl
  have value (small : magnitude < 2 ^ 63) :
      (if signs = 0 then Int64.ofNat magnitude else -Int64.ofNat magnitude).toInt =
        (-1) ^ signs * magnitude := by
    rcases Nat.le_one_iff_eq_zero_or_eq_one.mp few with rfl | rfl
    · rw [if_pos rfl, Int64.toInt_ofNat_of_lt small]
      simp
    · rw [if_neg (by decide), Int64.toInt_neg, Int64.toInt_ofNat_of_lt small,
        Int.bmod_eq_of_le (by omega) (by omega)]
      simp
  unfold Signed Exactly priorityOf
  rw [unsigned, if_neg (by decide), power]
  constructor
  · rintro ⟨found, given, rfl⟩
    split at given
    · rename_i small
      cases given
      exact ⟨by omega, value small⟩
    · cases given
  · rintro ⟨bound, same⟩
    have small : magnitude < 2 ^ 63 := by omega
    refine ⟨Int64.ofNat magnitude, by rw [if_pos small], ?_⟩
    exact Int64.toInt_inj.mp (same.trans (value small).symm)

theorem gives_iff (written : List.Forall₂ (Written 1) pieces saids) :
    Gives Signed saids a ↔ Gives Exactly saids a := by
  have few {signs magnitude : Nat} (one : saids.filterMap Said.priority? = [(signs, magnitude)]) :
      signs ≤ 1 := by
    have inside : (signs, magnitude) ∈ saids.filterMap Said.priority? := by simp [one]
    obtain ⟨said, member, gives⟩ := List.mem_filterMap.mp inside
    obtain ⟨piece, -, own⟩ := exists_of_mem_right written member
    cases own with
    | name => cases gives
    | priority _ _ _ _ _ bound _ =>
      cases gives
      exact bound
  constructor
  · rintro ⟨name, type, none | ⟨signs, magnitude, one, own⟩⟩
    · exact ⟨name, type, .inl none⟩
    · exact ⟨name, type, .inr ⟨signs, magnitude, one, (signed_iff (few one)).mp own⟩⟩
  · rintro ⟨name, type, none | ⟨signs, magnitude, one, own⟩⟩
    · exact ⟨name, type, .inl none⟩
    · exact ⟨name, type, .inr ⟨signs, magnitude, one, (signed_iff (few one)).mpr own⟩⟩

/-- Where no minus sign follows another one, an annotation is read exactly of lists of names and
priorities in their written form, a priority with at most one sign, that say one name of a type and
at most one priority of 63 bits: it has that name verbatim and that signed value, or zero. The same
arguments in another order are read alike, whatever their signs. -/
theorem parseLexemes_arguments_iff (single : SingleSigns lexemes) (stop : Position) :
    (∀ a, parseLexemes (fun _ => arguments) lexemes stop = .ok a ↔
      ∃ pieces saids, Listed pieces lexemes ∧ List.Forall₂ (Written 1) pieces saids ∧
        Gives Exactly saids a) ∧
    ∀ pieces pieces' lexemes lexemes' stop', Listed pieces lexemes → Listed pieces' lexemes' →
      (∀ piece ∈ pieces, IsPiece piece) → pieces.Perm pieces' → ∀ a,
        (parseLexemes (fun _ => arguments) lexemes stop = .ok a ↔
          parseLexemes (fun _ => arguments) lexemes' stop' = .ok a) := by
  refine ⟨fun a => ?_, fun pieces pieces' lexemes lexemes' stop' listed listed' plain perm a => ?_⟩
  · rw [parseLexemes_eq_ok_iff]
    constructor
    · rintro ⟨pieces, saids, listed, written, gives⟩
      have one : List.Forall₂ (Written 1) pieces saids :=
        (List.forall₂_and_left _ _).mpr ⟨fun piece member => listed.isInfix member, written⟩ |>.imp
          fun piece said ⟨inside, own⟩ => own.single <| List.IsChain.infix single inside
      exact ⟨pieces, saids, listed, one, (gives_iff one).mp gives⟩
    · rintro ⟨pieces, saids, listed, written, gives⟩
      exact ⟨pieces, saids, listed, written.imp fun _ _ own => own.mono (by decide),
        (gives_iff written).mpr gives⟩
  · refine ⟨parseLexemes_of_perm listed listed' plain perm,
      parseLexemes_of_perm listed' listed (fun piece member => ?_) perm.symm⟩
    exact plain piece (perm.mem_iff.mpr member)

theorem ok_of_toOption {outcome : Except ParseError Annotation} (given : outcome.toOption = some a) :
    outcome = .ok a := by
  cases outcome with
  | error error => cases given
  | ok value => rw [Option.some.inj given]

/-- A priority of minus sixteen before a name. -/
def negated : List Lexeme :=
  [.leaf (.ident "priority") ⟨1, 0⟩, .leaf (.punct '=' false) ⟨1, 9⟩, .leaf (.punct '-' false) ⟨1, 11⟩,
    .leaf (.literal "0x1_0i64") ⟨1, 12⟩, .leaf (.punct ',' false) ⟨1, 20⟩,
    .leaf (.ident "name") ⟨1, 22⟩, .leaf (.punct '=' false) ⟨1, 27⟩,
    .leaf (.literal "\"A\"") ⟨1, 29⟩]

theorem parseLexemes_arguments_negated :
    SingleSigns negated ∧ ∃ pieces saids, Listed pieces negated ∧
      List.Forall₂ (Written 1) pieces saids ∧ Gives Exactly saids ⟨"A", -16⟩ := by
  have single : SingleSigns negated := by decide
  have parsed : parseLexemes (fun _ => arguments) negated ⟨1, 32⟩ = .ok ⟨"A", -16⟩ := by
    have computed : (parseLexemes (fun _ => arguments) negated ⟨1, 32⟩).toOption =
        some ⟨"A", -16⟩ := by
      decide +kernel
    exact ok_of_toOption computed
  exact ⟨single, ((parseLexemes_arguments_iff single ⟨1, 32⟩).1 _).mp parsed⟩

/-- A priority of three behind two minus signs. -/
def twiceNegated : List Lexeme :=
  [.leaf (.ident "name") ⟨1, 0⟩, .leaf (.punct '=' false) ⟨1, 5⟩, .leaf (.literal "\"A\"") ⟨1, 7⟩,
    .leaf (.punct ',' false) ⟨1, 10⟩, .leaf (.ident "priority") ⟨1, 12⟩,
    .leaf (.punct '=' false) ⟨1, 21⟩, .leaf (.punct '-' true) ⟨1, 23⟩,
    .leaf (.punct '-' false) ⟨1, 24⟩, .leaf (.literal "3") ⟨1, 25⟩]

/-- The second sign belongs to the literal, so that a priority with two signs is read although it is
in no written form with one. -/
theorem arguments_twiceNegated :
    ofText "name = \"A\", priority = --3" = .ok ⟨"A", 3⟩ ∧
      parseLexemes (fun _ => arguments) twiceNegated ⟨1, 26⟩ = .ok ⟨"A", 3⟩ ∧
      ¬ ∃ pieces saids a, Listed pieces twiceNegated ∧ List.Forall₂ (Written 1) pieces saids ∧
        Gives Exactly saids a := by
  refine ⟨ok_of_toOption (by decide +kernel), ok_of_toOption (by decide +kernel), ?_⟩
  rintro ⟨pieces, saids, a, listed, written, -⟩
  have cut : Listed [twiceNegated.take 3, twiceNegated.drop 4] twiceNegated :=
    .cons (twiceNegated.take 3) false ⟨1, 10⟩ (.last _)
  have plain : ∀ piece ∈ [twiceNegated.take 3, twiceNegated.drop 4], IsPiece piece := by
    simp [IsPiece, twiceNegated, isComma]
  obtain rfl : pieces = [twiceNegated.take 3, twiceNegated.drop 4] := by
    refine listed.unique cut (fun piece member => ?_) plain
    obtain ⟨said, -, one⟩ := exists_of_mem_left written member
    exact one.isPiece
  obtain ⟨said, -, second⟩ := exists_of_mem_left written
    (show twiceNegated.drop 4 ∈ [twiceNegated.take 3, twiceNegated.drop 4] by simp)
  generalize same : twiceNegated.drop 4 = piece at second
  cases second with
  | name => simp [twiceNegated] at same
  | @priority start equals place joint signs spelling minus few integer =>
    rcases signs with _ | ⟨first, _ | ⟨next, more⟩⟩
    · simp [twiceNegated] at same
    · simp [twiceNegated] at same
    · simp at few

end Annotation

end Forwarding
