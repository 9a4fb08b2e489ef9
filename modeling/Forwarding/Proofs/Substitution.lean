import Forwarding.Compatibility
import Forwarding.Grammar.Text
import Forwarding.Proofs.ParameterNames
/-!
Substitution. A definition accepts generic arguments of the right kinds that satisfy its bounds and
its predicates. One generic parameter admits another exactly when the other accepts every argument
that it accepts. A definition that fits the winner of its group has parameters that are admitted one
by one, and it accepts whatever the winner accepts exactly when it has no predicate that the winner
does not have: fitting does not compare predicates.
-/

namespace Forwarding

/-- What is known of generic arguments: the kind of the one at each position, the bounds that it
satisfies, and the predicates that hold of all of them. Bounds and predicates are in canonical
form. -/
structure Arguments where
  kind : Nat → GenericKind
  satisfies : Nat → String → Prop
  holds : String → Prop

namespace GenericParam

/-- The bounds that are declared; those of a constant are not. -/
def declaredBounds (p : GenericParam) : List String :=
  match p.kind with
  | .const _ => []
  | _ => p.canonicalBounds

def Accepts (p : GenericParam) (arguments : Arguments) (position : Nat) : Prop :=
  arguments.kind position = p.kind ∧ ∀ bound ∈ p.declaredBounds, arguments.satisfies position bound

variable {w m : GenericParam}

theorem admits_iff :
    w.admits m = true ↔ w.kind = m.kind ∧ m.declaredBounds ⊆ w.declaredBounds := by
  unfold admits declaredBounds
  cases w.kind <;> cases m.kind <;> simp [List.subset_def]

/-- A parameter admits another exactly when the other accepts every argument that it accepts. -/
theorem admits_iff_accepts :
    w.admits m = true ↔
      ∀ arguments position, w.Accepts arguments position → m.Accepts arguments position := by
  rw [admits_iff]
  constructor
  · rintro ⟨kind, bounds⟩ arguments position ⟨given, satisfied⟩
    exact ⟨given.trans kind, fun bound member => satisfied bound (bounds member)⟩
  · intro substitutes
    -- the arguments of which nothing is known but what `w` requires
    have accepted := substitutes ⟨fun _ => w.kind, fun _ bound => bound ∈ w.declaredBounds,
      fun _ => False⟩ 0 ⟨rfl, fun _ member => member⟩
    exact ⟨accepted.1, accepted.2⟩

/-- A parameter of a definition as its texts mention it. -/
def mention (p : GenericParam) : Mention :=
  match p.kind with
  | .lifetime => .lifetime (String.ofList (p.name.toList.drop 1))
  | _ => .value p.name

end GenericParam

namespace Definition

/-- The canonical forms of the predicates. -/
def predicateForms (d : Definition) : List String :=
  d.predicates.map fun text =>
    match Grammar.parseText Grammar.wherePredicate text with
    | .ok predicate => predicate.tree.canonical (.ofMentions (d.generics.map GenericParam.mention))
    | .error _ => text

structure Accepts (d : Definition) (arguments : Arguments) : Prop where
  params : ∀ (position : Nat) (p : GenericParam), d.generics[position]? = some p →
    p.Accepts arguments position
  predicates : ∀ predicate ∈ d.predicateForms, arguments.holds predicate

/-- The arguments of which nothing is known but what a definition requires. -/
def arguments (d : Definition) : Arguments where
  kind position := ((d.generics[position]?).map (·.kind)).getD .type
  satisfies position bound := ∃ p, d.generics[position]? = some p ∧ bound ∈ p.declaredBounds
  holds predicate := predicate ∈ d.predicateForms

variable {winner member : Definition}

theorem accepts_arguments (d : Definition) : d.Accepts d.arguments where
  params position p present := by
    refine ⟨?_, fun bound member => ⟨p, present, member⟩⟩
    simp only [arguments, present, Option.map_some, Option.getD_some]
  predicates _ member := member

theorem genericMismatch?_eq_none {index : Nat} {ws ms : List GenericParam}
    (length : ws.length = ms.length) (fits : genericMismatch? index ws ms = none) :
    List.Forall₂ (fun w m => w.admits m = true) ws ms := by
  induction ws generalizing index ms with
  | nil =>
    rw [List.eq_nil_of_length_eq_zero length.symm]
    exact .nil
  | cons w ws ih =>
    cases ms with
    | nil => cases length
    | cons m ms =>
      unfold genericMismatch? at fits
      split at fits
      · rename_i admitted
        exact .cons admitted (ih (Nat.succ.inj length) fits)
      · cases fits

theorem admits_of_fits (fits : winner.mismatch? member = none) :
    List.Forall₂ (fun w m => w.admits m = true) winner.generics member.generics := by
  unfold mismatch? at fits
  split at fits
  · cases fits
  split at fits
  · cases fits
  split at fits
  · cases fits
  · rename_i length
    exact genericMismatch?_eq_none (Decidable.of_not_not length) fits

theorem accepts_params (fits : winner.mismatch? member = none) {arguments : Arguments}
    (accepts : winner.Accepts arguments) {position : Nat} {m : GenericParam}
    (present : member.generics[position]? = some m) : m.Accepts arguments position := by
  have admitted := admits_of_fits fits
  obtain ⟨within, same⟩ := List.getElem?_eq_some_iff.mp present
  have corresponding : position < winner.generics.length := by
    rw [admitted.length_eq]
    exact within
  have pair := admitted.get corresponding within
  rw [GenericParam.admits_iff_accepts] at pair
  have accepted := pair arguments position
    (accepts.params position _ (List.getElem?_eq_getElem corresponding))
  change (member.generics[position]).Accepts arguments position at accepted
  rwa [same] at accepted

theorem predicateForms_subset (substitutes : member.Accepts winner.arguments) :
    member.predicateForms ⊆ winner.predicateForms :=
  fun predicate inside => substitutes.predicates predicate inside

/-- A definition that fits the winner requires of each generic parameter nothing that the winner
does not require, and it accepts all arguments that the winner accepts exactly if its predicates are
predicates of the winner. -/
theorem fits_substitutes (fits : winner.mismatch? member = none) :
    List.Forall₂ (fun w m => w.kind = m.kind ∧ m.declaredBounds ⊆ w.declaredBounds)
        winner.generics member.generics ∧
      ((∀ arguments, winner.Accepts arguments → member.Accepts arguments) ↔
        member.predicateForms ⊆ winner.predicateForms) := by
  refine ⟨(admits_of_fits fits).imp fun _ _ => GenericParam.admits_iff.mp, ?_, ?_⟩
  · intro substitutes
    exact predicateForms_subset (substitutes _ (accepts_arguments winner))
  · intro subset arguments accepts
    exact ⟨fun _ _ present => accepts_params fits accepts present,
      fun predicate inside => accepts.predicates predicate (subset inside)⟩

/-- A definition with one type parameter. -/
def ofParameter (name : String) (predicates : List String) : Definition where
  name := "G"
  priority := 1
  typePath := "crate::H"
  constructor := "new"
  params := [⟨"a", .generic 0 name⟩]
  generics := [⟨name, .type, [], []⟩]
  predicates
  properties := []
  location := .ofFile "src/lib.rs"

theorem fits_substitutes_renamed :
    (ofParameter "T" ["Vec < T > : Clone"]).mismatch? (ofParameter "U" ["Vec < U > : Clone"]) =
        none ∧
      ∀ arguments, (ofParameter "T" ["Vec < T > : Clone"]).Accepts arguments →
        (ofParameter "U" ["Vec < U > : Clone"]).Accepts arguments := by
  have fits : (ofParameter "T" ["Vec < T > : Clone"]).mismatch?
      (ofParameter "U" ["Vec < U > : Clone"]) = none := by
    decide +kernel
  have forms : (ofParameter "U" ["Vec < U > : Clone"]).predicateForms =
      (ofParameter "T" ["Vec < T > : Clone"]).predicateForms := by
    decide +kernel
  refine ⟨fits, (fits_substitutes fits).2.mpr ?_⟩
  rw [forms]
  exact List.Subset.refl _

/-- A definition with a predicate of its own fits a winner without one, and does not accept all
arguments that the winner accepts. -/
theorem fits_not_substitutes :
    (ofParameter "T" []).mismatch? (ofParameter "T" ["Vec < T > : Clone"]) = none ∧
      ¬ ∀ arguments, (ofParameter "T" []).Accepts arguments →
        (ofParameter "T" ["Vec < T > : Clone"]).Accepts arguments := by
  refine ⟨by decide +kernel, fun substitutes => ?_⟩
  have computed :
      (ofParameter "T" ["Vec < T > : Clone"]).predicateForms = ["Vec < __G0 > : Clone"] := by
    decide +kernel
  have subset := predicateForms_subset (substitutes _ (accepts_arguments (ofParameter "T" [])))
  rw [computed] at subset
  exact absurd (subset List.mem_cons_self) List.not_mem_nil

end Definition

end Forwarding
