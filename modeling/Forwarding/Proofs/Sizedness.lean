import Forwarding.Proofs.Origin
import Forwarding.Proofs.Substitution
import Mathlib.Data.Set.Insert
/-!
Sizedness. A type parameter requires that its arguments are sized unless one of its bounds relaxes
this. Of two parameters of which one admits the other, the other may require that an argument is
sized where the first does not: only the bounds that are listed are compared. Apart from that the
other accepts whatever the first accepts.
-/

namespace Forwarding

namespace GenericParam

/-- The bound that a type parameter has without listing it, in canonical form. -/
def sized : String :=
  "Sized"

/-- The bound that takes the unlisted one away, in canonical form. -/
def relaxed : String :=
  "? Sized"

/-- Arguments that satisfy some bounds can be given for a type parameter: they satisfy those that
are listed, and the unlisted one unless it is taken away. -/
structure Allows (p : GenericParam) (satisfied : Set String) : Prop where
  listed : ∀ bound ∈ p.canonicalBounds, bound ∈ satisfied
  sized : relaxed ∉ p.canonicalBounds → sized ∈ satisfied

/-- All bounds that arguments for a type parameter satisfy. -/
def required (p : GenericParam) : List String :=
  if relaxed ∈ p.canonicalBounds then p.canonicalBounds else sized :: p.canonicalBounds

variable {p w m : GenericParam} {satisfied : Set String}

theorem allows_iff : p.Allows satisfied ↔ ∀ bound ∈ p.required, bound ∈ satisfied := by
  unfold required
  split
  · rename_i lifts
    exact ⟨fun allowed => allowed.listed, fun listed => ⟨listed, fun keeps => absurd lifts keeps⟩⟩
  · rename_i keeps
    rw [List.forall_mem_cons]
    exact ⟨fun allowed => ⟨allowed.sized keeps, allowed.listed⟩,
      fun ⟨sized, listed⟩ => ⟨listed, fun _ => sized⟩⟩

/-- A parameter allows whatever another one allows exactly if it requires nothing else. -/
theorem allows_of_allows_iff :
    (∀ satisfied, w.Allows satisfied → m.Allows satisfied) ↔ m.required ⊆ w.required := by
  simp only [allows_iff]
  constructor
  · intro substitutes bound member
    -- the arguments of which nothing is known but what `w` requires
    exact substitutes {bound | bound ∈ w.required} (fun _ member => member) bound member
  · intro subset satisfied allowed bound member
    exact allowed bound (subset member)

theorem required_subset_iff (listed : m.canonicalBounds ⊆ w.canonicalBounds) :
    m.required ⊆ w.required ↔
      (relaxed ∈ w.canonicalBounds →
        relaxed ∈ m.canonicalBounds ∨ sized ∈ w.canonicalBounds) := by
  unfold required
  by_cases lifts : relaxed ∈ w.canonicalBounds
  · rw [if_pos lifts]
    by_cases lifts' : relaxed ∈ m.canonicalBounds
    · simp [lifts', listed]
    · simp [lifts, lifts', List.cons_subset, listed]
  · -- neither parameter lifts the requirement, since `m` lists nothing that `w` does not list
    have keeps : relaxed ∉ m.canonicalBounds := fun lifts' => lifts (listed lifts')
    rw [if_neg lifts, if_neg keeps]
    simp [lifts, List.cons_subset_cons _ listed]

/-- A type parameter allows whatever a parameter that admits it allows, unless only the latter takes
the unlisted bound away and does not list it either. -/
theorem allows_of_admits_iff (type : w.kind = .type) (type' : m.kind = .type)
    (admitted : w.admits m = true) :
    (∀ satisfied, w.Allows satisfied → m.Allows satisfied) ↔
      (relaxed ∈ w.canonicalBounds →
        relaxed ∈ m.canonicalBounds ∨ sized ∈ w.canonicalBounds) := by
  have listed := (admits_iff.mp admitted).2
  unfold declaredBounds at listed
  rw [type, type'] at listed
  rw [allows_of_allows_iff, required_subset_iff listed]

/-- A type parameter with some bounds. -/
def ofBounds (bounds : List String) : GenericParam :=
  ⟨"T", .type, bounds, bounds⟩

theorem allows_of_admits_relaxed :
    (ofBounds ["? Sized", "Debug"]).admits (ofBounds ["? Sized"]) = true ∧
      ∀ satisfied, (ofBounds ["? Sized", "Debug"]).Allows satisfied →
        (ofBounds ["? Sized"]).Allows satisfied := by
  have admitted : (ofBounds ["? Sized", "Debug"]).admits (ofBounds ["? Sized"]) = true := by
    decide +kernel
  refine ⟨admitted, (allows_of_admits_iff rfl rfl admitted).mpr fun _ => .inl ?_⟩
  exact List.mem_singleton_self _

end GenericParam

namespace Scan

/-- A unit with a struct that holds a box of its parameter. -/
def boxing (parameter : String) : SourceUnit :=
  ⟨"src/lib.rs", ["crate"],
    "#[variant_merge(name=\"G\",priority=1)]pub struct H<" ++ parameter ++
      ">\x7bpub a:Box<T>\x7dimpl<" ++ parameter ++
        ">H<T>\x7bpub fn new(a:Box<T>)->Self\x7bH\x7ba\x7d\x7d\x7d"⟩

/-- What its constructor takes. -/
def boxed : List ConstructorParam :=
  [⟨"a", .concrete "Box < T >" "Box < __G0 >"⟩]

/-- A definition fits a winner whose parameter takes the unlisted bound away. An argument that is not
sized is allowed by the winner, and not by the definition. -/
theorem fits_not_allows :
    ∃ winner member w m, scan {} (boxing "T:?Sized") = .ok [winner] ∧
      scan {} (boxing "T") = .ok [member] ∧ winner.mismatch? member = none ∧
        winner.generics = [w] ∧ member.generics = [m] ∧ w.kind = .type ∧ m.kind = .type ∧
          w.admits m = true ∧ w.Allows {GenericParam.relaxed} ∧
            ¬ m.Allows {GenericParam.relaxed} := by
  have computed :
      (scan {} (boxing "T:?Sized")).toOption.map (·.map fun d => (d.params, d.generics)) =
          some [(boxed, [.ofBounds ["? Sized"]])] ∧
        (scan {} (boxing "T")).toOption.map (·.map fun d => (d.params, d.generics)) =
          some [(boxed, [.ofBounds []])] := by
    rw [scan_of_hasChars (boxing "T:?Sized") (by repeat constructor),
      scan_of_hasChars (boxing "T") (by repeat constructor)]
    decide +kernel
  obtain ⟨winner, scanned, read⟩ := exists_single computed.1
  obtain ⟨member, scanned', read'⟩ := exists_single computed.2
  obtain ⟨params, generics⟩ := Prod.mk.inj read
  obtain ⟨params', generics'⟩ := Prod.mk.inj read'
  have fits : winner.mismatch? member = none := by
    rw [Definition.mismatch?, params, params', generics, generics']
    rfl
  refine ⟨winner, member, _, _, scanned, scanned', fits, generics, generics', rfl, rfl,
    by decide +kernel, ?_, fun allowed => ?_⟩
  · refine ⟨fun bound listed => ?_, fun keeps => absurd (List.mem_singleton_self _) keeps⟩
    exact Set.mem_singleton_iff.mpr (List.mem_singleton.mp listed)
  · have sized := allowed.sized List.not_mem_nil
    exact absurd (Set.mem_singleton_iff.mp sized) (by decide +kernel)

end Scan

end Forwarding
