import Forwarding.Proofs.Calls
import Forwarding.Proofs.Fitting
import Forwarding.Proofs.Substitution
/-!
Interchange. Whether definitions fit each other is transitive. A definition fits itself exactly if
each of its generic constructor parameters is one of its generic parameters, which a scan makes sure
of: a block has to name all parameters of the struct. Definitions that fit each other therefore fit
the same definitions and are fitted by the same ones.
-/

namespace Forwarding

section Pairs

variable {α : Type} {R S T : α → α → Prop} {ws ms ns : List α}

theorem AllPairs.trans (length : ws.length = ms.length)
    (compose : ∀ w m n, R w m → S m n → T w n) (first : AllPairs R ws ms)
    (second : AllPairs S ms ns) : AllPairs T ws ns := by
  intro index w n left right
  have inside : index < ms.length := by
    rw [← length]
    exact (List.getElem?_eq_some_iff.mp left).1
  have between := List.getElem?_eq_getElem inside
  exact compose w _ n (first index w _ left between) (second index _ n between right)

theorem allPairs_self_iff : AllPairs R ws ws ↔ ∀ w ∈ ws, R w w := by
  constructor
  · intro all w member
    obtain ⟨index, present⟩ := List.getElem?_of_mem member
    exact all index w w present present
  · intro all index w w' left right
    obtain rfl := Option.some.inj (left.symm.trans right)
    exact all w (List.mem_of_getElem? left)

end Pairs

theorem GenericParam.admits_self (p : GenericParam) : p.admits p = true :=
  admits_iff.mpr ⟨rfl, List.Subset.refl _⟩

theorem GenericParam.admits_trans {p q r : GenericParam} (first : p.admits q = true)
    (second : q.admits r = true) : p.admits r = true := by
  obtain ⟨kind, bounds⟩ := admits_iff.mp first
  obtain ⟨kind', bounds'⟩ := admits_iff.mp second
  exact admits_iff.mpr ⟨kind.trans kind', List.Subset.trans bounds' bounds⟩

namespace Definition

variable {a b c d : Definition}

theorem Assignable.trans {x y z : ParamShape} (first : Assignable a b x y)
    (second : Assignable b c y z) : Assignable a c x z := by
  cases first with
  | concrete type type' canonical =>
    cases second with
    | concrete _ type'' => exact .concrete type type'' canonical
  | generic type type' declared declared' admitted =>
    cases second with
    | generic _ type'' between declared'' admitted' =>
      obtain rfl := Option.some.inj (declared'.symm.trans between)
      exact .generic type type'' declared declared'' (GenericParam.admits_trans admitted admitted')

theorem Compatible.trans (first : a.Compatible b) (second : b.Compatible c) : a.Compatible c where
  arity := first.arity.trans second.arity
  params := by
    refine AllPairs.trans first.arity ?_ first.params second.params
    intro w m n fits fits'
    exact Assignable.trans fits fits'
  genericArity := first.genericArity.trans second.genericArity
  generics := by
    refine AllPairs.trans first.genericArity ?_ first.generics second.generics
    intro p q r admitted admitted'
    exact GenericParam.admits_trans admitted admitted'

theorem Compatible.fits_iff (first : a.Compatible b) (second : b.Compatible a) (c : Definition) :
    a.Compatible c ↔ b.Compatible c :=
  ⟨second.trans, first.trans⟩

theorem Compatible.fitted_iff (first : a.Compatible b) (second : b.Compatible a) (c : Definition) :
    c.Compatible a ↔ c.Compatible b :=
  ⟨fun fits => fits.trans first, fun fits => fits.trans second⟩

/-- Each generic constructor parameter is one of the generic parameters. -/
def Grounded (d : Definition) : Prop :=
  ∀ param ∈ d.params, ∀ position type, param.shape = .generic position type →
    position < d.generics.length

theorem assignable_self_iff {shape : ParamShape} :
    Assignable d d shape shape ↔
      ∀ position type, shape = .generic position type → position < d.generics.length := by
  constructor
  · rintro assignable position type rfl
    cases assignable with
    | generic _ _ declared => exact (List.getElem?_eq_some_iff.mp declared).1
  · intro grounded
    cases shape with
    | concrete type canonical => exact .concrete type type canonical
    | generic position type =>
      have declared := List.getElem?_eq_getElem (grounded position type rfl)
      exact .generic type type declared declared (GenericParam.admits_self _)

theorem compatible_self_iff : d.Compatible d ↔ d.Grounded := by
  constructor
  · intro compatible param member
    exact assignable_self_iff.mp (allPairs_self_iff.mp compatible.params param member)
  · intro grounded
    exact {
      arity := rfl
      params := allPairs_self_iff.mpr fun param member =>
        assignable_self_iff.mpr (grounded param member)
      genericArity := rfl
      generics := allPairs_self_iff.mpr fun p _ => GenericParam.admits_self p }

end Definition

namespace Scan

variable {o : Origin} {d : Definition}

theorem Origin.Describes.getElem?_generics (described : o.Describes d) {position : Nat}
    (within : position < o.struct.generics.params.length) :
    ∃ p, d.generics[position]? = some p := by
  have folded := Requirements.ofBoth_params o.struct.generics o.constructor.block.generics o.names
    position
  rw [described.required, List.getElem?_eq_getElem within, Option.map_some] at folded
  exact ⟨_, folded⟩

/-- The position of a type that is only a name is one of the struct, since the block of the
constructor names as many parameters as the struct declares. -/
theorem Origin.Describes.grounded (described : o.Describes d) : d.Grounded := by
  intro param member position type shape
  have listed : param.shape ∈ d.params.map (·.shape) := List.mem_map_of_mem member
  rw [described.shapes, shape] at listed
  obtain ⟨s, inside, same⟩ := List.mem_map.mp listed
  obtain ⟨tree, -, rfl⟩ := List.mem_map.mp inside
  unfold Constructor.shapeOf at same
  split at same
  · rename_i found
    cases same
    rw [GenericNames.positionOf_eq] at found
    obtain ⟨name, -, found⟩ := Option.bind_eq_some_iff.mp found
    obtain ⟨p, present⟩ := described.getElem?_generics (described.within (m := .value name) found)
    exact (List.getElem?_eq_some_iff.mp present).1
  · cases same

/-- A definition that the scan of some unit returns. -/
def Scanned (d : Definition) : Prop :=
  ∃ c unit definitions, scan c unit = .ok definitions ∧ d ∈ definitions

theorem Scanned.grounded (scanned : Scanned d) : d.Grounded := by
  obtain ⟨c, unit, definitions, found, member⟩ := scanned
  obtain ⟨o, -, described⟩ := exists_origin found member
  exact described.grounded

/-- Scanned definitions are preordered by fitting. Two that fit each other fit the same definitions
and are fitted by the same definitions. -/
theorem fits_preorder :
    (∀ a, Scanned a → a.mismatch? a = none) ∧
      (∀ a b c : Definition, a.mismatch? b = none → b.mismatch? c = none →
        a.mismatch? c = none) ∧
      ∀ a b : Definition, a.mismatch? b = none → b.mismatch? a = none → ∀ c : Definition,
        (a.mismatch? c = none ↔ b.mismatch? c = none) ∧
          (c.mismatch? a = none ↔ c.mismatch? b = none) := by
  simp only [Definition.mismatch?_eq_none_iff]
  refine ⟨fun a scanned => Definition.compatible_self_iff.mpr scanned.grounded, ?_, ?_⟩
  · intro a b c first second
    exact first.trans second
  · intro a b first second c
    exact ⟨first.fits_iff second c, first.fitted_iff second c⟩

/-- A struct whose parameter has some bounds, with a constructor. -/
def structOf (name priority bounds : String) : String :=
  "#[variant_merge(name=\"G\",priority=" ++ priority ++ ")]pub struct " ++ name ++
    "<T:" ++ bounds ++ ">\x7bpub a:T\x7dimpl<T:" ++ bounds ++ ">" ++ name ++
      "<T>\x7bpub fn new(a:T)->Self\x7bSelf\x7ba\x7d\x7d\x7d"

/-- A unit with two structs that require the same in another order, and one that requires less. -/
def reordered : SourceUnit :=
  ⟨"src/lib.rs", ["crate"],
    structOf "A" "1" "Copy+Send" ++ structOf "B" "2" "Send+Copy" ++ structOf "C" "3" "Copy"⟩

theorem fits_preorder_reordered :
    ∃ a b c, scan {} reordered = .ok [a, b, c] ∧ a.mismatch? a = none ∧ a.mismatch? b = none ∧
      b.mismatch? a = none ∧ a.mismatch? c = none ∧ b.mismatch? c = none ∧
        c.mismatch? a ≠ none ∧ c.mismatch? b ≠ none := by
  have computed : (scan {} reordered).toOption.map (fun definitions =>
      definitions.map fun a => definitions.map fun b => (a.mismatch? b).isNone) =
        some [[true, true, true], [true, true, true], [false, false, true]] := by
    rw [scan_of_hasChars reordered (by repeat constructor)]
    decide +kernel
  cases scanned : scan {} reordered with
  | error failure =>
    rw [scanned] at computed
    cases computed
  | ok definitions =>
    rw [scanned] at computed
    have table := Option.some.inj computed
    have length := congrArg List.length table
    rw [List.length_map] at length
    obtain ⟨a, b, c, rfl⟩ := List.length_eq_three.mp length
    simp only [List.map_cons, List.map_nil, List.cons.injEq, Option.isNone_iff_eq_none,
      Option.isNone_eq_false_iff, and_true] at table
    obtain ⟨⟨-, ab, ac⟩, ⟨ba, -, -⟩, ⟨ca, -, -⟩⟩ := table
    obtain ⟨reflexive, -, interchange⟩ := fits_preorder
    have same := interchange a b ab ba c
    have apart := Option.isSome_iff_ne_none.mp ca
    exact ⟨a, b, c, rfl, reflexive a ⟨_, _, _, scanned, List.mem_cons_self⟩, ab, ba, ac,
      same.1.mp ac, apart, fun fits => apart (same.2.mpr fits)⟩

end Scan

end Forwarding
