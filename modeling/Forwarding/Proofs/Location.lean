import Forwarding.Source.Location
/-!
The order of locations. It is a total order on places up to the spelling of paths: two locations
tie exactly when they name the same place of the same file.
-/

namespace Forwarding

namespace PathComponent

/-- The name of a component; only normal components have one. -/
def text : PathComponent → String
  | normal name => name
  | _ => ""

theorem compare_eq_lex : compare = compareLex (compareOn rank) (compareOn text) := by
  funext a b
  cases a <;> cases b <;> rfl

instance : Std.TransCmp compare := by
  rw [compare_eq_lex]
  infer_instance

instance : Std.LawfulEqCmp compare where
  eq_of_compare {a b} tie := by
    cases a <;> cases b <;> simp_all [compare, rank]

end PathComponent

namespace Path

theorem compareComponents_eq_lex : compareComponents = List.compareLex PathComponent.compare := by
  funext a b
  induction a generalizing b with
  | nil => cases b <;> rfl
  | cons x xs ih =>
    cases b with
    | nil => rfl
    | cons y ys =>
      rw [compareComponents, List.compareLex, ih]
      cases x.compare y <;> rfl

instance : Std.TransCmp compareComponents := by
  rw [compareComponents_eq_lex]
  infer_instance

instance : Std.LawfulEqCmp compareComponents := by
  rw [compareComponents_eq_lex]
  infer_instance

instance : Std.TransCmp compare where
  eq_swap {a b} := by
    have swap : compareComponents (components a) (components b) =
        (compareComponents (components b) (components a)).swap := Std.OrientedCmp.eq_swap
    exact swap
  isLE_trans {a b c} first second := by
    have trans : (compareComponents (components a) (components c)).isLE = true :=
      Std.TransCmp.isLE_trans first second
    exact trans

end Path

namespace Location

/-- The place that a location names, whatever the spelling of its path. -/
def key (l : Location) : List PathComponent × Nat × Nat :=
  (Path.components l.file, l.line, l.column)

/-- Locations of the same place in the same file. -/
def Same (a b : Location) : Prop :=
  Path.same a.file b.file = true ∧ a.line = b.line ∧ a.column = b.column

theorem same_iff (a b : Location) : a.Same b ↔ a.key = b.key := by
  simp [Same, Path.same, key]

theorem Same.refl (a : Location) : a.Same a := (same_iff a a).mpr rfl

theorem compare_eq_lex :
    compare = compareLex (fun a b => Path.compare a.file b.file)
      (compareLex (compareOn line) (compareOn column)) := by
  funext a b
  simp only [compare, compareLex, compareOn]
  cases Path.compare a.file b.file with
  | eq => cases Ord.compare a.line b.line <;> rfl
  | lt => rfl
  | gt => rfl

instance : Std.TransCmp (fun a b : Location => Path.compare a.file b.file) where
  eq_swap := Std.OrientedCmp.eq_swap
  isLE_trans first second := Std.TransCmp.isLE_trans first second

instance : Std.TransCmp compare := by
  rw [compare_eq_lex]
  infer_instance

theorem compare_eq_eq_iff (a b : Location) : a.compare b = .eq ↔ a.key = b.key := by
  rw [compare_eq_lex]
  simp [compareLex_eq_eq, compareOn, Path.compare, key]

end Location

end Forwarding
