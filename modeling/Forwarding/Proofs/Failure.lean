import Forwarding.Failure
import Forwarding.Proofs.Location
import Forwarding.Proofs.Traversal
/-!
Failures. Two failures are the same when they differ in nothing but the spelling of paths, and a
step fails as one kind when all of its failures are of that kind.
-/

namespace Forwarding

/-- Failures that differ at most in how the paths of their places are spelled. -/
def Failure.Same : Failure → Failure → Prop
  | .scan a defect, .scan b defect' => a.Same b ∧ defect = defect'
  | .duplicatePriority name priority a b, .duplicatePriority name' priority' a' b' =>
    name = name' ∧ priority = priority' ∧ a.Same a' ∧ b.Same b'
  | .signatureMismatch name a b mismatch, .signatureMismatch name' a' b' mismatch' =>
    name = name' ∧ a.Same a' ∧ b.Same b' ∧ mismatch = mismatch'
  | .emission group path cause, .emission group' path' cause' =>
    group = group' ∧ path = path' ∧ cause = cause'
  | _, _ => False

theorem Failure.Same.refl (failure : Failure) : failure.Same failure := by
  cases failure <;> simp [Failure.Same, Location.Same.refl]

theorem Failure.Same.kind {a b : Failure} (same : a.Same b) : a.kind = b.kind := by
  cases a <;> cases b <;> first | rfl | cases same

/-- Every failure of a step is of one kind. -/
def FailsAs {α : Type} (kind : String) (step : Except Failure α) : Prop :=
  ∀ failure, step = .error failure → failure.kind = kind

namespace FailsAs

variable {α β : Type} {kind : String}

theorem ok (value : α) : FailsAs kind (.ok value) := by
  intro failure failed
  cases failed

theorem error {failure : Failure} (same : failure.kind = kind) :
    FailsAs kind (.error failure : Except Failure α) := by
  intro other failed
  rw [← Except.error.inj failed]
  exact same

theorem bind {step : Except Failure α} {next : α → Except Failure β} (first : FailsAs kind step)
    (second : ∀ value, FailsAs kind (next value)) : FailsAs kind (step >>= next) := by
  cases step with
  | error failure => exact error (first failure rfl)
  | ok value => exact second value

theorem map {step : Except Failure α} (f : α → β) (each : FailsAs kind step) :
    FailsAs kind (f <$> step) := by
  cases step with
  | error failure => exact error (each failure rfl)
  | ok value => exact ok (f value)

theorem mapM {step : α → Except Failure β} {l : List α} (each : ∀ a ∈ l, FailsAs kind (step a)) :
    FailsAs kind (l.mapM step) := by
  intro failure failed
  obtain ⟨before, a, after, rfl, -, same⟩ := (mapM_eq_error_iff step l failure).mp failed
  exact each a (by simp) failure same

end FailsAs

end Forwarding
