import Forwarding.Artifact
import Forwarding.Scan.Finding
/-!
Plans: what a pass over some units would write, computed without any files.
-/

namespace Forwarding

/-- The resolutions of some units and their artifacts, in the same order. -/
structure Plan where
  /-- How many units were scanned. -/
  units : Nat
  resolutions : List Resolution
  artifacts : List Artifact
  deriving Repr, DecidableEq

namespace Plan

/-- The resolutions of definitions. -/
def resolve (definitions : List Definition) : Except Failure (List Resolution) := do
  Resolution.ofGroups (← Group.ofDefinitions definitions)

/-- The plan for some units. -/
def ofUnits (c : Conventions) (units : List SourceUnit) : Except Failure Plan := do
  let resolutions ← resolve (← Scan.collect c units)
  let artifacts ← Artifact.ofResolutions resolutions
  return ⟨units.length, resolutions, artifacts⟩

end Plan

/-- A definition of a resolved chain. -/
structure ChainLink where
  typePath : String
  priority : Priority
  location : Location
  deriving Repr, DecidableEq

/-- The outcome of a group. -/
structure GroupSummary where
  name : String
  winner : String
  priority : Priority
  fileName : String
  chain : List ChainLink
  deriving Repr, DecidableEq

/-- The outcome of a group with its artifact. -/
def GroupSummary.of (r : Resolution) (a : Artifact) : GroupSummary where
  name := r.name
  winner := r.winner.typePath
  priority := r.winner.priority
  fileName := a.fileName
  chain := r.chain.map fun d => ⟨d.typePath, d.priority, d.location⟩

/-- The outcome of every group of a plan. -/
def Plan.summary (p : Plan) : List GroupSummary :=
  p.resolutions.zipWith GroupSummary.of p.artifacts

end Forwarding
