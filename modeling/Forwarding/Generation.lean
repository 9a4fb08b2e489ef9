import Forwarding.Output
import Forwarding.Plan
import Forwarding.Source.Discovery
/-!
Generation passes: discovery, scanning, grouping, resolution, artifacts and output one after
another, each step with the events that tell of it. Scanning, resolution and artifacts go through
all of their inputs before the first failure ends the pass; what has succeeded is told of even then.
-/

namespace Forwarding

namespace Generation

/-- What has succeeded among some results. -/
def successes {α : Type} (results : List (Except Failure α)) : List α :=
  results.filterMap fun
    | .ok value => some value
    | .error _ => none

/-- What has succeeded before the first failure among some results. -/
def successesBefore {α : Type} : List (Except Failure α) → List α
  | .ok value :: rest => value :: successesBefore rest
  | _ => []

/-- The event of a definition. -/
def definitionFound (d : Definition) : Event :=
  ⟨.debug, "annotated definition",
    [("name", d.name), ("priority", toString d.priority.toInt), ("ty", d.typePath)]⟩

/-- The event of a group. -/
def groupFormed (g : Group) : Event :=
  ⟨.debug, "grouped", [("group", g.name), ("members", toString g.members.length)]⟩

/-- The event of a resolution. -/
def groupResolved (r : Resolution) : Event :=
  ⟨.debug, "resolved",
    [("group", r.name), ("winner", r.winner.typePath),
      ("priority", toString r.winner.priority.toInt), ("members", toString r.chain.length)]⟩

/-- The event of an artifact. -/
def artifactRendered (a : Artifact) : Event :=
  ⟨.debug, "rendered", [("group", a.name), ("file", a.fileName)]⟩

/-- The event of a finished step, with counts. -/
def finished (message : String) (counts : List (String × Nat)) : Event :=
  ⟨.info, message, counts.map fun (name, count) => (name, toString count)⟩

variable {m : Type → Type} [Monad m] [Host m]

/-- Scans units. -/
def collect (c : Conventions) (units : List SourceUnit) : Pass m (List Definition) := do
  let findings := units.map (Scan.findings c)
  Pass.logAll (findings.flatMap fun found => (successesBefore found).map definitionFound)
  let definitions ← Pass.ofExcept (findings.mapM (·.mapM id))
  let definitions := definitions.flatten
  Pass.log (finished "collected annotated definitions"
    [("units", units.length), ("definitions", definitions.length)])
  return definitions

/-- Groups definitions. -/
def group (definitions : List Definition) : Pass m (List Group) := do
  let groups := (Group.partition definitions).map Group.checked
  Pass.logAll ((successesBefore groups).map groupFormed)
  let groups ← Pass.ofExcept (groups.mapM id)
  Pass.log (finished "grouped definitions" [("groups", groups.length)])
  return groups

/-- Resolves groups. -/
def resolve (groups : List Group) : Pass m (List Resolution) := do
  let resolutions := groups.map Resolution.ofGroup
  Pass.logAll ((successes resolutions).map groupResolved)
  let resolutions ← Pass.ofExcept (resolutions.mapM id)
  Pass.log (finished "resolved groups" [("groups", resolutions.length)])
  return resolutions

/-- Renders the artifacts of resolutions. -/
def render (resolutions : List Resolution) : Pass m (List Artifact) := do
  let artifacts := resolutions.map Artifact.ofResolution
  Pass.logAll ((successes artifacts).map artifactRendered)
  let artifacts ← Pass.ofExcept (artifacts.mapM id)
  Pass.log (finished "rendered artifacts" [("artifacts", artifacts.length)])
  return artifacts

/-- The resolutions of units. -/
def resolveUnits (c : Conventions) (units : List SourceUnit) : Pass m (List Resolution) := do
  Pass.log (finished "scanning compilation units" [("units", units.length)])
  resolve (← group (← collect c units))

/-- The resolutions of the configured roots. -/
def check (config : Config) : Pass m (List Resolution) := do
  resolveUnits config.conventions (← Discovery.discover config.roots)

/-- The plan for the configured roots. -/
def plan (config : Config) : Pass m Plan := do
  let units ← Discovery.discover config.roots
  let resolutions ← resolveUnits config.conventions units
  let artifacts ← render resolutions
  return ⟨units.length, resolutions, artifacts⟩

/-- The outcome of a pass that has written its output. -/
structure Report where
  units : Nat
  groups : Nat
  output : Written
  deriving Repr, DecidableEq

/-- Writes what is planned for the configured roots. -/
def generate (config : Config) : Pass m Report := do
  let plan ← plan config
  let output ← Output.write config.outDir config.indexFile plan.artifacts
  Pass.log (finished "generation complete"
    [("units", plan.units), ("groups", plan.resolutions.length),
      ("written", output.written.length)])
  return ⟨plan.units, plan.resolutions.length, output⟩

end Generation

namespace BuildStep

/-- The configuration of a pass that runs as a part of a build. When no output directory is configured, that of the build is
taken, if there is one. -/
def configured (config : Config) (buildDirectory : Option String) : Config :=
  if config.outDir.isEmpty then { config with outDir := buildDirectory.getD "" } else config

/-- The lines that ask the build to run the pass again when a source root changes. -/
def requests (config : Config) : List String :=
  config.roots.map fun root => "cargo:rerun-if-changed=" ++ root.path

end BuildStep

end Forwarding
