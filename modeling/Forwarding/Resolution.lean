import Forwarding.Compatibility
import Forwarding.Group
/-!
Resolutions: a group in the order of descending priority. The first definition wins, and every other
one is compatible with it.
-/

namespace Forwarding

/-- A resolved group. -/
structure Resolution where
  name : String
  winner : Definition
  /-- The other definitions, by descending priority. -/
  others : List Definition
  deriving Repr, DecidableEq

namespace Resolution

/-- All definitions, by descending priority. -/
def chain (r : Resolution) : List Definition :=
  r.winner :: r.others

/-- The order by descending priority. -/
def byRank (a b : Definition) : Bool :=
  decide (b.priority ≤ a.priority)

/-- The definitions of a group in their order. -/
def rank (g : Group) : Resolution :=
  let ranked := sortBy byRank g.members
  ⟨g.name, ranked.headD g.first, ranked.tail⟩

/-- The failure of a resolution in which a definition is not compatible with the winner. -/
def misfit? (r : Resolution) : Option Failure :=
  r.others.findSome? fun member =>
    (r.winner.mismatch? member).map fun mismatch =>
      .signatureMismatch r.name r.winner.location member.location mismatch

/-- Resolves a group. -/
def ofGroup (g : Group) : Except Failure Resolution :=
  match (rank g).misfit? with
  | some failure => .error failure
  | none => .ok (rank g)

/-- Resolves groups; the first failure in their order is reported. -/
def ofGroups (groups : List Group) : Except Failure (List Resolution) :=
  groups.mapM ofGroup

end Resolution

end Forwarding
