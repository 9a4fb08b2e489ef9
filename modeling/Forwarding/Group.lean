import Forwarding.Failure
/-!
Groups: all definitions of one logical name. Their priorities differ.
-/

namespace Forwarding

/-- Definitions of one name. There is at least one. -/
structure Group where
  name : String
  first : Definition
  others : List Definition
  deriving Repr, DecidableEq

namespace Group

/-- All definitions of a group. -/
def members (g : Group) : List Definition :=
  g.first :: g.others

/-- Adds a definition to groups in the order of their names. -/
def insert (d : Definition) : List Group → List Group
  | [] => [⟨d.name, d, []⟩]
  | g :: rest =>
    if d.name < g.name then ⟨d.name, d, []⟩ :: g :: rest
    else if d.name = g.name then { g with others := g.others ++ [d] } :: rest
    else g :: insert d rest

/-- The definitions of each name, in the order of the names. -/
def partition (definitions : List Definition) : List Group :=
  definitions.foldl (fun groups d => insert d groups) []

/-- The order by priority; the place decides between equal priorities. -/
def byPriority (a b : Definition) : Bool :=
  if a.priority = b.priority then (a.location.compare b.location).isLE
  else decide (a.priority < b.priority)

/-- The first two neighbours of equal priority. -/
def clash? : List Definition → Option (Definition × Definition)
  | a :: b :: rest => if a.priority = b.priority then some (a, b) else clash? (b :: rest)
  | _ => none

/-- The failure of a group in which two definitions have the same priority. -/
def conflict? (g : Group) : Option Failure :=
  (clash? (sortBy byPriority g.members)).map fun (a, b) =>
    .duplicatePriority g.name a.priority a.location b.location

/-- A group, unless two of its definitions have the same priority. -/
def checked (g : Group) : Except Failure Group :=
  match g.conflict? with
  | some failure => .error failure
  | none => .ok g

/-- Groups definitions by name, in the order of the names. -/
def ofDefinitions (definitions : List Definition) : Except Failure (List Group) :=
  (partition definitions).mapM checked

end Group

end Forwarding
