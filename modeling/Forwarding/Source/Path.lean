import Forwarding.Text.Blank
/-!
File paths as texts. Two texts name the same path when they have the same components: repeated and
trailing slashes do not count, nor does a single dot that is not the first component. Paths are
ordered by their components.
-/

namespace Forwarding

/-- A component of a path. -/
inductive PathComponent where
  | root
  /-- A single dot at the beginning of a path. -/
  | current
  /-- Two dots. -/
  | parent
  | normal (name : String)
  deriving Repr, DecidableEq

namespace PathComponent

/-- The rank of the kind of a component. -/
def rank : PathComponent → Nat
  | root => 0
  | current => 1
  | parent => 2
  | normal _ => 3

/-- The order of components: by kind, and names by their characters. -/
def compare (a b : PathComponent) : Ordering :=
  match a, b with
  | normal x, normal y => Ord.compare x y
  | _, _ => Ord.compare a.rank b.rank

end PathComponent

/-- Splits a list at every separator; there is always one part more than separators. -/
def splitAtEach {α : Type} [BEq α] (separator : α) : List α → List (List α)
  | [] => [[]]
  | a :: rest =>
    let parts := splitAtEach separator rest
    if a == separator then [] :: parts
    else match parts with
      | first :: more => (a :: first) :: more
      | [] => [[a]]

namespace Path

/-- The parts of a path between slashes. -/
def parts (path : String) : List String :=
  (splitAtEach '/' path.toList).map String.ofList

/-- The components of a path. -/
def components (path : String) : List PathComponent :=
  let isAbsolute := path.toList.head? == some '/'
  let startsHere := !isAbsolute && (parts path).head? == some "."
  let rest := (parts path).filterMap fun part =>
    if part = "" || part = "." then none
    else if part = ".." then some PathComponent.parent
    else some (PathComponent.normal part)
  (if isAbsolute then [.root] else []) ++ (if startsHere then [.current] else []) ++ rest

/-- The order of lists of components: the first difference decides. -/
def compareComponents : List PathComponent → List PathComponent → Ordering
  | [], [] => .eq
  | [], _ :: _ => .lt
  | _ :: _, [] => .gt
  | a :: as, b :: bs =>
    match a.compare b with
    | .eq => compareComponents as bs
    | other => other

/-- The order of paths. -/
def compare (a b : String) : Ordering :=
  compareComponents (components a) (components b)

/-- Whether two texts name the same path. -/
def same (a b : String) : Bool :=
  components a == components b

/-- Appends a path to a directory; an absolute path replaces it. -/
def join (directory path : String) : String :=
  if path.toList.head? == some '/' then path
  else if directory.isEmpty || directory.toList.getLast? == some '/' then directory ++ path
  else directory ++ "/" ++ path

/-- The name of the last component, if it is a name. -/
def fileName? (path : String) : Option String :=
  match (components path).getLast? with
  | some (.normal name) => some name
  | _ => none

end Path

end Forwarding
