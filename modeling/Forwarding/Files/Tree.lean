import Forwarding.Failure
/-!
File trees: regular files and directories below a working directory. Paths are looked up from there.
Two dots lead to the parent of a directory that exists; absolute paths lead nowhere.
-/

namespace Forwarding

/-- What is found at a place. -/
inductive Entry where
  | directory
  | file (bytes : ByteArray)

instance : DecidableEq Entry
  | .directory, .directory => .isTrue rfl
  | .directory, .file _ => .isFalse nofun
  | .file _, .directory => .isFalse nofun
  | .file a, .file b =>
    decidable_of_decidable_of_iff (p := a.data = b.data) (by rw [Entry.file.injEq, ByteArray.ext_iff])

/-- A file tree: the entries below the working directory by the names that lead to them, in
increasing order. -/
structure FileTree where
  entries : List (List String × Entry)
  deriving DecidableEq

namespace FileTree

/-- The tree without any entries. -/
def empty : FileTree := ⟨[]⟩

/-- What is found at a place. The working directory is always there. -/
def get? (t : FileTree) (place : List String) : Option Entry :=
  if place = [] then some .directory else t.entries.lookup place

/-- Puts an entry among entries. -/
def putEntry (place : List String) (entry : Entry) :
    List (List String × Entry) → List (List String × Entry)
  | [] => [(place, entry)]
  | (other, found) :: rest =>
    if place < other then (place, entry) :: (other, found) :: rest
    else if place = other then (place, entry) :: rest
    else (other, found) :: putEntry place entry rest

/-- Puts an entry at a place. -/
def put (t : FileTree) (place : List String) (entry : Entry) : FileTree :=
  ⟨putEntry place entry t.entries⟩

/-- Takes the entry at a place away. -/
def erase (t : FileTree) (place : List String) : FileTree :=
  ⟨t.entries.filter fun (other, _) => other != place⟩

/-- Takes everything at and below a place away. -/
def prune (t : FileTree) (place : List String) : FileTree :=
  ⟨t.entries.filter fun (other, _) => !place.isPrefixOf other⟩

/-- The place that a name leads to from a place, which has to be a directory. -/
def follow (t : FileTree) (place : List String) (name : String) : Except FileError (List String) :=
  match t.get? place with
  | none => .error .notFound
  | some (.file _) => .error .notADirectory
  | some .directory =>
    .ok (if name = "" || name = "." then place
      else if name = ".." then place.dropLast
      else place ++ [name])

/-- The place that a path leads to. Everything on the way has to exist, the place itself does
not. -/
def locate (t : FileTree) (path : String) : Except FileError (List String) :=
  if path.isEmpty || path.toList.head? == some '/' then .error .notFound
  else (Path.parts path).foldlM (follow t) []

/-- What a path leads to. -/
def find (t : FileTree) (path : String) : Except FileError Entry := do
  match t.get? (← t.locate path) with
  | some entry => return entry
  | none => throw .notFound

/-- The bytes of a file. -/
def read (t : FileTree) (path : String) : Except FileError ByteArray := do
  match ← t.find path with
  | .file bytes => return bytes
  | .directory => throw .isADirectory

/-- Whether a path ends in a slash. -/
def endsInSlash (path : String) : Bool :=
  path.toList.getLast? == some '/'

/-- A path without the slashes at its end. -/
def withoutSlashes (path : String) : String :=
  String.ofList (path.toList.reverse.dropWhile (· == '/')).reverse

/-- Creates a directory in one that exists. -/
def createDirectory (t : FileTree) (path : String) : Except FileError FileTree := do
  let place ← t.locate (withoutSlashes path)
  match t.get? place with
  | some _ => throw .alreadyExists
  | none => return t.put place .directory

/-- Creates or replaces a file. -/
def write (t : FileTree) (path : String) (bytes : ByteArray) : Except FileError FileTree := do
  let place ← t.locate path
  match t.get? place with
  | some .directory => throw .isADirectory
  | _ => return t.put place (.file bytes)

/-- Removes a file. -/
def remove (t : FileTree) (path : String) : Except FileError FileTree := do
  let place ← t.locate path
  match t.get? place with
  | none => throw .notFound
  | some .directory => throw .isADirectory
  | some (.file _) => return t.erase place

/-- Moves a file; a file at the target is replaced. -/
def move (t : FileTree) (source target : String) : Except FileError FileTree := do
  let origin ← t.locate source
  let place ← t.locate target
  match t.get? origin with
  | none => throw .notFound
  | some .directory => throw .isADirectory
  | some (.file bytes) =>
    if endsInSlash target then throw .notADirectory
    match t.get? place with
    | some .directory => throw .isADirectory
    | _ => return (t.erase origin).put place (.file bytes)

/-- The names that lead from a directory to each file below it, in their order. -/
def filesBelow (t : FileTree) (place : List String) : List (List String) :=
  t.entries.filterMap fun (other, entry) =>
    match entry with
    | .file _ => if place.isPrefixOf other then some (other.drop place.length) else none
    | .directory => none

/-- A line for every entry: directories end in a slash, files are given with their size. -/
def listing (t : FileTree) : List String :=
  t.entries.map fun (place, entry) =>
    let path := "/".intercalate place
    match entry with
    | .directory => path ++ "/"
    | .file bytes => path ++ " " ++ toString bytes.size

theorem lookup_putEntry_self (place : List String) (entry : Entry)
    (entries : List (List String × Entry)) :
    (putEntry place entry entries).lookup place = some entry := by
  induction entries with
  | nil => simp [putEntry]
  | cons first rest ih =>
    obtain ⟨other, found⟩ := first
    unfold putEntry
    split
    · simp
    · split
      · simp
      · rename_i different
        have distinct : (place == other) = false := by simpa using different
        simp [List.lookup_cons, distinct, ih]

theorem lookup_putEntry_of_ne {place other : List String} (different : other ≠ place)
    (entry : Entry) (entries : List (List String × Entry)) :
    (putEntry place entry entries).lookup other = entries.lookup other := by
  have distinct : (other == place) = false := by simpa using different
  induction entries with
  | nil => simp [putEntry, List.lookup_cons, distinct]
  | cons first rest ih =>
    obtain ⟨key, found⟩ := first
    unfold putEntry
    split
    · simp only [List.lookup_cons, distinct]
    · split
      · rename_i same
        subst same
        simp only [List.lookup_cons, distinct]
      · simp only [List.lookup_cons, ih]

/-- A place holds what was put there last. -/
theorem get?_put_self (t : FileTree) {place : List String} (named : place ≠ [])
    (entry : Entry) : (t.put place entry).get? place = some entry := by
  simp [get?, put, named, lookup_putEntry_self]

/-- Putting an entry changes no other place. -/
theorem get?_put_of_ne (t : FileTree) {place other : List String} (different : other ≠ place)
    (entry : Entry) : (t.put place entry).get? other = t.get? other := by
  simp [get?, put, lookup_putEntry_of_ne different]

end FileTree

end Forwarding
