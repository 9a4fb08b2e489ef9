import Forwarding.Event
import Forwarding.Failure
/-!
The surroundings of a pass: the files that it reads and writes, and the log. A pass is written
against any monad that offers them.
-/

namespace Forwarding

/-- What a path leads to. -/
inductive PathKind where
  | file
  | directory
  deriving Repr, DecidableEq

/-- Files and a log. Operations on files are refused with an error and then change nothing. -/
class Host (m : Type → Type) where
  /-- What a path leads to; nothing when it leads nowhere. -/
  kind? : String → m (Option PathKind)
  /-- The bytes of a file. -/
  read : String → m (Except FileError ByteArray)
  /-- The names that lead from a directory to each file at any depth below it. The entries of a
  directory are visited in the order of their names. -/
  filesBelow : String → m (List (List String))
  /-- Creates a directory in a directory that exists. -/
  createDirectory : String → m (Except FileError Unit)
  /-- Creates a file or replaces its bytes. -/
  write : String → ByteArray → m (Except FileError Unit)
  /-- Moves a file, and replaces the file at the target. -/
  move : String → String → m (Except FileError Unit)
  /-- Removes a file. -/
  remove : String → m (Except FileError Unit)
  log : Event → m Unit

/-- A computation that a failure ends. -/
abbrev Pass (m : Type → Type) (α : Type) := ExceptT Failure m α

namespace Pass

variable {m : Type → Type} {α : Type} [Monad m] [Host m]

/-- Tells of an event. -/
def log (event : Event) : Pass m Unit :=
  ExceptT.lift (Host.log event)

/-- Tells of events. -/
def logAll : List Event → Pass m Unit
  | [] => pure ()
  | event :: rest => do
    log event
    logAll rest

/-- A result that is known already. -/
def ofExcept (result : Except Failure α) : Pass m α :=
  ExceptT.mk (pure result)

end Pass

end Forwarding
