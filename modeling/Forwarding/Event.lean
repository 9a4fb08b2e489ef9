/-!
Events: what a pass tells about its progress.
-/

namespace Forwarding

/-- How important an event is. -/
inductive Level where
  | debug
  | info
  | warning
  | error
  deriving Repr, DecidableEq

/-- The name of a level. -/
def Level.name : Level → String
  | debug => "DEBUG"
  | info => "INFO"
  | warning => "WARN"
  | error => "ERROR"

/-- A message with named values. -/
structure Event where
  level : Level
  message : String
  fields : List (String × String) := []
  deriving Repr, DecidableEq

/-- The line that tells of an event. -/
def Event.render (e : Event) : String :=
  e.level.name ++ " " ++ e.message
    ++ String.join (e.fields.map fun (name, value) => " " ++ name ++ "=" ++ value)

end Forwarding
