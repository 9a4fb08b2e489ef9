import Forwarding.Generation
import Forwarding.Json
/-!
The command line: three commands over source roots. `generate` writes the output, `check` stops
before anything is rendered, and `plan` prints the outcome of every group.
-/

namespace Forwarding

/-- A command with its configuration. -/
inductive Command where
  | generate (config : Config)
  | check (config : Config)
  | plan (config : Config)
  deriving Repr, DecidableEq

/-- Why a command line is not run. -/
inductive UsageError where
  | invalidSubcommand
  | help
  | helpOnMissing
  | missingRequired
  | unknownArgument
  | conflict
  | invalidValue
  | valueValidation
  | tooManyValues
  deriving Repr, DecidableEq

namespace UsageError

/-- The name of the kind of an error. -/
def kind : UsageError → String
  | invalidSubcommand => "InvalidSubcommand"
  | help => "DisplayHelp"
  | helpOnMissing => "DisplayHelpOnMissingArgumentOrSubcommand"
  | missingRequired => "MissingRequiredArgument"
  | unknownArgument => "UnknownArgument"
  | conflict => "ArgumentConflict"
  | invalidValue => "InvalidValue"
  | valueValidation => "ValueValidation"
  | tooManyValues => "TooManyValues"

/-- The exit code of the program. Only a request for help is no error. -/
def exitCode : UsageError → UInt8
  | help => 0
  | _ => 2

end UsageError

namespace CommandLine

/-- The name of a command. -/
inductive Verb where
  | generate
  | check
  | plan
  deriving Repr, DecidableEq

/-- The command of a name. -/
def Verb.ofText? : String → Option Verb
  | "generate" => some generate
  | "check" => some check
  | "plan" => some plan
  | _ => none

/-- An option. Every option takes a value. -/
inductive Choice where
  | root
  | mark
  | constructor
  | outDir
  | indexFile
  deriving Repr, DecidableEq

/-- The option of a command by its name. -/
def Choice.ofText? : Verb → String → Option Choice
  | _, "root" => some root
  | _, "attribute" => some mark
  | _, "constructor" => some constructor
  | .generate, "out-dir" => some outDir
  | .generate, "index-file" => some indexFile
  | _, _ => none

/-- What has been given so far. -/
structure Given where
  roots : List SourceRoot := []
  mark : Option String := none
  constructor : Option String := none
  outDir : Option String := none
  indexFile : Option String := none
  deriving Repr, DecidableEq

/-- Gives an option a value. Only roots are given more than once. -/
def Given.set (g : Given) (value : String) : Choice → Except UsageError Given
  | .root =>
    match SourceRoot.ofText value with
    | .ok root => .ok { g with roots := g.roots ++ [root] }
    | .error _ => .error .valueValidation
  | .mark => if g.mark.isSome then .error .conflict else .ok { g with mark := some value }
  | .constructor =>
    if g.constructor.isSome then .error .conflict else .ok { g with constructor := some value }
  | .outDir =>
    if g.outDir.isSome then .error .conflict
    else if value.isEmpty then .error .invalidValue
    else .ok { g with outDir := some value }
  | .indexFile =>
    if g.indexFile.isSome then .error .conflict else .ok { g with indexFile := some value }

/-- An option that is being read. Its value is checked when the next option begins or the arguments
end, not before. -/
inductive Pending where
  | nothing
  | awaiting (choice : Choice)
  | valued (choice : Choice) (value : String)
  deriving Repr, DecidableEq

/-- Finishes the option that is being read. -/
def Given.settle (g : Given) : Pending → Except UsageError Given
  | .nothing => .ok g
  | .awaiting _ => .error .invalidValue
  | .valued choice value => g.set value choice

/-- How an argument reads. -/
inductive Shape where
  /-- Two dashes: nothing after them is an option. -/
  | escape
  /-- A long option, possibly with a value after an equals sign. -/
  | long (name : String) (value : Option String)
  /-- Options of one letter. -/
  | short (letters : List Char)
  | plain
  deriving Repr, DecidableEq

/-- The shape of an argument. -/
def Shape.of (argument : String) : Shape :=
  match argument.toList with
  | ['-', '-'] => .escape
  | '-' :: '-' :: rest =>
    let (name, value) := SourceRoot.cut rest
    .long (String.ofList name) (value.map String.ofList)
  | ['-'] => .plain
  | '-' :: letters => .short letters
  | _ => .plain

/-- What an option of one letter asks for. -/
def shortOption {α : Type} : List Char → Except UsageError α
  | 'h' :: _ => .error .help
  | _ => .error .unknownArgument

/-- What a long option asks for that no command has. -/
def commonOption {α : Type} (name : String) (value : Option String) : Except UsageError α :=
  if name = "help" then
    if value.isSome then .error .tooManyValues else .error .help
  else .error .unknownArgument

/-- Whether options of one letter begin with a request for help. -/
def asksHelp : Shape → Bool
  | .long "help" none => true
  | .short ('h' :: _) => true
  | _ => false

/-- Reads the options of a command. -/
def readOptions (verb : Verb) (given : Given) (pending : Pending) :
    List String → Except UsageError Given
  | [] => given.settle pending
  | argument :: rest =>
    let shape := Shape.of argument
    if asksHelp shape then do
      let _ ← given.settle pending
      throw .help
    else match shape with
    | .escape => if rest.isEmpty then given.settle pending else .error .unknownArgument
    | .long name value =>
      match Choice.ofText? verb name, value with
      | some choice, some value => do
        let given ← given.settle pending
        let given ← given.set value choice
        readOptions verb given .nothing rest
      | some choice, none => do
        let given ← given.settle pending
        readOptions verb given (.awaiting choice) rest
      | none, value => commonOption name value
    | .short letters => shortOption letters
    | .plain =>
      match pending with
      | .awaiting choice => readOptions verb given (.valued choice argument) rest
      | _ => .error .unknownArgument

/-- The command that the options of a verb make up. -/
def Given.command (g : Given) (verb : Verb) : Except UsageError Command :=
  let standard : Config := {}
  let config := { standard with
    roots := g.roots
    conventions := ⟨g.mark.getD standard.conventions.mark,
      g.constructor.getD standard.conventions.constructor⟩ }
  if g.roots.isEmpty then .error .missingRequired
  else match verb with
  | .check => .ok (.check config)
  | .plan => .ok (.plan config)
  | .generate =>
    match g.outDir with
    | none => .error .missingRequired
    | some outDir =>
      .ok (.generate { config with
        outDir
        indexFile := g.indexFile.getD standard.indexFile })

/-- What a request for help about some commands leads to. -/
def helpAbout : List String → UsageError
  | [] => .help
  | [name] =>
    if (Verb.ofText? name).isSome || name = "help" then .help else .invalidSubcommand
  | _ => .invalidSubcommand

/-- Reads a command line, without the name of the program. -/
def parse : List String → Except UsageError Command
  | [] => .error .helpOnMissing
  | argument :: rest =>
    match Verb.ofText? argument with
    | some verb => do (← readOptions verb {} .nothing rest).command verb
    | none =>
      if argument = "help" then .error (helpAbout rest)
      else match Shape.of argument with
      | .long name value => commonOption name value
      | .short letters => shortOption letters
      | .plain => .error .invalidSubcommand
      | .escape =>
        match rest with
        | [] => .error .helpOnMissing
        | next :: _ =>
          if (Verb.ofText? next).isSome || next = "help" then .error .unknownArgument
          else .error .invalidSubcommand

/-- A location as JSON. -/
def locationJson (l : Location) : Json :=
  .record [("file", .text l.file), ("line", .integer l.line), ("column", .integer l.column)]

/-- A member of a chain as JSON. -/
def linkJson (link : ChainLink) : Json :=
  .record [("type_path", .text link.typePath), ("priority", .integer link.priority.toInt),
    ("location", locationJson link.location)]

/-- The outcome of a group as JSON. -/
def summaryJson (s : GroupSummary) : Json :=
  .record [("name", .text s.name), ("winner", .text s.winner),
    ("priority", .integer s.priority.toInt), ("file_name", .text s.fileName),
    ("chain", .list (s.chain.map linkJson))]

/-- What `check` tells of a group. -/
def verdict (r : Resolution) : Event :=
  ⟨.info, r.name ++ ": " ++ r.winner.typePath ++ " (priority " ++ toString r.winner.priority.toInt
    ++ ") over " ++ toString r.others.length ++ " other definition(s)", []⟩

/-- What `generate` tells at its end. -/
def closing (report : Generation.Report) : Event :=
  ⟨.info, toString report.groups ++ " group(s) from " ++ toString report.units ++ " unit(s): "
    ++ toString report.output.written.length ++ " file(s) written, "
    ++ toString report.output.unchanged.length ++ " unchanged", []⟩

/-- What is told of a failure: its text, and a line for every place. -/
def report (f : Failure) : List Event :=
  ⟨.error, f.message,
      [("kind", f.kind), ("group", Text.quoteName (f.group.getD "-"))]⟩
    :: f.locations.map fun l => ⟨.error, "  at " ++ l.render, []⟩

variable {m : Type → Type} [Monad m] [Host m]

/-- Runs a command and gives the text to print, if there is one. -/
def run : Command → Pass m (Option String)
  | .generate config => do
    let report ← Generation.generate config
    Pass.log (closing report)
    return none
  | .check config => do
    let resolutions ← Generation.check config
    Pass.logAll (resolutions.map verdict)
    Pass.log ⟨.info, toString resolutions.length ++ " group(s) resolved", []⟩
    return none
  | .plan config => do
    let plan ← Generation.plan config
    return some (Json.list (plan.summary.map summaryJson)).pretty

/-- Runs a command to its end, with a failure told of in the log. -/
def runReported (command : Command) : m (Except Failure (Option String)) := do
  let result ← (run command : Pass m (Option String)).run
  if let .error failure := result then
    for event in report failure do
      Host.log event
  return result

end CommandLine

end Forwarding
