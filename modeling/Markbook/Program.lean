import Markbook.Command.Arguments
import Markbook.Log.Plan
import Markbook.Workspace.Run

/-!
# The Program

One run of the program: the arguments are read, the log is set up, the workspace is opened, and the
command is run.  A run that fails ends with status 1, and with status 2 when the arguments make no
sense.
-/

namespace Markbook

/-- What a run leaves behind. -/
structure Ending where
  status : Nat
  /-- What is written to the output. -/
  output : Text
  /-- What is written to the error output. -/
  errors : Text
  disk : Disk

namespace UsageFault

/-- The text shown for a fault in the arguments. -/
def message : UsageFault → Text
  | .help | .noArguments =>
    "Usage: docket [OPTIONS] <COMMAND>\n\nCommands: scan, list, show, set, create, ".toList ++
      "triggers, tasks, config, help".toList
  | .noCommand => "error: a command is missing"
  | .unknownCommand => "error: there is no such command"
  | .unknownArgument => "error: an argument is not expected here"
  | .conflict => "error: an argument is repeated or excludes another one"
  | .noValue => "error: a value is missing"
  | .strayValue => "error: a value is not expected here"
  | .badValue => "error: a value is not valid"
  | .missingArgument => "error: an argument is missing"

/-- The help text is an answer when it is asked for. -/
def ending (d : Disk) (f : UsageFault) : Ending :=
  let text := f.message ++ ['\n']
  if f = .help then ⟨0, text, [], d⟩ else ⟨2, [], text, d⟩

end UsageFault

namespace Invocation

/-- The logging settings with the choices of the invocation.  A level that is asked for by name wins
over the one that goes with `--verbose`, and that over `--quiet`. -/
def logConfig (i : Invocation) (c : LogConfig) : LogConfig :=
  let level : Text := if i.verbose then "debug" else if i.quiet then "off" else c.level
  { c with
    level := i.logLevel.getD level
    format := i.logFormat.getD c.format
    output := i.logOutput.getD c.output
    file := i.logFile.getD c.file }

def event (level : Log.Level) (message : Text) : Log.Event := ⟨level, "docket", message⟩

/-- Opens the workspace and runs the command.  An error comes with what is to be said of it. -/
def execute (i : Invocation) (d : Disk) (e : Config.Surroundings) (now : Instant) : Outcome :=
  let start := event .info "Docket CLI starting"
  match Workspace.load d e i.root i.settings with
  | (events, .error f) =>
    let said := event .error ("Error loading configuration: ".toList ++ f.message)
    ⟨d, start :: events ++ [said], .error f⟩
  | (events, .ok w) =>
    let o := w.run d now i.command
    let said :=
      match o.answer with
      | .ok _ => event .info "Command completed successfully"
      | .error f => event .error ("Command failed: ".toList ++ f.message)
    { o with events := start :: events ++ o.events ++ [said] }

/-- Puts the lines of the log where they belong. -/
def Ending.log (sink : Log.Sink) (lines : Text) (e : Ending) : Ending :=
  match sink with
  | .output => { e with output := lines ++ e.output }
  | .errors => { e with errors := lines ++ e.errors }
  | .file p => { e with disk := (e.disk.append p lines).toOption.getD e.disk }

/-- Runs the program from its arguments on. -/
def run (i : Invocation) (d : Disk) (e : Config.Surroundings) (now : Instant) : Ending :=
  let settings := (Workspace.settings d e i.root i.settings).result.toOption
  let config := i.logConfig ((settings.map (·.logging)).getD .standard)
  let (complaints, plan) := Log.Plan.make d e.environment config
  let complaints := complaints.flatMap (· ++ ['\n'])
  match plan with
  | .error f =>
    ⟨1, [], complaints ++ "Failed to initialize logging: ".toList ++ f.message ++ ['\n'], d⟩
  | .ok (plan, d) =>
    let o := i.execute d e now
    let ending : Ending :=
      match o.answer with
      | .ok s => ⟨0, s ++ ['\n'], [], o.disk⟩
      | .error f => ⟨1, [], f.advice ++ ['\n'], o.disk⟩
    let ending := Ending.log plan.sink (plan.lines now o.events) ending
    { ending with errors := complaints ++ ending.errors }

end Invocation

/-- One run of the program from its arguments on. -/
def runProgram (d : Disk) (e : Config.Surroundings) (now : Instant) (arguments : List Text) :
    Ending :=
  match Arguments.read arguments with
  | .ok i => i.run d e now
  | .error f => f.ending d

end Markbook
