import Markbook.Config.Basic
import Markbook.Disk
import Markbook.Instant
import Markbook.Json.Basic

/-!
# Log Plans

A plan says which events are logged, in which form and where to.  It is made from the logging
settings; variables of the environment win over them.
-/

namespace Markbook.Log

/-! ## Lines of a log -/

inductive Form where
  | text
  | json
deriving DecidableEq, Repr

/-- A text in a mode of the terminal, when modes are used. -/
def styled (color : Bool) (mode : String) (s : Text) : Text :=
  if color then '\x1b' :: '[' :: mode.toList ++ 'm' :: s ++ "\x1b[0m".toList else s

/-- The terminal mode for the name of a level. -/
def Level.mode : Level → String
  | .error => "31"
  | .warn => "33"
  | .info => "32"
  | .debug => "34"
  | .trace => "35"

/-- Names of levels take five columns. -/
def Level.padded (l : Level) : Text := List.replicate (5 - l.name.length) ' ' ++ l.name

namespace Event

def timeText (now : Instant) : Text := (Instant.text? now).getD []

def json (now : Instant) (e : Event) : Json :=
  .obj [("timestamp", .str (timeText now)), ("level", .str e.level.name),
    ("fields", .obj [("message", .str e.message)]), ("target", .str e.target)]

/-- The line of an event. -/
def line (form : Form) (color : Bool) (now : Instant) (e : Event) : Text :=
  match form with
  | .json => (e.json now).compact ++ ['\n']
  | .text =>
    styled color "2" (timeText now) ++ ' ' :: styled color e.level.mode e.level.padded ++
      ' ' :: styled color "2" e.target ++ styled color "2" [':'] ++ ' ' :: e.message ++ ['\n']

end Event

/-! ## Plans -/

/-- Where a log goes. -/
inductive Sink where
  | output
  | errors
  | file (path : Path)
deriving Repr

structure Plan where
  filter : Filter
  form : Form
  color : Bool
  sink : Sink

/-- Why a log cannot be set up. -/
inductive PlanFault where
  | directive (issue : Config.LogIssue)
  | form (s : Text)
  | sink (s : Text)
  | disk (path : Path) (cause : Disk.Trouble)
deriving Repr

def PlanFault.message : PlanFault → Text
  | .directive i => "Configuration error: ".toList ++ i.message
  | .form s =>
    "Configuration error: Invalid log format: ".toList ++ s ++
      " (must be 'json' or 'text')".toList
  | .sink s => "Configuration error: ".toList ++ (Config.LogIssue.output s).message
  | .disk p c => "I/O error on ".toList ++ p.text ++ ':' :: ' ' :: c.message

namespace Plan

/-- Variables of the environment. -/
abbrev Variables := List (Text × Text)

def lookUp (v : Variables) (name : String) : Option Text :=
  (v.find? fun e ↦ e.1 = name.toList).map (·.2)

/-- Directives for targets, given as target and level with an equals sign between them.  Anything
else in the list is passed over. -/
def targetDirectives (s : Text) : Except Config.LogIssue (List Directive) :=
  let pairs := (Text.pieces ',' s).filterMap (Text.cut? ['='])
  pairs.mapM fun p ↦ Config.directive (Text.trim p.1) (Text.trim p.2)

/-- The filter of the settings, with what is said of directives that are passed over. -/
def settingsFilter (v : Variables) (c : LogConfig) : List Text × Except Config.LogIssue Filter :=
  if c.level = "off".toList then ([], .ok .off)
  else
    (Filter.complaints c.level, do
      let own ← c.modules.entries.mapM fun e ↦ Config.directive e.1 e.2
      let more ← targetDirectives ((lookUp v "DOCKET_LOG_MODULES").getD [])
      return ((Filter.readLossy c.level).add own).add more)

/-- The filter in the environment, if it is well-formed, else that of the settings. -/
def filterOf (v : Variables) (c : LogConfig) : List Text × Except Config.LogIssue Filter :=
  match (lookUp v "DOCKET_LOG").bind Filter.read? with
  | some f => ([], .ok f)
  | none => settingsFilter v c

def form? (s : Text) : Option Form :=
  if s = "text".toList then some .text else if s = "json".toList then some .json else none

/-- The form in the environment, if it is one, else that of the settings. -/
def formOf (v : Variables) (c : LogConfig) : Except PlanFault Form :=
  match ((lookUp v "DOCKET_LOG_FORMAT").bind form?).or (form? c.format) with
  | some f => .ok f
  | none => .error (.form c.format)

/-- The sink in the environment, else that of the settings. -/
def sinkOf (v : Variables) (c : LogConfig) : Except PlanFault Sink :=
  let s := (lookUp v "DOCKET_LOG_OUTPUT").getD c.output
  if s = "stdout".toList then .ok .output
  else if s = "stderr".toList then .ok .errors
  else if s = "file".toList then .ok (.file c.file)
  else .error (.sink s)

/-- Makes the folder around a log file. -/
def makeParent (d : Disk) (p : Path) : Except PlanFault Disk :=
  match p.parent? with
  | none => .ok d
  | some dir =>
    match d.makeFoldersFor dir with
    | .ok d => .ok d
    | .error e => .error (.disk dir e)

/-- Makes sure that there is a log file, if the log goes to one. -/
def openSink (d : Disk) : Sink → Except PlanFault Disk
  | .file p =>
    match makeParent d p with
    | .error f => .error f
    | .ok d =>
      match d.append p [] with
      | .ok d => .ok d
      | .error e => .error (.disk p e)
  | _ => .ok d

/-- Are the lines coloured?  Those of a file never are. -/
def isColored (c : LogConfig) : Sink → Bool
  | .file _ => false
  | _ => c.color

/-- Makes a plan, with what is said of directives that are passed over, and opens the log file. -/
def make (d : Disk) (v : Variables) (c : LogConfig) : List Text × Except PlanFault (Plan × Disk) :=
  let (complaints, filter) := filterOf v c
  (complaints, do
    let filter ← filter.mapError PlanFault.directive
    let form ← formOf v c
    let sink ← sinkOf v c
    return (⟨filter, form, isColored c sink, sink⟩, ← openSink d sink))

/-- The lines of the events that pass the filter. -/
def lines (plan : Plan) (now : Instant) (l : List Event) : Text :=
  (l.filter plan.filter.admits).flatMap (Event.line plan.form plan.color now)

end Plan

end Markbook.Log
