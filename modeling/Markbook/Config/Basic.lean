import Markbook.Dialect.Basic
import Markbook.Log.Filter
import Markbook.Path
import Markbook.Status
import Markbook.TextMap
import Markbook.Toml.Write

/-!
# Settings

The settings of a workspace: where its documents are, its status table, the defaults for new
entities, and logging.  `Config.issues` says what does not make sense about them, `Config.toml`
writes them down.
-/

namespace Markbook

structure LogConfig where
  level : Text
  format : Text
  output : Text
  /-- Where the log goes when the output is a file. -/
  file : Path
  color : Bool
  /-- Level for each of some targets. -/
  modules : Fields

def LogConfig.standard : LogConfig where
  level := "warn"
  format := "text"
  output := "stderr"
  file := ".docket/docket.log"
  color := true
  modules := TextMap.empty

structure Config where
  root : Option Path
  /-- Statuses with their forms, in table order.  None means the built-in table. -/
  statuses : List (Text × List Text)
  /-- Heading level of new entities. -/
  level : Nat
  /-- Dialect of new entities. -/
  dialect : Dialect
  logging : LogConfig

namespace Config

def standard : Config := ⟨none, [], 2, .colons, .standard⟩

/-- The status table that the settings describe. -/
def statusTable (c : Config) : StatusTable :=
  if c.statuses.isEmpty then .builtIn else ⟨c.statuses⟩

/-! ## Issues -/

/-- What does not make sense about the logging settings. -/
inductive LogIssue where
  | level (s : Text)
  | format (s : Text)
  | output (s : Text)
  | directive (target level : Text) (fault : Log.DirectiveFault)
deriving DecidableEq, Repr

namespace LogIssue

def message : LogIssue → Text
  | .level s => "Invalid log level: ".toList ++ s
  | .format s => "Invalid log format: ".toList ++ s
  | .output s =>
    "Invalid log output: ".toList ++ s ++ " (must be 'stdout', 'stderr' or 'file')".toList
  | .directive t l e =>
    "Invalid log directive '".toList ++ t ++ '=' :: l ++ "': ".toList ++ e.message

end LogIssue

inductive StatusIssue where
  | emptyName
  | noForm
  | emptyForm
  | repeated
deriving DecidableEq, Repr

namespace StatusIssue

def message : StatusIssue → Text
  | .emptyName => "canonical name cannot be empty"
  | .noForm => "at least one representation is required"
  | .emptyForm => "representations cannot be empty strings"
  | .repeated => "defined more than once"

end StatusIssue

inductive Issue where
  | status (name : Text) (issue : StatusIssue)
  | headingLevel (n : Nat)
  | logging (issue : LogIssue)
deriving DecidableEq, Repr

namespace Issue

def message : Issue → Text
  | .status n i => "Status '".toList ++ n ++ "': ".toList ++ i.message
  | .headingLevel n =>
    "Create: heading_level must be between 1 and 6, got ".toList ++ Decimal.digitsOf n
  | .logging i => "Logging: Configuration error: ".toList ++ i.message

end Issue

def isHeadingLevel (n : Nat) : Bool := 1 ≤ n && n ≤ 6

/-- The issues of the statuses; `seen` are the names before them. -/
def statusIssues (seen : List Text) : List (Text × List Text) → List Issue
  | [] => []
  | (name, forms) :: r =>
    if (Text.trim name).isEmpty then .status name .emptyName :: statusIssues seen r
    else
      let found :=
        (if forms.isEmpty then [StatusIssue.noForm] else []) ++
        (if forms.any List.isEmpty then [StatusIssue.emptyForm] else []) ++
        (if seen.contains name then [StatusIssue.repeated] else [])
      found.map (Issue.status name) ++ statusIssues (name :: seen) r

/-- Reads the directive for one target. -/
def directive (target level : Text) : Except LogIssue Log.Directive :=
  match Log.Directive.read (target ++ '=' :: level) with
  | .ok d => .ok d
  | .error e => .error (.directive target level e)

def isOutput (s : Text) : Bool := Text.isOneOf s ["stdout", "stderr", "file"]

/-- The first issue of the logging settings. -/
def logIssue? (c : LogConfig) : Option LogIssue :=
  if !Text.isOneOf c.level ["trace", "debug", "info", "warn", "error", "off"] then
    some (.level c.level)
  else if !Text.isOneOf c.format ["text", "json"] then some (.format c.format)
  else if !isOutput c.output then some (.output c.output)
  else
    c.modules.entries.findSome? fun e ↦
      match directive e.1 e.2 with
      | .ok _ => none
      | .error i => some i

/-- Everything that does not make sense, of the logging settings only the first. -/
def issues (c : Config) : List Issue :=
  (if isHeadingLevel c.level then [] else [.headingLevel c.level]) ++
    statusIssues [] c.statuses ++ ((logIssue? c.logging).map Issue.logging).toList

/-! ## Writing -/

/-- A header, with a blank line before it unless it is the first line. -/
def header (before : Text) (line : String) : Text :=
  (if before.isEmpty then [] else ['\n']) ++ line.toList ++ ['\n']

def statusText (before : Text) (s : Text × List Text) : Text :=
  before ++ header before "[[statuses]]" ++ Toml.entryLine "canonical" (Toml.quoted s.1) ++
    Toml.entryLine "representations" (Toml.listText s.2)

/-- The settings as TOML. -/
def toml (c : Config) : Text :=
  let l := c.logging
  let top :=
    (match c.root with
      | some p => Toml.entryLine "root" (Toml.quoted p.text)
      | none => []) ++
    (if c.statuses.isEmpty then Toml.entryLine "statuses" ['[', ']'] else [])
  let top := c.statuses.foldl statusText top
  top ++ header top "[create]" ++
    Toml.entryLine "heading_level" (Decimal.digitsOf c.level) ++
    Toml.entryLine "format" (Toml.quoted c.dialect.tag) ++
    header top "[logging]" ++
    Toml.entryLine "level" (Toml.quoted l.level) ++
    Toml.entryLine "format" (Toml.quoted l.format) ++
    Toml.entryLine "output" (Toml.quoted l.output) ++
    Toml.entryLine "file" (Toml.quoted l.file.text) ++
    Toml.entryLine "color" (if l.color then "true" else "false") ++
    header top "[logging.modules]" ++
    l.modules.entries.flatMap fun e ↦ Toml.entryLine e.1 (Toml.quoted e.2)

end Config

end Markbook
