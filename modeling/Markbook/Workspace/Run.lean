import Markbook.Command.Basic
import Markbook.Config.Load
import Markbook.Store.Projection
import Markbook.Trigger.Block
import Markbook.Workspace.Events
import Markbook.Workspace.Report

/-!
# Running Commands

A workspace is a root folder with its settings.  A command is run on a workspace and a disk; it
leaves a disk behind, and an answer or the cause of its failure.
-/

namespace Markbook

structure Workspace where
  root : Path
  config : Config

/-- What a command leaves behind. -/
structure Outcome where
  disk : Disk
  events : List Log.Event
  answer : Except Failure Text

namespace Workspace

/-- An event of running commands. -/
def event (level : Log.Level) (message : Text) : Log.Event := ⟨level, "docket::cli::route", message⟩

/-- The settings for a root folder, or those in a file that is asked for. -/
def settings (d : Disk) (e : Config.Surroundings) (root file : Option Path) : Config.Loading :=
  match file with
  | some p => Config.loadFile d e p
  | none => Config.load d e (root.getD ".")

/-- The workspace with these settings.  A root folder that is asked for wins over the one in the
settings. -/
def ofConfig (root : Option Path) (c : Config) : Except Failure Workspace :=
  (Config.validated c).map fun c ↦ ⟨(root.or c.root).getD ".", c⟩

/-- Opens a workspace, with the events on the way. -/
def load (d : Disk) (e : Config.Surroundings) (root file : Option Path) :
    List Log.Event × Except Failure Workspace :=
  let loading := settings d e root file
  match loading.result.bind (ofConfig root) with
  | .ok w => (loading.events ++ [event .debug "Run context ready"], .ok w)
  | .error f => (loading.events, .error f)

/-- A path as seen from the root folder. -/
def resolve (w : Workspace) (p : Path) : Path := w.root.join p

/-- The store of all documents below the root folder, with the events on the way. -/
def store (w : Workspace) (d : Disk) : Except Failure (Store × List Log.Event) :=
  let empty := Store.empty w.config.statusTable
  (empty.loadFolder d w.root).map fun p ↦ (p.1, empty.folderEvents d p.2)

/-! ## Commands that only read -/

/-- Answers from what a scan finds. -/
def scan (w : Workspace) (d : Disk) (format : Text) : Outcome :=
  match Store.scan d w.root with
  | .ok l => ⟨d, Store.scanEvents l, .ok (Report.documents (Scan.documents l) w.root format)⟩
  | .error f => ⟨d, [], .error f⟩

/-- Answers from the store. -/
def ask (w : Workspace) (d : Disk) (question : Store → Except Failure Text) : Outcome :=
  match w.store d with
  | .ok (s, events) => ⟨d, events, question s⟩
  | .error f => ⟨d, [], .error f⟩

def list (w : Workspace) (d : Disk) (format : Text) (rootsOnly : Bool) : Outcome :=
  w.ask d fun s ↦ .ok (Report.entities (if rootsOnly then s.roots else s.records) w.root format)

def describe (w : Workspace) (d : Disk) (name format : Text) : Outcome :=
  w.ask d fun s ↦
    match s.get? name with
    | some r => .ok (Report.entity r w.root format)
    | none => .error (.unknownEntity name)

def tasks (w : Workspace) (d : Disk) : Outcome :=
  w.ask d fun s ↦ .ok (Json.arr (s.tasks.map Task.json)).pretty

/-- The trigger rules in a file. -/
def triggerReport (w : Workspace) (d : Disk) (file : Path) (format : Text) : Except Failure Text :=
  let path := w.resolve file
  match d.read path with
  | .error e => .error (.disk path e)
  | .ok s =>
    match Trigger.blocks s with
    | .error f => .error (.trigger f)
    | .ok l =>
      .ok <|
        if Report.isJson format then (Json.arr (l.map Trigger.Block.json)).pretty
        else Trigger.listing l

/-! ## Commands that write -/

/-- Sets a field and writes the entity back to its primary file. -/
def set (w : Workspace) (d : Disk) (now : Instant) (name field value : Text) : Outcome :=
  match w.store d with
  | .error f => ⟨d, [], .error f⟩
  | .ok (s, events) =>
    match s.setField name field value now with
    | .error f => ⟨d, events, .error f⟩
    | .ok s =>
      let events := events ++ [Store.storeEvent .debug "Set field"]
      match s.writeBackOne d name with
      | .error f => ⟨d, events, .error f⟩
      | .ok (written, d) =>
        let (event, target) : Log.Event × Text :=
          match written with
          | some p => (Store.storeEvent .info "Wrote back entities", p.text)
          | none =>
            (Store.storeEvent .warn "Primary file missing, skipping write-back",
              "file missing, not written")
        let answer :=
          "Set ".toList ++ name ++ '.' :: field ++ " = ".toList ++ value ++ " (".toList ++ target ++
            [')']
        ⟨d, events ++ [event], .ok answer⟩

/-- A field that is given with an equals sign between key and value. -/
def fieldOf (arg : Text) : Except Failure (Text × Text) :=
  let fault := Failure.badArgument ("Expected KEY=VALUE, got '".toList ++ arg ++ ['\''])
  match Text.cut? ['='] arg with
  | some (k, v) => if (Text.trim k).isEmpty then .error fault else .ok (Text.trim k, Text.trim v)
  | none => .error fault

/-- The level that a draft asks for, or the usual one. -/
def levelOf (w : Workspace) (draft : Draft) : Except Failure Nat :=
  let n := draft.level.getD w.config.level
  if Config.isHeadingLevel n then .ok n
  else
    .error <| .badArgument <|
      "heading level must be between 1 and 6, got ".toList ++ Decimal.digitsOf n

/-- Writes a new entity to the end of a file. -/
def create (w : Workspace) (d : Disk) (now : Instant) (draft : Draft) : Outcome :=
  let prepared : Except Failure (Fields × Nat × Store × List Log.Event) := do
    let fields ← draft.fields.mapM fieldOf
    let level ← w.levelOf draft
    let (s, events) ← w.store d
    return (TextMap.ofList fields, level, s, events)
  match prepared with
  | .error f => ⟨d, [], .error f⟩
  | .ok (fields, level, s, events) =>
    if (s.get? draft.name).isSome then
      ⟨d, events,
        .error (.badArgument ("Entity '".toList ++ draft.name ++ "' already exists".toList))⟩
    else
      let target := w.resolve draft.file
      let dialect := draft.dialect.getD w.config.dialect
      match s.create d draft.name (draft.title.getD draft.name) fields target level dialect now with
      | .error f => ⟨d, events, .error f⟩
      | .ok (_, d) =>
        ⟨d, events ++ [Store.storeEvent .info "Created entity"],
          .ok ("Created ".toList ++ draft.name ++ " in ".toList ++ target.text)⟩

/-! ## All commands -/

/-- Runs a command at an instant. -/
def execute (w : Workspace) (d : Disk) (now : Instant) : Command → Outcome
  | .scan format => w.scan d format
  | .list format rootsOnly => w.list d format rootsOnly
  | .describe name format => w.describe d name format
  | .set name field value => w.set d now name field value
  | .create draft => w.create d now draft
  | .triggers file format => ⟨d, [], w.triggerReport d file format⟩
  | .tasks => w.tasks d
  | .config => ⟨d, [], .ok w.config.toml⟩

/-- What is told of a command when it is through. -/
def closing (c : Command) (answer : Except Failure Text) : Log.Event :=
  match answer with
  | .ok _ =>
    if c.isMutating then event .info "Documents updated" else event .debug "Command completed"
  | .error _ => event .debug "Command failed"

/-- Runs a command, and tells so. -/
def run (w : Workspace) (d : Disk) (now : Instant) (c : Command) : Outcome :=
  let o := w.execute d now c
  { o with events := o.events ++ [closing c o.answer] }

end Workspace

end Markbook
