import Markbook.Json.Read
import Markbook.Tree

/-!
# Tasks

A task is the view of an entity that planning tools take: a tree of tasks is written as nested JSON
objects and read back from them.
-/

namespace Markbook

inductive TaskStatus where
  | pending
  | inProgress
  | completed
  | failed
  | paused
  | cancelled
deriving DecidableEq, Repr

namespace TaskStatus

def all : List TaskStatus := [.pending, .inProgress, .completed, .failed, .paused, .cancelled]

def word : TaskStatus → Text
  | .pending => "pending"
  | .inProgress => "in_progress"
  | .completed => "completed"
  | .failed => "failed"
  | .paused => "paused"
  | .cancelled => "cancelled"

/-- The status of a task for a canonical status of the built-in table.  A blocked task is paused;
without a known status it is pending. -/
def ofCanonical (status : Option Text) : TaskStatus :=
  match status with
  | none => .pending
  | some s =>
    if s = "complete" then .completed
    else if s = "in_progress" then .inProgress
    else if s = "failed" then .failed
    else if s = "cancelled" then .cancelled
    else if s = "blocked" then .paused
    else .pending

end TaskStatus

/-- The kind of documents an entity was seen in. -/
inductive TaskSource where
  /-- Outlines only. -/
  | roadmap
  /-- Files of one entity only. -/
  | filesystem
  | both
deriving DecidableEq, Repr

namespace TaskSource

def all : List TaskSource := [.roadmap, .filesystem, .both]

def word : TaskSource → Text
  | .roadmap => "roadmap"
  | .filesystem => "filesystem"
  | .both => "both"

end TaskSource

structure Task where
  id : Text
  title : Text
  source : TaskSource
  status : TaskStatus
  result : Option Text
  agent : Option Text
  /-- Where the task is specified. -/
  specPath : Option Text
deriving DecidableEq, Repr

namespace Task

/-! ## Writing -/

/-- The names of the members of a task, in the order they are written in. -/
def memberNames : List Text :=
  ["id", "title", "source", "status", "result", "agent", "children", "spec_path"]

/-- A task and the JSON of its children as JSON. -/
def jsonWith (t : Task) (children : List Json) : Json :=
  .obj (memberNames.zip
    [.str t.id, .str t.title, .str t.source.word, .str t.status.word, .ofOption t.result,
      .ofOption t.agent, .arr children, .ofOption t.specPath])

def json (t : Tree Task) : Json := t.fold jsonWith

/-! ## Reading -/

def text? : Json → Option Text
  | .str s => some s
  | _ => none

/-- A text or nothing. -/
def optional? : Json → Option (Option Text)
  | .null => some none
  | .str s => some (some s)
  | _ => none

/-- Reads one of some words, given as a text or as the only key of an object that holds `null`.
`depth` is the number of objects and arrays that may still be opened. -/
def choice? {α : Type} (word : α → Text) (all : List α) (depth : Nat) : Json → Option α
  | .str s => all.find? fun a ↦ word a = s
  | .obj [(s, .null)] => if depth = 0 then none else all.find? fun a ↦ word a = s
  | _ => none

/-- The members of a task in order, from an array of them or from an object.  Members with other
names are passed over, the optional ones may be missing, and none may occur twice. -/
def members? : Json → Option (List Json)
  | .arr items => if items.length = memberNames.length then some items else none
  | .obj members =>
    memberNames.mapM fun name ↦
      match members.filter fun m ↦ m.1 = name with
      | [m] => some m.2
      | [] => if Text.isOneOf name ["result", "agent", "spec_path"] then some .null else none
      | _ => none
  | _ => none

mutual

/-- Reads a tree of tasks.  `depth` is the number of objects and arrays that may still be opened
around what is read. -/
def ofJson? : Nat → Json → Option (Tree Task)
  | 0, _ => none
  | depth + 1, j =>
    match members? j with
    | some [id, title, source, status, result, agent, .arr children, specPath] =>
      match depth with
      | 0 => none
      | depth' + 1 => do
        let task : Task :=
          { id := ← text? id
            title := ← text? title
            source := ← choice? TaskSource.word TaskSource.all (depth' + 1) source
            status := ← choice? TaskStatus.word TaskStatus.all (depth' + 1) status
            result := ← optional? result
            agent := ← optional? agent
            specPath := ← optional? specPath }
        return .node task (← ofItems? depth' children)
    | _ => none

def ofItems? : Nat → List Json → Option (List (Tree Task))
  | _, [] => some []
  | depth, j :: r =>
    match ofJson? depth j, ofItems? depth r with
    | some t, some l => some (t :: l)
    | _, _ => none

end

/-- Reads the text of a tree of tasks, nested at most 127 objects and arrays deep. -/
def read? (s : Text) : Option (Tree Task) := (Json.read? s).bind (ofJson? 127)

end Task

end Markbook
