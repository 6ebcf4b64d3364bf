import Markbook.Store.Basic

/-!
# Task Trees

The entities of a store as trees of tasks, one for each root.  An entity that several others have as
a child appears under each of them; a child that is on the way from the root to its parent is left
out, so cycles end.  The names on the way are kept in one list, which all trees share.
-/

namespace Markbook.Store

/-- The kind of documents a record was seen in. -/
def sourceOf (s : Store) (r : Record) : TaskSource :=
  let layouts := r.seenIn.filterMap s.layoutOf?
  match layouts.contains .outline, layouts.any (· ≠ .outline) with
  | true, true => .both
  | false, true => .filesystem
  | _, false => .roadmap

/-- The first file of its own that mentions the entity. -/
def specOf? (s : Store) (r : Record) : Option Text :=
  (r.seenIn.find? fun p ↦ s.layoutOf? p = some .file).map (·.text)

/-- The record as a task. -/
def taskOf (s : Store) (r : Record) : Task :=
  { id := r.name
    title := r.title
    source := s.sourceOf r
    status := .ofCanonical r.status
    result := r.firstOf? ["Result", "result"]
    agent := r.firstOf? ["Assignee", "assignee", "Agent", "agent"]
    specPath := s.specOf? r }

/-- Projects a record, unless its name is on the way already. -/
def unlessAbove (project : Record → StateM (List Text) (Tree Task)) (r : Record) :
    StateM (List Text) (Option (Tree Task)) := do
  if (← getThe (List Text)).contains r.name then return none
  else return some (← project r)

/-- The tree of a record.  The state holds the names on the way, that of the record among them as
long as its children are projected.  The number bounds the way down. -/
def project (s : Store) : Nat → Record → StateM (List Text) (Tree Task)
  | 0, r => return .node (s.taskOf r) []
  | bound + 1, r => do
    modifyThe (List Text) (·.insert r.name)
    let below ← (r.children.filterMap s.get?).filterMapM (unlessAbove (project s bound))
    modifyThe (List Text) (·.erase r.name)
    return .node (s.taskOf r) below

/-- One tree for each root.  No way down is longer than the number of records. -/
def tasks (s : Store) : List (Tree Task) :=
  ((s.roots.mapM (s.project s.records.length)).run []).1

end Markbook.Store
