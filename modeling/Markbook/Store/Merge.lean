import Markbook.Store.Basic

/-!
# Loading Documents into a Store

An entity that a store knows already is merged value by value: a value is replaced when the document
is not older than the source of the value.  The primary file changes when the new document says more
about the entity than the values that still come from the primary file.

Loading a document walks the trees of its entities.  An entity is merged before those below it, and
linked to its children behind them.
-/

namespace Markbook

namespace Record

/-- May a value of this time replace the one that is there? -/
def accepts (r : Record) (key : Text) (time : Int) : Bool :=
  match r.sources.get? key with
  | some s => s.modified ≤ time
  | none => true

def mergeField (path : Path) (time : Int) (r : Record) (key value : Text) : Record :=
  if r.accepts key time then
    { r with
      fields := r.fields.insert key value
      sources := r.sources.insert key ⟨path, time⟩ }
  else r

def mergeStatus (e : Entity) (path : Path) (time : Int) (r : Record) : Record :=
  match e.status with
  | some s =>
    if r.accepts statusSource time then
      { r with
        status := some s
        statusKey := e.statusKey
        sources := r.sources.insert statusSource ⟨path, time⟩ }
    else r
  | none => r

/-- How many values a document has for an entity. -/
def valueCount (e : Entity) : Nat := e.fields.size + if e.status.isSome then 1 else 0

/-- Makes the document the primary file, if it says more than the primary file does. -/
def choosePrimary (e : Entity) (path : Path) (r : Record) : Record :=
  if r.primaryCount < valueCount e then
    { r with
      primary := path
      dialect := e.dialect
      inlineType := e.typeKey.map fun k ↦ (k, e.type) }
  else r

def seen (path : Path) (r : Record) : Record :=
  if r.seenIn.any (· == path) then r else { r with seenIn := r.seenIn ++ [path] }

/-- Merges what one more document says of the entity. -/
def merge (e : Entity) (path : Path) (time : Int) (r : Record) : Record :=
  let r := e.fields.entries.foldl (fun r f ↦ mergeField path time r f.1 f.2) (r.seen path)
  (r.mergeStatus e path time).choosePrimary e path

/-- Adds children that are not there yet.  An entity is never its own child. -/
def link (children : List Text) (r : Record) : Record :=
  { r with
    children := children.foldl
      (fun l c ↦ if c = r.name || l.contains c then l else l ++ [c]) r.children }

end Record

namespace Store

/-- Merges an entity, a new record if its name is new. -/
def mergeEntity (path : Path) (time : Int) (s : Store) (e : Entity) : Store :=
  if s.entities.has e.name then s.modify e.name (Record.merge e path time)
  else
    { s with
      entities := s.entities.insert e.name (Record.ofEntity e path time)
      order := s.order ++ [e.name] }

mutual

/-- Merges an entity and those below it, then links it to its children. -/
def mergeTree (path : Path) (time : Int) (s : Store) : Tree Entity → Store
  | .node e l =>
    (mergeTrees path time (mergeEntity path time s e) l).modify e.name
      (Record.link (l.map fun t ↦ t.value.name))

def mergeTrees (path : Path) (time : Int) (s : Store) : List (Tree Entity) → Store
  | [] => s
  | t :: r => mergeTrees path time (mergeTree path time s t) r

end

/-- The entities of a document as a forest; a document of another layout than an outline has one. -/
def forest (t : StatusTable) (doc : Document) : List (Tree Entity) :=
  let t := doc.markers.statusTable?.getD t
  match doc.markers.effectiveLayout with
  | .outline => Outline.trees doc.markers t doc.body
  | .file | .folder =>
    ((Outline.single? doc.markers t doc.body).map fun e ↦ Tree.node e []).toList

/-- Loads a document of a given modification time. -/
def load (s : Store) (doc : Document) (time : Int) : Store :=
  let s := mergeTrees doc.path time s (forest s.table doc)
  { s with loaded := s.loaded ++ [(doc.path, doc.markers.effectiveLayout)] }

/-! ## Changes in memory -/

/-- Stamps a value with the time it was set; a new value belongs to the primary file. -/
def stamp (key : Text) (now : Int) (r : Record) : Record :=
  let source : Source :=
    match r.sources.get? key with
    | some s => { s with modified := now }
    | none => ⟨r.primary, now⟩
  { r with sources := r.sources.insert key source }

/-- Sets the status or a field of a record. -/
def assign (t : StatusTable) (key value : Text) (now : Int) (r : Record) : Record :=
  if Entity.isStatusKey key then
    stamp Record.statusSource now { r with status := some (t.canonical value) }
  else stamp key now { r with fields := r.fields.insert key value }

/-- Sets a field of an entity.  The word `status` in any case stands for the status. -/
def set? (s : Store) (name key value : Text) (now : Int) : Option Store :=
  if (s.get? name).isSome then some (s.modify name (assign s.table key value now)) else none

/-- The record of an entity that was just written to a file. -/
def created (t : StatusTable) (name title : Text) (given : Fields) (path : Path) (d : Dialect)
    (now : Int) : Record :=
  let status := (Entity.givenStatus? given).map t.canonical
  let fields := Entity.withoutStatus given
  let sources := fields.map fun _ _ ↦ (⟨path, now⟩ : Source)
  { name
    title
    type := []
    status
    fields
    sources :=
      if status.isSome then sources.insert Record.statusSource ⟨path, now⟩ else sources
    primary := path
    dialect := d
    children := []
    seenIn := [path]
    inlineType := none
    statusKey := none }

/-- Registers a record; one of the same name is replaced in its place. -/
def register (s : Store) (r : Record) : Store :=
  { s with
    entities := s.entities.insert r.name r
    order := if s.entities.has r.name then s.order else s.order ++ [r.name] }

end Store

end Markbook
