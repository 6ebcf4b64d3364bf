import Markbook.Outline
import Markbook.Task

/-!
# Stores

A store holds one record for each entity name, whatever the number of documents that mention it.  A
record keeps for each of its values the file it was taken from and the time of that file; its
primary file is the one that its values are written to.

The records stand in a map under their names, and a list has the names in the order in which they
were first seen.  Nothing but the operations keeps the two in step.
-/

namespace Markbook

/-- Where a value comes from. -/
structure Source where
  path : Path
  /-- When the file was changed last, or when the value was set, in milliseconds. -/
  modified : Int
deriving Repr

/-- What all documents say of one entity. -/
structure Record where
  name : Text
  title : Text
  type : Text
  status : Option Text
  fields : Fields
  /-- Source of each field, and of the status under its own key. -/
  sources : TextMap Source
  primary : Path
  dialect : Dialect
  /-- Names of the entities under this one. -/
  children : List Text
  /-- Every file that mentions the entity, in load order. -/
  seenIn : List Path
  /-- The type as a field of the primary file: its key and its value. -/
  inlineType : Option (Text × Text)
  /-- Key of the field the status was taken from, if it was one. -/
  statusKey : Option Text

namespace Record

/-- The key of the status among the sources. -/
def statusSource : Text := "status"

/-- The record of an entity that no other document mentions. -/
def ofEntity (e : Entity) (path : Path) (time : Int) : Record :=
  let sources := e.fields.map fun _ _ ↦ (⟨path, time⟩ : Source)
  { name := e.name
    title := e.title
    type := e.type
    status := e.status
    fields := e.fields
    sources := if e.status.isSome then sources.insert statusSource ⟨path, time⟩ else sources
    primary := path
    dialect := e.dialect
    children := []
    seenIn := [path]
    inlineType := e.typeKey.map fun k ↦ (k, e.type)
    statusKey := e.statusKey }

/-- How many values come from the primary file. -/
def primaryCount (r : Record) : Nat := r.sources.entries.countP fun e ↦ e.2.path == r.primary

/-- The first value under any of the keys that is not empty. -/
def firstOf? (r : Record) (keys : List Text) : Option Text :=
  (keys.filterMap r.fields.get?).find? fun v ↦ !v.isEmpty

/-- The fields as the primary file has them: with the inline type, and with the status when no
heading form can carry it. -/
def writtenFields (r : Record) (t : StatusTable) : Fields :=
  let fields :=
    match r.inlineType with
    | some (k, v) => if r.fields.has k then r.fields else r.fields.insert k v
    | none => r.fields
  match r.status with
  | some s =>
    if (t.written? (t.canonical s)).isNone then fields.insert (r.statusKey.getD "Status") s
    else fields
  | none => fields

def sourceJson (s : Source) : Json :=
  .obj [("path", .str s.path.text), ("modified_ms", .ofInt s.modified)]

def json (r : Record) : Json :=
  .obj [("name", .str r.name), ("title", .str r.title), ("entity_type", .str r.type),
    ("status", .ofOption r.status),
    ("fields", .obj (r.fields.entries.map fun e ↦ (e.1, .str e.2))),
    ("field_sources", .obj (r.sources.entries.map fun e ↦ (e.1, sourceJson e.2))),
    ("primary_file", .str r.primary.text), ("primary_format", .str r.dialect.tag),
    ("children", .arr (r.children.map .str)), ("seen_in", .arr (r.seenIn.map fun p ↦ .str p.text))]

end Record

structure Store where
  table : StatusTable
  /-- The record of each entity, under its name. -/
  entities : TextMap Record
  /-- The names of the entities in the order in which they were first seen. -/
  order : List Text
  /-- The loaded files with the layout each was read in, in load order. -/
  loaded : List (Path × Layout)

namespace Store

def empty (t : StatusTable) : Store := ⟨t, .empty, [], []⟩

def get? (s : Store) (name : Text) : Option Record := s.entities.get? name

/-- All records, in the order in which their names were first seen. -/
def records (s : Store) : List Record := s.order.filterMap s.get?

def names (s : Store) : List Text := s.records.map (·.name)

/-- The layout that a loaded file was last read in. -/
def layoutOf? (s : Store) (p : Path) : Option Layout :=
  (s.loaded.reverse.find? fun e ↦ e.1 == p).map (·.2)

/-- The records of the children of an entity. -/
def childrenOf (s : Store) (name : Text) : List Record :=
  ((s.get? name).map (·.children)).getD [] |>.filterMap s.get?

/-- Is the entity a child of any? -/
def isNested (s : Store) (name : Text) : Bool :=
  s.entities.entries.any fun e ↦ e.2.children.contains name

/-- The records that are nobody's child. -/
def roots (s : Store) : List Record := s.records.filter fun r ↦ !s.isNested r.name

/-- Changes the record of a name in its place. -/
def modify (s : Store) (name : Text) (f : Record → Record) : Store :=
  { s with entities := s.entities.map fun n r ↦ if n = name then f r else r }

end Store

end Markbook
