import Markbook.Dialect.Read
import Markbook.Dialect.Write
import Markbook.Document
import Markbook.Heading

/-!
# Entities

An entity is a heading with the section under it.  Its fields are those of the section, less its
type and, when the heading carries no status form, its status.
-/

namespace Markbook

structure Entity where
  name : Text
  title : Text
  type : Text
  /-- Canonical where the status table knows it. -/
  status : Option Text
  statusForm : Option Text
  fields : Fields
  dialect : Dialect
  body : Text
  level : Nat
  /-- Line of the heading in the body of its document, from 1. -/
  line : Nat
  /-- Key of the field the type was taken from. -/
  typeKey : Option Text
  /-- Key of the field the status was taken from. -/
  statusKey : Option Text
deriving DecidableEq

namespace Entity

/-- Takes the first of two keys that has a value out of the fields.  An empty value on the way is
dropped with its key. -/
def take? (first second : Text) (fields : Fields) : Option (Text × Text) × Fields :=
  match fields.get? first with
  | some (c :: v) => (some (first, c :: v), fields.erase first)
  | _ =>
    let fields := fields.erase first
    match fields.get? second with
    | some (c :: v) => (some (second, c :: v), fields.erase second)
    | _ => (none, fields.erase second)

/-- The dialect a section is read in: its own, or the one asked for when it is blank. -/
def dialectOf (m : Markers) (body : Text) : Dialect :=
  if (Text.trim body).isEmpty then m.dialect else Dialect.detect body

/-- The entity of a heading and its section. -/
def ofSection (m : Markers) (t : StatusTable) (h : Heading) (level line : Nat) (body : Text) :
    Entity :=
  let dialect := dialectOf m body
  let (type?, fields) := take? "Type" "type" (dialect.read body)
  let (status?, fields) :=
    if h.status.isSome then (none, fields) else take? "Status" "status" fields
  { name := h.name
    title := h.title
    type := (type?.map (·.2)).getD (m.type.getD [])
    status := h.status.or (status?.map fun e ↦ t.canonical e.2)
    statusForm := h.statusForm.or (status?.map (·.2))
    fields
    dialect
    body
    level
    line
    typeKey := type?.map (·.1)
    statusKey := status?.map (·.1) }

/-! ## New entities -/

/-- Is the key the word `status` in any case? -/
def isStatusKey (key : Text) : Bool := Text.sameWord key "status"

def withoutStatus (fields : Fields) : Fields := fields.filter fun k _ ↦ !isStatusKey k

/-- The status among the fields of a new entity. -/
def givenStatus? (fields : Fields) : Option Text :=
  (fields.get? "status").or (fields.get? "Status")

/-- The lines of a new entity: its heading, with the status as a form, and a block of its other
fields. -/
def written (t : StatusTable) (d : Dialect) (level : Nat) (name title : Text) (fields : Fields) :
    Text :=
  let rest := withoutStatus fields
  let block := if rest.isEmpty then [] else d.write rest ++ ['\n']
  Heading.write t level (givenStatus? fields) name title ++ '\n' :: block

end Entity

end Markbook
