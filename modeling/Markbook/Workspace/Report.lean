import Markbook.Document
import Markbook.Instant
import Markbook.Store.Basic
import Markbook.Table
import Markbook.Text.Lower

/-!
# Reports

What is shown of documents and entities on a terminal.  Every report has a form in JSON and one as
text; a format other than `json` means text.  Paths are shown from the root folder on.
-/

namespace Markbook.Report

def isJson (format : Text) : Bool := format = "json".toList

/-- Shown in place of what is not there. -/
def dash : Text := ['-']

/-! ## Documents -/

def documentJson (root : Path) (doc : Document) : Json :=
  .obj [("path", .str (doc.path.relativeTo root)), ("type", .ofOption doc.markers.type),
    ("layout", .str doc.markers.effectiveLayout.word), ("format", .str doc.markers.dialect.tag)]

def documentRow (root : Path) (doc : Document) : List Text :=
  [doc.path.relativeTo root, doc.markers.type.getD dash, doc.markers.effectiveLayout.word,
    doc.markers.dialect.tag]

/-- The documents of a scan. -/
def documents (l : List Document) (root : Path) (format : Text) : Text :=
  if isJson format then (Json.arr (l.map (documentJson root))).pretty
  else if l.isEmpty then "No docket documents found."
  else
    let table : Table := ⟨["Path", "Type", "Layout", "Format"], l.map (documentRow root)⟩
    table.text ++ '\n' :: Decimal.digitsOf l.length ++ " document(s)".toList

/-! ## Entities -/

def recordRow (root : Path) (r : Record) : List Text :=
  [r.name, r.status.getD dash, r.title, Decimal.digitsOf r.fields.size, r.primary.relativeTo root]

/-- A list of entities. -/
def entities (l : List Record) (root : Path) (format : Text) : Text :=
  if isJson format then (Json.arr (l.map Record.json)).pretty
  else if l.isEmpty then "No entities found."
  else
    let table : Table := ⟨["Name", "Status", "Title", "Fields", "File"], l.map (recordRow root)⟩
    table.text

/-- The name, with the title unless it is the same. -/
def heading (r : Record) : Text :=
  if r.title = r.name then r.name else r.name ++ " — ".toList ++ r.title

/-- A line about an entity. -/
def line (label : String) (s : Text) : Text :=
  ' ' :: ' ' :: label.toList ++ ':' :: ' ' :: s ++ ['\n']

/-- A field with its source. -/
def fieldRow (root : Path) (r : Record) (key value : Text) : List Text :=
  match r.sources.get? key with
  | some s => [key, value, s.path.relativeTo root, (Instant.text? s.modified).getD dash]
  | none => [key, value, dash, dash]

/-- The fields of an entity as a table, in the order of their keys, capital letters like small
ones. -/
def fieldTable (root : Path) (r : Record) : Table :=
  let l := r.fields.entries.mergeSort fun a b ↦ Text.le (Text.lower a.1) (Text.lower b.1)
  ⟨["Field", "Value", "Source", "Modified"], l.map fun e ↦ fieldRow root r e.1 e.2⟩

/-- Everything about one entity. -/
def entity (r : Record) (root : Path) (format : Text) : Text :=
  if isJson format then r.json.pretty
  else
    let file := r.primary.relativeTo root ++ " (".toList ++ r.dialect.tag ++ [')']
    let fields :=
      if r.fields.isEmpty then "  No fields.".toList else (fieldTable root r).text
    Text.emphasised (heading r) ++ ['\n', '\n'] ++ line "Status" (r.status.getD dash) ++
      (if r.type.isEmpty then [] else line "Type" r.type) ++ line "Primary file" file ++
      (if r.children.isEmpty then [] else line "Children" (Text.join [',', ' '] r.children)) ++
      '\n' :: fields

end Markbook.Report
