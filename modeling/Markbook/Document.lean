import Markbook.Dialect.Basic
import Markbook.Path
import Markbook.Preamble
import Markbook.Status
import Markbook.Yaml.Resolve

/-!
# Documents

A markdown file is a document of this library when the YAML of its preamble carries at least one of
four marker keys: the type of its entities, its layout, its field dialect or its status table.
Anything else, malformed YAML included, is some other file.
-/

namespace Markbook

/-- How headings and entities of a document correspond. -/
inductive Layout where
  /-- Every heading is an entity, nested by level. -/
  | outline
  /-- The file is one entity. -/
  | file
  /-- The settings of a directory; its own body is read as one entity. -/
  | folder
deriving DecidableEq, Repr

namespace Layout

def word : Layout → Text
  | .outline => "outline"
  | .file => "file"
  | .folder => "folder"

def ofWord? (s : Text) : Option Layout :=
  [Layout.outline, .file, .folder].find? fun l ↦ l.word = s

end Layout

/-- What the preamble of a document says. -/
structure Markers where
  type : Option Text
  layout : Option Layout
  /-- The dialect asked for, by tag or template. -/
  hint : Option Text
  /-- Statuses with their forms, as declared. -/
  statuses : Option (List (Text × List Text))
  pattern : Option Text
deriving DecidableEq, Repr

namespace Markers

/-- No marker at all. -/
def none_ : Markers := ⟨none, none, none, none, none⟩

def effectiveLayout (m : Markers) : Layout := m.layout.getD .outline

def dialect (m : Markers) : Dialect := .ofHint m.hint

def statusTable? (m : Markers) : Option StatusTable := m.statuses.map StatusTable.mk

/-- Does the preamble make its file a document?  The pattern alone does not. -/
def isMarked (m : Markers) : Bool :=
  m.type.isSome || m.layout.isSome || m.hint.isSome || m.statuses.isSome

/-- The text under a key, none for `null`. -/
def textAt? (entries : List (Yaml.Value × Yaml.Value)) (key : Text) : Option Text :=
  match Yaml.Value.find? entries key with
  | none | some .null => none
  | some v => some v.text

/-- The forms of a status: a list of texts, nothing, or a single text. -/
def formsOf : Yaml.Value → List Text
  | .seq items => items.map (·.text)
  | .null => []
  | v => [v.text]

def statusesOf? (v : Yaml.Value) : Option (List (Text × List Text)) :=
  match v.untagged with
  | .map entries => some (entries.map fun e ↦ (e.1.text, formsOf e.2))
  | _ => none

def layoutOf? (v : Yaml.Value) : Option Layout :=
  match v.untagged with
  | .str s => Layout.ofWord? s
  | _ => none

/-- Reads the markers in a preamble, if it has any. -/
def read? (yaml : Text) : Option Markers :=
  match (Yaml.read? yaml).map Yaml.Value.untagged with
  | some (.map entries) =>
    let m : Markers :=
      { type := textAt? entries "docket-type"
        layout := (Yaml.Value.find? entries "docket-layout").bind layoutOf?
        hint := textAt? entries "docket-format"
        statuses := (Yaml.Value.find? entries "docket-status").bind statusesOf?
        pattern := textAt? entries "docket-regex" }
    if m.isMarked then some m else none
  | _ => none

end Markers

/-- The markers of a text with its preamble, if it is a document. -/
def markedPreamble? (content : Text) : Option (Markers × Preamble) := do
  let p ← Preamble.split? content
  let m ← Markers.read? p.text
  return (m, p)

/-- A file recognised as a document. -/
structure Document where
  path : Path
  markers : Markers
  body : Text
  /-- Where the body starts in the file, in octets. -/
  offset : Nat
deriving Repr

/-- Reads a file's text as a document. -/
def Document.read? (path : Path) (content : Text) : Option Document :=
  (markedPreamble? content).map fun p ↦ ⟨path, p.1, p.2.body, p.2.offset⟩

end Markbook
