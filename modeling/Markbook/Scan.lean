import Markbook.Disk
import Markbook.Document

/-!
# Scanning Folders

A scan walks a folder and the folders below it, the files of a folder first, in the order of their
names.  It finds the markdown files that are documents by themselves, and those that lie under a
folder marker: a file of a fixed name whose markers hold for the folder and all below it, up to the
next marker.

A scan yields one finding for each thing it has to say.  `Scan.documents` keeps the documents.
-/

namespace Markbook

namespace Scan

/-- The file name of a folder marker. -/
def markerName : Text := ".docket-folder.md"

structure Rules where
  followLinks : Bool
  /-- Names of folders that are passed over, besides the hidden ones. -/
  ignored : List Text
  /-- How deep below the first folder the scan goes. -/
  maxDepth : Option Nat

/-- No limit, no ignored folders, and links to folders are not followed. -/
def Rules.plain : Rules := ⟨false, [], none⟩

inductive Finding where
  /-- A file with markers of its own. -/
  | marked (doc : Document)
  /-- A file under a folder marker. -/
  | inherited (doc : Document)
  | unreadable (path : Path)
  | unreadableMarker (path : Path)
  /-- An entry whose link leads nowhere, or back to the folder itself. -/
  | lost (folder : Path)

namespace Finding

def document? : Finding → Option Document
  | .marked doc => some doc
  | .inherited doc => some doc
  | _ => none

end Finding

/-- An entry of a folder, as a scan sees it. -/
inductive Entry where
  | folder (name : Text)
  | file (name : Text)
  | lost
deriving DecidableEq, Repr

/-- Classifies an item of the folder at `at_`, which has the path `dir`. -/
def entryOf (d : Disk) (rules : Rules) (dir : Path) (at_ : Place) (name : Text) : Item → Entry
  | .folder => .folder name
  | .file _ _ => .file name
  | .link _ =>
    if rules.followLinks then
      match d.place? (dir.join ⟨name⟩) with
      | .error _ => .lost
      | .ok target =>
        match d.item? target with
        | none => .lost
        | some .folder => if target = at_ then .lost else .folder name
        | some _ => .file name
    else .file name

/-- The entries of a folder by name, none where there is no folder. -/
def entries (d : Disk) (rules : Rules) (dir : Path) : List Entry :=
  match d.place? dir with
  | .ok at_ => (d.list at_).map fun e ↦ entryOf d rules dir at_ e.1 e.2
  | .error _ => []

/-- Is a folder of this name walked? -/
def enters (rules : Rules) (name : Text) : Bool :=
  name.head? ≠ some '.' && !rules.ignored.contains name

/-- Is a file of this name looked into? -/
def isMarkdown (name : Text) : Bool :=
  (Text.before? ".md" name).isSome && name ≠ markerName

/-- The markers of the folder marker in a folder, and what is to be said of it. -/
def folderMarkers (d : Disk) (dir : Path) : Option Markers × List Finding :=
  let path := dir.join ⟨markerName⟩
  if d.isFile path then
    match d.read path with
    | .ok s => ((markedPreamble? s).map (·.1), [])
    | .error _ => (none, [.unreadableMarker path])
  else (none, [])

/-- A file under a folder marker as a document.  A preamble without markers is cut off. -/
def inheritedDocument (path : Path) (m : Markers) (content : Text) : Document :=
  match Preamble.split? content with
  | some p => ⟨path, m, p.body, p.offset⟩
  | none => ⟨path, m, content, 0⟩

/-- What is to be said of a file. -/
def fileFindings (d : Disk) (dir : Path) (inherited : Option Markers) (name : Text) :
    List Finding :=
  let path := dir.join ⟨name⟩
  match d.read path with
  | .error _ => [.unreadable path]
  | .ok content =>
    match Document.read? path content, inherited with
    | some doc, _ => [.marked doc]
    | none, some m => [.inherited (inheritedDocument path m content)]
    | none, none => []

def entryFindings (d : Disk) (dir : Path) (inherited : Option Markers) : Entry → List Finding
  | .folder _ => []
  | .file name => if isMarkdown name then fileFindings d dir inherited name else []
  | .lost => [.lost dir]

/-- The folders below, in order. -/
def subfolders (rules : Rules) (l : List Entry) : List Text :=
  l.filterMap fun e ↦
    match e with
    | .folder name => if enters rules name then some name else none
    | _ => none

/-- Scans a folder.  The first number bounds the folders on one way down. -/
def walk (d : Disk) (rules : Rules) : Nat → Path → Option Markers → Nat → List Finding
  | 0, _, _, _ => []
  | fuel + 1, dir, inherited, depth =>
    let (own, said) := folderMarkers d dir
    let inherited := own.or inherited
    let l := entries d rules dir
    let deeper :=
      if rules.maxDepth.any (· ≤ depth) then []
      else (subfolders rules l).flatMap fun name ↦
        walk d rules fuel (dir.join ⟨name⟩) inherited (depth + 1)
    said ++ l.flatMap (entryFindings d dir inherited) ++ deeper

/-- A bound on the folders on one way down: between two links there are no more than the disk is
deep. -/
def bound (d : Disk) : Nat := (Disk.linkLimit + 1) * (d.depth + 2)

/-- The findings below a folder, none when there is no such folder. -/
def run? (d : Disk) (rules : Rules) (dir : Path) : Option (List Finding) :=
  if d.isFolder dir then some (walk d rules (bound d) dir none 0) else none

def documents (l : List Finding) : List Document := l.filterMap Finding.document?

end Scan

end Markbook
