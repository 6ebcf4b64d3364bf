import Markbook.Store.Files

/-!
# Events of a Workspace

What the log tells of scanning folders and filling a store.
-/

namespace Markbook.Store

/-- An event of a scan. -/
def scanEvent (level : Log.Level) (message : Text) : Log.Event :=
  ⟨level, "docket::scanner", message⟩

/-- An event of a store. -/
def storeEvent (level : Log.Level) (message : Text) : Log.Event :=
  ⟨level, "docket::merge", message⟩

/-- What the log tells of a finding. -/
def findingEvent : Scan.Finding → Log.Event
  | .marked _ => scanEvent .debug "Found docket file"
  | .inherited _ => scanEvent .debug "Docket file via folder marker"
  | .unreadable _ => scanEvent .warn "Skipping unreadable file"
  | .unreadableMarker _ => scanEvent .warn "Unreadable folder marker"
  | .lost _ => scanEvent .warn "Failed to read directory entry"

def scanEvents (l : List Scan.Finding) : List Log.Event :=
  l.map findingEvent ++ [scanEvent .debug "Scan complete"]

/-- The events of merging entities one after another; `known` are the names before them. -/
def mergeEvents (known : List Text) : List Entity → List Log.Event
  | [] => []
  | e :: r =>
    storeEvent .debug (if known.contains e.name then "Merged entity" else "New entity") ::
      mergeEvents (e.name :: known) r

/-- The events of loading documents one after another. -/
def loadEvents (s : Store) (d : Disk) : List Document → List Log.Event
  | [] => []
  | doc :: r =>
    mergeEvents s.entities.keys (Tree.preorderAll (forest s.table doc)) ++
      storeEvent .debug "Loaded docket file" :: loadEvents (s.load doc (d.modified doc.path)) d r

/-- The events of loading what a scan has found. -/
def folderEvents (s : Store) (d : Disk) (l : List Scan.Finding) : List Log.Event :=
  scanEvents l ++ s.loadEvents d (Scan.documents l) ++ [storeEvent .info "Loaded directory"]

end Markbook.Store
