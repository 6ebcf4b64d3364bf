import Markbook.Failure
import Markbook.Scan
import Markbook.Store.Merge
import Markbook.Store.Rewrite

/-!
# Stores and Disks

A store is filled from the documents below a folder, written back to the primary files of its
records, and extended by new entities at the end of a file.
-/

namespace Markbook.Store

/-- Loads documents, each with the time of its file. -/
def loadAll (s : Store) (d : Disk) (l : List Document) : Store :=
  l.foldl (fun s doc ↦ s.load doc (d.modified doc.path)) s

/-- What a scan finds below a folder. -/
def scan (d : Disk) (dir : Path) : Except Failure (List Scan.Finding) :=
  match Scan.run? d .plain dir with
  | some l => .ok l
  | none => .error (.disk dir .notListed)

/-- Loads all documents below a folder. -/
def loadFolder (s : Store) (d : Disk) (dir : Path) : Except Failure (Store × List Scan.Finding) :=
  (scan d dir).map fun l ↦ (s.loadAll d (Scan.documents l), l)

/-- Rewrites the sections of some records in a file.  The file's own status table counts, else the
one of the store.  The answer tells whether the file is still there. -/
def rewriteFile (s : Store) (d : Disk) (p : Path) (records : List Record) :
    Except Failure (Bool × Disk) :=
  match d.read p with
  | .error .missing => .ok (false, d)
  | .error e => .error (.disk p e)
  | .ok content =>
    let t := ((markedPreamble? content).bind fun m ↦ m.1.statusTable?).getD s.table
    match d.write p (rewrite t records content) with
    | .ok d => .ok (true, d)
    | .error e => .error (.disk p e)

/-- The primary files in the order of paths, each with its records. -/
def byFile (s : Store) : List (Path × List Record) :=
  let paths := s.records.foldl
    (fun l r ↦ if l.any (· == r.primary) then l else l ++ [r.primary]) ([] : List Path)
  (paths.mergeSort fun a b ↦ !b.lt a).map fun p ↦ (p, s.records.filter (·.primary == p))

/-- Rewrites files one after another, up to the first failure. -/
def rewriteFiles (s : Store) :
    Disk → List (Path × List Record) → Disk × Except Failure (List Path)
  | d, [] => (d, .ok [])
  | d, (p, records) :: r =>
    match s.rewriteFile d p records with
    | .error e => (d, .error e)
    | .ok (there, d) =>
      let (d, rest) := rewriteFiles s d r
      (d, rest.map fun l ↦ if there then p :: l else l)

/-- Writes all records back.  The answer names the files that were rewritten; those that are gone
are left out. -/
def writeBack (s : Store) (d : Disk) : Disk × Except Failure (List Path) :=
  s.rewriteFiles d s.byFile

/-- Writes one record back to its primary file, unless that is gone. -/
def writeBackOne (s : Store) (d : Disk) (name : Text) : Except Failure (Option Path × Disk) :=
  match s.get? name with
  | none => .error (.unknownEntity name)
  | some r =>
    (s.rewriteFile d r.primary [r]).map fun p ↦ (if p.1 then some r.primary else none, p.2)

/-- Sets a field of an entity. -/
def setField (s : Store) (name key value : Text) (now : Int) : Except Failure Store :=
  match s.set? name key value now with
  | some s => .ok s
  | none => .error (.unknownEntity name)

/-- Ends the last line of a text. -/
def completed (content : Text) : Text :=
  if content.isEmpty || content.getLast? = some '\n' then content else content ++ ['\n']

/-- Writes a new entity to the end of a file and registers it. -/
def create (s : Store) (d : Disk) (name title : Text) (fields : Fields) (p : Path) (level : Nat)
    (dialect : Dialect) (now : Int) : Except Failure (Store × Disk) :=
  let old : Except Disk.Trouble Text :=
    match d.read p with
    | .error .missing => .ok []
    | r => r
  match old with
  | .error e => .error (.disk p e)
  | .ok content =>
    match d.write p (completed content ++ Entity.written s.table dialect level name title fields)
    with
    | .error e => .error (.disk p e)
    | .ok d => .ok (s.register (created s.table name title fields p dialect now), d)

end Markbook.Store
