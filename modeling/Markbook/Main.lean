import Markbook.Program
import Std.Time.DateTime.Timestamp

/-!
# Command Line

Reads the current folder into a disk, runs the program on it, and writes down what the run has
changed.  Links that lead out of the current folder lead nowhere.
-/

namespace Markbook.Main

/-- The way from a place to the target of a link there. -/
def linkTarget (top target : String) (at_ : Place) : Path :=
  let up : Text := (at_.dropLast.map fun _ ↦ "../".toList).flatten
  match Text.after? (top.toList ++ ['/']) target.toList with
  | some s => ⟨up ++ s⟩
  | none => ⟨up ++ "..".toList⟩

def milliseconds (t : IO.FS.SystemTime) : Int := t.sec * 1000 + t.nsec.toNat / 1000000

/-- Reads the items of a folder and of those below it.  What cannot be read is left out. -/
partial def readItems (top : String) (folder : IO.FS.DirEntry) (at_ : Place) :
    IO (List (Place × Item)) := do
  let mut items := []
  for entry in ← folder.path.readDir do
    let place := at_ ++ [entry.fileName.toList]
    let read : IO (List (Place × Item)) := do
      let data ← entry.path.symlinkMetadata
      match data.type with
      | .dir => return (place, .folder) :: (← readItems top entry place)
      | .file =>
        let octets ← IO.FS.readBinFile entry.path
        return [(place, .file (.ofOctets octets.toList) (milliseconds data.modified))]
      | .symlink =>
        let target ← IO.FS.realPath entry.path
        return [(place, .link (linkTarget top target.toString place))]
      | .other => return []
    items := items ++ (← read.catchExceptions fun _ ↦ return [])
  return items

/-- Writes the files down that are new or have changed. -/
def writeFiles (old new : Disk) : IO Unit := do
  let top ← IO.currentDir
  for (place, contents) in new.files do
    let before := old.files.find? fun f ↦ f.1 = place
    if before.map (·.2) ≠ some contents then
      let name : Text → String := String.ofList
      IO.FS.createDirAll (place.dropLast.foldl (fun p s ↦ p / name s) top)
      IO.FS.writeBinFile (place.foldl (fun p s ↦ p / name s) top) ⟨contents.octets.toArray⟩

/-- The variables of the environment. -/
def readVariables : IO (List (Text × Text)) := do
  let octets ← IO.FS.readBinFile "/proc/self/environ"
  let text := ((String.fromUTF8? octets).getD "").toList
  return (Text.pieces '\x00' text).filterMap (Text.cut? ['='])

/-- The settings of the user. -/
def readUserSettings : IO (Option Text) := do
  let folder ←
    match ← IO.getEnv "XDG_CONFIG_HOME", ← IO.getEnv "HOME" with
    | some s, _ => pure s
    | none, some s => pure (s ++ "/.config")
    | none, none => return none
  let read : IO (Option Text) := do
    return some (← IO.FS.readFile (folder ++ "/docket/config.toml")).toList
  read.catchExceptions fun _ ↦ return none

end Markbook.Main

open Markbook Markbook.Main

/-- Runs the program in the current folder. -/
def main (args : List String) : IO UInt32 := do
  let top ← IO.FS.realPath (← IO.currentDir)
  let items ← readItems top.toString ⟨top, "."⟩ []
  let old : Disk := ⟨items⟩
  let surroundings : Config.Surroundings := ⟨← readVariables, ← readUserSettings⟩
  let now ← Std.Time.Timestamp.now
  let ending := runProgram old surroundings now.toMillisecondsSinceUnixEpoch.val
    (args.map String.toList)
  writeFiles old ending.disk
  IO.print (String.ofList ending.output)
  IO.eprint (String.ofList ending.errors)
  return ending.status.toUInt32
