import Markbook.Dialect.Basic
import Markbook.Path

/-!
# Commands

What can be asked of a workspace on the command line, and the choices around it.
-/

namespace Markbook

/-- An entity that is asked for, as its parts were given. -/
structure Draft where
  name : Text
  /-- The name serves as title where there is none. -/
  title : Option Text
  /-- A path below the root folder, or an absolute one. -/
  file : Path
  /-- Fields, each as its key and value with an equals sign between them. -/
  fields : List Text
  level : Option Nat
  dialect : Option Dialect

inductive Command where
  /-- Lists the documents. -/
  | scan (format : Text)
  /-- Lists the entities, or only those that are nobody's child. -/
  | list (format : Text) (rootsOnly : Bool)
  /-- Shows one entity. -/
  | describe (name format : Text)
  /-- Sets a field of an entity. -/
  | set (name field value : Text)
  /-- Adds an entity to the end of a file. -/
  | create (draft : Draft)
  /-- Shows the trigger rules in a file. -/
  | triggers (file : Path) (format : Text)
  /-- Shows the entities as tasks. -/
  | tasks
  /-- Shows the settings. -/
  | config

namespace Command

/-- Does the command write to documents? -/
def isMutating : Command → Bool
  | .set _ _ _ | .create _ => true
  | _ => false

/-- The word that asks for the command. -/
def word : Command → Text
  | .scan _ => "scan"
  | .list _ _ => "list"
  | .describe _ _ => "show"
  | .set _ _ _ => "set"
  | .create _ => "create"
  | .triggers _ _ => "triggers"
  | .tasks => "tasks"
  | .config => "config"

end Command

/-- A command with the choices that can be made for every command. -/
structure Invocation where
  command : Command
  /-- The folder with the documents. -/
  root : Option Path
  /-- A settings file in place of the usual ones. -/
  settings : Option Path
  verbose : Bool
  quiet : Bool
  logLevel : Option Text
  logFormat : Option Text
  logOutput : Option Text
  logFile : Option Path

end Markbook
