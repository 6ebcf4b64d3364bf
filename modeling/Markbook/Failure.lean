import Markbook.Config.Basic
import Markbook.Disk
import Markbook.Trigger.Condition

/-!
# Failures

Everything that can go wrong in an operation on documents, with the text shown for it.  What exactly
is wrong inside of a settings file is not told.
-/

namespace Markbook

inductive Failure where
  | unknownEntity (name : Text)
  | disk (path : Path) (cause : Disk.Trouble)
  | trigger (fault : Trigger.Fault)
  | badArgument (text : Text)
  /-- The settings file asked for does not exist. -/
  | noSettings (path : Path)
  /-- The settings cannot be read. -/
  | badSettings
  /-- The settings can be read but do not make sense. -/
  | invalidSettings (issues : List Config.Issue)
deriving Repr

namespace Failure

def message : Failure → Text
  | .unknownEntity n => "Entity '".toList ++ n ++ "' not found".toList
  | .disk p c => "I/O error on ".toList ++ p.text ++ ':' :: ' ' :: c.message
  | .trigger f => "Trigger parse error: ".toList ++ f.message
  | .badArgument t => "Invalid argument: ".toList ++ t
  | .noSettings p => "Configuration error: Configuration file not found: ".toList ++ p.text
  | .badSettings => "Configuration error: The settings cannot be read"
  | .invalidSettings l =>
    "Configuration error: Configuration validation failed:\n".toList ++
      Text.unlines (l.map Config.Issue.message)

/-- The text shown on a terminal, with a hint where there is one. -/
def advice : Failure → Text
  | .unknownEntity n =>
    "Entity '".toList ++ n ++ "' not found. Run `docket list` to see known entities.".toList
  | f => f.message

end Failure

end Markbook
