import Markbook.Dialect.Basic
import Markbook.Text.Lower
import Markbook.TextMap

/-!
# Writing Fields

Each dialect writes fields as a block of lines, without a line feed at the end.  Keys stand in
ascending order; tables and fenced blocks order them by their lower-case form first.
-/

namespace Markbook.Dialect

/-- Entries ordered by the lower-case form of their keys, then by the keys. -/
def byLowerKey (fields : Fields) : List (Text × Text) :=
  let keyed := fields.entries.map fun e ↦ (Text.lower e.1, e)
  (keyed.mergeSort fun a b ↦ Text.le a.1 b.1).map (·.2)

def colonsLine (e : Text × Text) : Text :=
  if e.2.isEmpty then e.1 ++ [':', ':'] else e.1 ++ mark ++ e.2

def packedPair (e : Text × Text) : Text := e.1 ++ ':' :: e.2

def tableLine (e : Text × Text) : Text := "| ".toList ++ e.1 ++ " | ".toList ++ e.2 ++ " |".toList

def fencedLine (e : Text × Text) : Text := e.1 ++ ':' :: ' ' :: e.2

/-- The lines of a block of fields. -/
def writtenLines (d : Dialect) (fields : Fields) : List Text :=
  match d with
  | .colons => fields.entries.map colonsLine
  | .packed => [mark ++ Text.join [',', ' '] (fields.entries.map packedPair)]
  | .table =>
    "| Field | Value |".toList :: "|-------|-------|".toList ::
      (byLowerKey fields).map tableLine
  | .fenced => ['-', '-', '-'] :: (byLowerKey fields).map fencedLine ++ [['-', '-', '-']]

def write (d : Dialect) (fields : Fields) : Text := Text.unlines (d.writtenLines fields)

end Markbook.Dialect
