import Markbook.Dialect.Basic
import Markbook.TextMap
import Markbook.Yaml.Resolve

/-!
# Reading Fields

Each dialect turns the lines of a section into keys with values, in the order of the lines.  Where a
key occurs again the later value counts.
-/

namespace Markbook.Dialect

/-! ## One key a line -/

/-- A key with its value, both trimmed, unless the key is empty. -/
def field? (key value : Text) : Option (Text × Text) :=
  let key := Text.trim key
  if key.isEmpty then none else some (key, Text.trim value)

def colonsField? (line : Text) : Option (Text × Text) :=
  let line := Text.trim line
  match Text.cut? mark line with
  | some (key, value) => field? key value
  | none => (bareKey? line).bind fun key ↦ field? key []

/-! ## Packed lines -/

def packedField? (pair : Text) : Option (Text × Text) :=
  (Text.cut? [':'] (Text.trim pair)).bind fun p ↦ field? p.1 p.2

def packedEntries (line : Text) : List (Text × Text) :=
  match Text.after? mark (Text.trim line) with
  | some rest => (Text.pieces ',' rest).filterMap packedField?
  | none => []

/-! ## Tables -/

/-- Where the reader of a table stands. -/
inductive TableState where
  /-- No row so far. -/
  | outside
  /-- Behind the header. -/
  | headed
  /-- Behind the rule under the header. -/
  | ruled

/-- The trimmed cells of a row, with an empty one before the first and after the last bar. -/
def cells (line : Text) : List Text := (Text.pieces '|' line).map Text.trim

/-- Is the cell part of the rule under a header? -/
def isRuleCell (cell : Text) : Bool := cell.all fun c ↦ c = '-' || c = '—' || c = ' ' || c = ':'

def isRule (row : List Text) : Bool := row.tail.dropLast.all isRuleCell

/-- The key and the value of a row. -/
def rowField? : List Text → Option (Text × Text)
  | _ :: key :: value :: _ => if key.isEmpty then none else some (key, value)
  | _ => none

/-- Reads the first table: a header, at most one rule, and rows up to the first other line.  Rows of
fewer than two cells are passed over. -/
def tableEntries : TableState → List Text → List (Text × Text)
  | _, [] => []
  | state, l :: r =>
    let line := Text.trim l
    if !isRow line then
      match state with
      | .outside => tableEntries .outside r
      | _ => []
    else
      let row := cells line
      if row.length < 4 then tableEntries state r
      else
        match state with
        | .outside => tableEntries .headed r
        | .headed =>
          if isRule row then tableEntries .ruled r
          else (rowField? row).toList ++ tableEntries .headed r
        | .ruled => (rowField? row).toList ++ tableEntries .ruled r

/-! ## Fenced blocks -/

/-- The lines inside each closed pair of fences. -/
def blocks : Option (List Text) → List Text → List (List Text)
  | _, [] => []
  | none, l :: r => blocks (if isFence (Text.trim l) then some [] else none) r
  | some inside, l :: r =>
    if isFence (Text.trim l) then inside.reverse :: blocks none r
    else blocks (some (l :: inside)) r

/-- The entries of a block, which is a YAML mapping; anything else has none. -/
def blockEntries (block : List Text) : List (Text × Text) :=
  ((Yaml.readEntries? (Text.unlines block)).getD []).map fun e ↦ (e.1.text, e.2.text)

/-! ## All dialects -/

/-- Keys with values in the order of the lines that write them. -/
def entries (d : Dialect) (ls : List Text) : List (Text × Text) :=
  match d with
  | .colons => ls.filterMap colonsField?
  | .packed => ls.flatMap packedEntries
  | .table => tableEntries .outside ls
  | .fenced => (blocks none ls).flatMap blockEntries

/-- The fields that a section holds in this dialect. -/
def read (d : Dialect) (section_ : Text) : Fields :=
  TextMap.ofList (d.entries (Text.lines section_))

end Markbook.Dialect
