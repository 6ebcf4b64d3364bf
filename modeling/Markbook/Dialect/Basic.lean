import Markbook.Text.Blank

/-!
# Field Dialects

A section writes its fields in one of four dialects: one `Key:: value` a line, packed on a line that
starts with two colons, in a two-column table, or between fences of three hyphens.

This module says which lines belong to a dialect.  `Dialect.detect` guesses the dialect of a section
from the first line that looks like any; `Dialect.mask` marks the lines that hold field data.
-/

namespace Markbook

inductive Dialect where
  | colons
  | packed
  | table
  | fenced
deriving DecidableEq, Repr, Inhabited

namespace Dialect

def all : List Dialect := [.colons, .packed, .table, .fenced]

/-- The name of the dialect without its common beginning. -/
def word : Dialect → Text
  | .colons => "colons"
  | .packed => "packed"
  | .table => "table"
  | .fenced => "frontmatter"

/-- The name of the dialect in documents and settings. -/
def tag (d : Dialect) : Text := "kv-".toList ++ d.word

/-- The dialect with this name, which may lack its beginning. -/
def ofTag? (s : Text) : Option Dialect := all.find? fun d ↦ s = d.tag || s = d.word

/-- Reads a name given by a person: blanks around it and the case of letters have no meaning. -/
def ofName? (s : Text) : Option Dialect := ofTag? (Text.asciiLower (Text.trim s))

/-- What is said of a name that no dialect has. -/
def unknownName (s : Text) : Text :=
  "Invalid KV format: ".toList ++ s ++
    " (must be one of colons, packed, table, frontmatter)".toList

/-- The dialect a document asks for, by its tag or by a template with the tag in braces. -/
def ofHint (hint : Option Text) : Dialect :=
  match hint with
  | none => .colons
  | some h =>
    (all.find? fun d ↦ h = d.tag || Text.has ('\x7b' :: d.tag ++ ['\x7d']) h).getD .colons

/-! ## Lines -/

/-- Two colons and a space, between a key and its value. -/
def mark : Text := [':', ':', ' ']

/-- The part before two colons at the end of a line; a heading has none. -/
def bareKey? (line : Text) : Option Text :=
  if line.head? = some '#' then none else Text.before? [':', ':'] line

/-- Does the text look like a key, rather than prose? -/
def isKeyLike (s : Text) : Bool := !s.isEmpty && !Text.has [' ', ' '] s

def isRow (line : Text) : Bool := line.head? = some '|' && line.getLast? = some '|'

def isFence (line : Text) : Bool := line = ['-', '-', '-']

/-- Could a line hold a field in this dialect?  Between fences any line does, which one line cannot
tell, so only the fence itself counts. -/
def claims (d : Dialect) (line : Text) : Bool :=
  match d with
  | .colons => Text.has mark line || (bareKey? line).isSome
  | .packed => mark.isPrefixOf line
  | .table => isRow line
  | .fenced => isFence line

/-- The dialect that a trimmed line gives away. -/
def ofLine? (line : Text) : Option Dialect :=
  if isFence line then some .fenced
  else if mark.isPrefixOf line then some .packed
  else if (Text.cut? mark line).any fun p ↦ isKeyLike p.1 then some .colons
  else if (bareKey? line).any isKeyLike then some .colons
  else if isRow line && 3 ≤ (Text.pieces '|' line).length then some .table
  else none

/-- The dialect of a section: the first line that gives one away decides. -/
def detect (section_ : Text) : Dialect :=
  ((Text.lines section_).findSome? fun l ↦ ofLine? (Text.trim l)).getD .colons

/-- Marks the lines from each fence to the one that closes it; a fence that nothing closes marks
nothing. -/
def fencedMask : Bool → List Text → List Bool
  | _, [] => []
  | true, l :: r => true :: fencedMask (!isFence (Text.trim l)) r
  | false, l :: r =>
    let opens := isFence (Text.trim l) && r.any fun l ↦ isFence (Text.trim l)
    opens :: fencedMask opens r

/-- For each line of a section, whether it holds field data. -/
def mask (d : Dialect) (ls : List Text) : List Bool :=
  match d with
  | .fenced => fencedMask false ls
  | d => ls.map fun l ↦ d.claims (Text.trim l)

end Dialect

end Markbook
