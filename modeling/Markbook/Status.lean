import Markbook.Text.Blank

/-!
# Status Tables

A status table lists canonical status names with the forms a document writes them in.  The first
form of a status is the one this library writes.  A canonical name may be declared again: the later
declaration replaces its forms, and the status keeps its place in the table.

Reading a heading takes the longest form that begins it (`StatusTable.marker?`); naming a status in
a field goes through `StatusTable.canonical?`, which knows the forms and the names themselves.
-/

namespace Markbook

/-- The declarations of a table, in order: a canonical name with its forms. -/
structure StatusTable where
  declared : List (Text × List Text)
deriving DecidableEq, Repr

namespace StatusTable

/-- Declares a status: new names go to the end, a known name gets new forms. -/
def declare (name : Text) (forms : List Text) : List (Text × List Text) → List (Text × List Text)
  | [] => [(name, forms)]
  | row :: r => if row.1 = name then (row.1, forms) :: r else row :: declare name forms r

/-- The statuses with their current forms, in table order. -/
def rows (t : StatusTable) : List (Text × List Text) :=
  t.declared.foldl (fun rows row ↦ declare row.1 row.2 rows) []

def names (t : StatusTable) : List Text := t.rows.map (·.1)

/-- The status that a form or a name stands for: the last declaration that mentions it decides. -/
def canonical? (t : StatusTable) (s : Text) : Option Text :=
  (t.declared.reverse.find? fun row ↦ row.2.contains s || row.1 = s).map (·.1)

/-- The canonical status where the table knows one, else the text itself. -/
def canonical (t : StatusTable) (s : Text) : Text := (t.canonical? s).getD s

def forms? (t : StatusTable) (name : Text) : Option (List Text) :=
  (t.rows.find? fun row ↦ row.1 = name).map (·.2)

/-- The form a canonical status is written in. -/
def written? (t : StatusTable) (name : Text) : Option Text :=
  (t.forms? name).bind List.head?

/-- A status form found at the start of a text, and the text after it without leading blanks. -/
structure Marker where
  status : Text
  form : Text
  rest : Text
deriving DecidableEq, Repr

/-- Every form with its status, in table order. -/
def allForms (t : StatusTable) : List (Text × Text) :=
  t.rows.flatMap fun row ↦ row.2.map fun form ↦ (row.1, form)

/-- Keeps the longer form in octets; of equally long ones the earlier. -/
def longer (best : Option (Text × Text)) (candidate : Text × Text) : Option (Text × Text) :=
  match best with
  | none => some candidate
  | some b => if b.2.octets < candidate.2.octets then some candidate else some b

/-- The longest form, empty ones aside, that the text begins with. -/
def longestForm? (t : StatusTable) (s : Text) : Option (Text × Text) :=
  (t.allForms.filter fun e ↦ !e.2.isEmpty && e.2.isPrefixOf s).foldl longer none

def marker? (t : StatusTable) (s : Text) : Option Marker :=
  (t.longestForm? s).map fun e ↦ ⟨e.1, e.2, Text.trimStart (s.drop e.2.length)⟩

/-- The text without a leading status form. -/
def strip (t : StatusTable) (s : Text) : Text :=
  match t.marker? s with
  | some m => m.rest
  | none => s

/-- The built-in statuses, each with a glyph, a bracketed form and a word. -/
def builtIn : StatusTable where
  declared := [
    ("complete", ["✅", "[x]", "DONE"]),
    ("in_progress", ["🔄", "[~]", "WIP"]),
    ("pending", ["⏳", "[ ]", "TODO"]),
    ("blocked", ["🚫", "[!]", "BLOCKED"]),
    ("failed", ["❌", "[F]", "FAILED"]),
    ("cancelled", ["⊘", "[-]", "CANCELLED"])]

instance : Inhabited StatusTable := ⟨builtIn⟩

end StatusTable

end Markbook
