import Markbook.Status

/-!
# Headings

A heading line is one to six hashes and a text.  The text may start with a status form; behind it
stand a name and a title, separated by an em dash or by two spaced hyphens.  Without a separator the
text is both.

`Heading.write` is the form this library writes; `named?` reads level and name back.
-/

namespace Markbook

/-- The text of a heading, taken apart. -/
structure Heading where
  /-- Canonical status, when the text starts with a form of one. -/
  status : Option Text
  /-- The form as written. -/
  statusForm : Option Text
  name : Text
  title : Text
deriving DecidableEq, Repr

namespace Heading

def emDash : Char := '—'

/-- The level and the text of a trimmed heading line. -/
def split? (line : Text) : Option (Nat × Text) :=
  let level := (line.takeWhile (· = '#')).length
  let rest := Text.trim (line.drop level)
  if level = 0 || 6 < level || rest.isEmpty then none else some (level, rest)

/-- Is the line, blanks around it aside, a heading? -/
def isHeading (line : Text) : Bool := (split? (Text.trim line)).isSome

/-- Takes name and title apart. -/
def nameAndTitle (s : Text) : Text × Text :=
  match Text.cut? [emDash] s with
  | some (name, title) => (Text.trim name, Text.trim title)
  | none =>
    match Text.cut? [' ', '-', '-', ' '] s with
    | some (name, title) => (Text.trim name, Text.trim title)
    | none => (Text.trim s, Text.trim s)

/-- Takes the text of a heading apart. -/
def ofText (t : StatusTable) (s : Text) : Heading :=
  match t.marker? s with
  | some m =>
    let (name, title) := nameAndTitle m.rest
    ⟨some m.status, some m.form, name, title⟩
  | none =>
    let (name, title) := nameAndTitle s
    ⟨none, none, name, title⟩

/-- The level and the name of a line that is a heading. -/
def named? (t : StatusTable) (line : Text) : Option (Nat × Text) :=
  (split? (Text.trim line)).map fun p ↦ (p.1, (nameAndTitle (t.strip p.2)).1)

/-- The form a status is written in, if its canonical name has one. -/
def marker? (t : StatusTable) (status : Option Text) : Option Text :=
  status.bind fun s ↦ t.written? (t.canonical s)

/-- The heading line of an entity.  A title equal to the name is left out. -/
def write (t : StatusTable) (level : Nat) (status : Option Text) (name title : Text) : Text :=
  let hashes := List.replicate (max 1 (min level 6)) '#'
  let marker :=
    match marker? t status with
    | some m => m ++ [' ']
    | none => []
  let titled := if title = name then [] else ' ' :: emDash :: ' ' :: title
  hashes ++ ' ' :: marker ++ name ++ titled

end Heading

end Markbook
