import Markbook.Text.Blank

/-!
# Preambles

A document may start with a preamble between two fences of three hyphens.  Blanks may stand before
the opening fence, and the preamble's text starts right behind it, or on the next line when nothing
follows the fence.  The first later line that starts with three hyphens closes it; the body starts
on the line after that.
-/

namespace Markbook

/-- A document cut in three: `lead` is everything up to the body, and `text` the part between the
fences. -/
structure Preamble where
  lead : Text
  text : Text
  body : Text
deriving DecidableEq, Repr

namespace Preamble

def fence : Text := ['-', '-', '-']

/-- The text behind the opening fence and the line feed right after it, with the number of octets in
front of it. -/
def opened? (content : Text) : Option (Nat × Text) :=
  let trimmed := Text.trimStart content
  let blank := content.octets - trimmed.octets
  (Text.after? fence trimmed).map fun r ↦
    match Text.after? ['\n'] r with
    | some behind => (blank + 3 + 1, behind)
    | none => (blank + 3, r)

/-- How many octets of the text behind the opening fence stand in front of the body: those of the
preamble's text and of the line of the closing fence, or all of them when that line is the last. -/
def closed (opened text closing : Text) : Nat :=
  match Text.cut? ['\n'] closing with
  | some (line, _) => text.octets + 4 + line.octets + 1
  | none => opened.octets

/-- The text of the preamble, and the number of octets in front of the body. -/
def measured? (content : Text) : Option (Text × Nat) := do
  let (start, r) ← opened? content
  let (text, closing) ← Text.cut? ('\n' :: fence) r
  return (text, start + closed r text closing)

def split? (content : Text) : Option Preamble := do
  let (text, offset) ← measured? content
  let (lead, body) ← Text.cutAt? offset content
  return ⟨lead, text, body⟩

/-- Where the body starts, in octets. -/
def offset (p : Preamble) : Nat := p.lead.octets

end Preamble

end Markbook
