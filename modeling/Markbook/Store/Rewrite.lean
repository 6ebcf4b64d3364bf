import Markbook.Store.Basic

/-!
# Rewriting Documents

A text is rewritten for some records: the heading of a record's section is written anew, the field
lines of the section are replaced by one block, and everything else is copied.  The block stands
where the first field line was, or behind the section when it had none.
-/

namespace Markbook

namespace Section

/-- Puts a block in place of the marked lines: at the first of them, else behind all. -/
def withBlock (block : Option Text) : List (Text × Bool) → List Text
  | [] => block.toList
  | (_, true) :: r => block.toList ++ (r.filter (!·.2)).map (·.1)
  | (l, false) :: r => l :: withBlock block r

/-- The lines of a section with the fields of a record. -/
def withFields (fields : Fields) (d : Dialect) (ls : List Text) : List Text :=
  withBlock (if fields.isEmpty then none else some (d.write fields)) (ls.zip (d.mask ls))

end Section

/-- The record that a line names as a heading, with the level of the heading. -/
def recordNamed? (t : StatusTable) (records : List Record) (l : Text) : Option (Nat × Record) :=
  (Heading.named? t l).bind fun p ↦
    (records.find? fun r ↦ r.name = p.2).map fun r ↦ (p.1, r)

/-- A part of a body, as it is rewritten. -/
inductive Portion where
  | copied (line : Text)
  /-- The heading of a record, by its line number and level, with the lines of its section. -/
  | renewed (line level : Nat) (r : Record) (lines : List Text)

namespace Portion

/-- The lines that a portion becomes.  The block of a record counts as one. -/
def written (t : StatusTable) : Portion → List Text
  | .copied l => [l]
  | .renewed _ level r ls =>
    Heading.write t level r.status r.name r.title ::
      Section.withFields (r.writtenFields t) r.dialect ls

/-- Goes through numbered lines.  The heading of a record looks ahead to the next heading and takes
the lines up to there, which are then skipped. -/
def ofLines (t : StatusTable) (records : List Record) : Nat → Nat → List Text → List Portion
  | _, _, [] => []
  | skipped + 1, n, _ :: r => ofLines t records skipped (n + 1) r
  | 0, n, l :: r =>
    match recordNamed? t records l with
    | some (level, record) =>
      let ls := r.takeWhile (!Heading.isHeading ·)
      .renewed n level record ls :: ofLines t records ls.length (n + 1) r
    | none => .copied l :: ofLines t records 0 (n + 1) r

end Portion

/-- Rewrites the sections of the records in a body. -/
def rewriteBody (t : StatusTable) (records : List Record) (body : Text) : Text :=
  Text.unlines ((Portion.ofLines t records 0 1 (Text.lines body)).flatMap (Portion.written t)) ++
    ['\n']

/-- Rewrites the sections of the records in the text of a document.  The preamble stays. -/
def rewrite (t : StatusTable) (records : List Record) (content : Text) : Text :=
  match Preamble.split? content with
  | some p => p.lead ++ rewriteBody t records p.body
  | none => rewriteBody t records content

end Markbook
