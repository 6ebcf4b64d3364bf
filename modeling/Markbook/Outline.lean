import Markbook.Entity
import Markbook.Tree

/-!
# Outlines

The body of a document is cut at its headings.  In an outline every heading with a name opens an
entity whose section runs to the next heading, named or not, and entities nest by level: the parent
of an entity is the nearest earlier one of a smaller level.  A file of one entity has the first
named heading as its heading and all that follows as its section.
-/

namespace Markbook

/-- A heading whose section is still being collected. -/
structure OpenHeading where
  level : Nat
  /-- Line number in the body, from 1. -/
  line : Nat
  heading : Heading
  lines : List Text

namespace OpenHeading

/-- Opens the section of a heading, if the heading has a name. -/
def ofText? (t : StatusTable) (level line : Nat) (text : Text) : Option OpenHeading :=
  let h := Heading.ofText t text
  if h.name.isEmpty then none else some ⟨level, line, h, []⟩

def push (l : Text) (o : OpenHeading) : OpenHeading := { o with lines := o.lines ++ [l] }

/-- The lines of the section, each with its line feed. -/
def body (o : OpenHeading) : Text :=
  if o.lines.isEmpty then [] else Text.unlines o.lines ++ ['\n']

/-- The entity of a heading with all lines of its section. -/
def close (m : Markers) (t : StatusTable) (o : OpenHeading) : Entity :=
  Entity.ofSection m t o.heading o.level o.line o.body

end OpenHeading

namespace Outline

/-- Moves the innermost open tree into the one around it, or to the finished trees. -/
def closeOne {α : Type} (open_ : List (Nat × Tree α)) (done : List (Tree α)) :
    List (Nat × Tree α) × List (Tree α) :=
  match open_ with
  | [] => ([], done)
  | [(_, t)] => ([], done ++ [t])
  | (_, t) :: (l, p) :: r => ((l, .node p.value (p.children ++ [t])) :: r, done)

/-- Closes the open trees that cannot hold an entity of the given level. -/
def closeTo {α : Type} (level : Nat) :
    Nat → List (Nat × Tree α) → List (Tree α) → List (Nat × Tree α) × List (Tree α)
  | 0, open_, done => (open_, done)
  | fuel + 1, open_, done =>
    match open_ with
    | [] => ([], done)
    | (l, t) :: r =>
      if level ≤ l then
        let (open_, done) := closeOne ((l, t) :: r) done
        closeTo level fuel open_ done
      else ((l, t) :: r, done)

/-- Nests entities by level, with a stack of open trees, the innermost first. -/
def nestFrom {α : Type} (open_ : List (Nat × Tree α)) (done : List (Tree α)) :
    List (Nat × α) → List (Tree α)
  | [] => (closeTo 0 open_.length open_ done).2
  | (level, e) :: r =>
    let (open_, done) := closeTo level open_.length open_ done
    nestFrom ((level, .node e []) :: open_) done r

def nest {α : Type} (items : List (Nat × α)) : List (Tree α) := nestFrom [] [] items

/-- Goes through numbered lines.  A heading closes the open section, and opens one when it has a
name; every other line goes to the open section, if there is one. -/
def collect (m : Markers) (t : StatusTable) : Option OpenHeading → Nat → List Text → List Entity
  | open_, _, [] => (open_.map (OpenHeading.close m t)).toList
  | open_, n, l :: r =>
    match Heading.split? (Text.trim l) with
    | some (level, text) =>
      (open_.map (OpenHeading.close m t)).toList ++
        collect m t (OpenHeading.ofText? t level n text) (n + 1) r
    | none => collect m t (open_.map (OpenHeading.push l)) (n + 1) r

/-- The entities of an outline, in document order. -/
def entities (m : Markers) (t : StatusTable) (body : Text) : List Entity :=
  collect m t none 1 (Text.lines body)

/-- The entities of an outline as trees. -/
def trees (m : Markers) (t : StatusTable) (body : Text) : List (Tree Entity) :=
  nest ((entities m t body).map fun e ↦ (e.level, e))

/-- The entity of the first named heading, with all lines after it as its section. -/
def firstEntity? (m : Markers) (t : StatusTable) : Nat → List Text → Option Entity
  | _, [] => none
  | n, l :: r =>
    match Heading.split? (Text.trim l) with
    | some (level, text) =>
      let h := Heading.ofText t text
      if h.name.isEmpty then firstEntity? m t (n + 1) r
      else some (Entity.ofSection m t h level n (Text.unlines r))
    | none => firstEntity? m t (n + 1) r

/-- The entity of a file that holds one. -/
def single? (m : Markers) (t : StatusTable) (body : Text) : Option Entity :=
  firstEntity? m t 1 (Text.lines body)

end Outline

end Markbook
