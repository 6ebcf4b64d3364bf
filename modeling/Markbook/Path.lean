import Markbook.Text.Basic

/-!
# Paths

A path is written as text and compared by its parts: repeated slashes, a slash at the end and dots
between slashes have no meaning, a dot at the start does.
-/

namespace Markbook

inductive PathPart where
  | root
  | here
  | up
  | name (s : Text)
deriving DecidableEq, Repr

structure Path where
  text : Text
deriving Repr, Inhabited

instance : Coe String Path := ⟨fun s ↦ ⟨s.toList⟩⟩

namespace PathPart

/-- The place of the kinds of parts in the order of paths. -/
def rank : PathPart → Nat
  | .root => 0
  | .here => 1
  | .up => 2
  | .name _ => 3

def lt : PathPart → PathPart → Bool
  | .name a, .name b => a < b
  | a, b => a.rank < b.rank

end PathPart

namespace Path

def ofPiece (s : Text) : PathPart := if s = ['.', '.'] then .up else .name s

/-- The parts of a path. -/
def parts (p : Path) : List PathPart :=
  let pieces := Text.pieces '/' p.text
  let inner := (pieces.filter fun s ↦ !s.isEmpty && s ≠ ['.']).map ofPiece
  if p.text.head? = some '/' then .root :: inner
  else if pieces.head? = some ['.'] then .here :: inner
  else inner

instance : BEq Path := ⟨fun a b ↦ a.parts == b.parts⟩

/-- Lexicographic order of parts. -/
def ltParts : List PathPart → List PathPart → Bool
  | [], [] => false
  | [], _ :: _ => true
  | _ :: _, [] => false
  | a :: r, b :: t => a.lt b || (!b.lt a && ltParts r t)

def lt (a b : Path) : Bool := ltParts a.parts b.parts

def isAbsolute (p : Path) : Bool := p.text.head? = some '/'

/-- A path below another one, unless it is absolute. -/
def join (base p : Path) : Path :=
  if p.isAbsolute || base.text.isEmpty then p
  else if base.text.getLast? = some '/' then ⟨base.text ++ p.text⟩
  else ⟨base.text ++ '/' :: p.text⟩

def partText : PathPart → Text
  | .root => []
  | .here => ['.']
  | .up => ['.', '.']
  | .name s => s

/-- The text of a relative list of parts. -/
def ofParts (l : List PathPart) : Text := Text.join ['/'] (l.map partText)

/-- The text of a path as seen from `root`, when it lies below it. -/
def relativeTo (p root : Path) : Text :=
  if root.parts.isPrefixOf p.parts then ofParts (p.parts.drop root.parts.length) else p.text

/-- The last part of a path, if it is a name. -/
def fileName? (p : Path) : Option Text :=
  match p.parts.getLast? with
  | some (.name s) => some s
  | _ => none

/-- The text behind the last dot of the file name; a dot at its start does not count. -/
def extension? (p : Path) : Option Text :=
  p.fileName?.bind fun s ↦ (Text.cutLast? '.' s).bind fun q ↦
    if q.1.isEmpty then none else some q.2

/-- The directory of a path, when it is named. -/
def parent? (p : Path) : Option Path :=
  match p.parts with
  | [] | [.root] => none
  | l =>
    match l.dropLast with
    | [] => none
    | [.root] => some ⟨['/']⟩
    | l => some ⟨(if l.head? = some .root then ['/'] else []) ++
        ofParts (l.filter fun q ↦ q ≠ .root)⟩

end Path

end Markbook
