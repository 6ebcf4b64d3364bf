import Markbook.Text.CharWidth

/-!
# Width of Texts

How many columns a text takes on a terminal.  That is the sum over its characters, but for
pictographs that are written with several characters: a symbol with a selector behind it is a
pictograph, one with a skin tone behind it is one pictograph, and joiners make one pictograph out of
several.

A text is measured from its end, so that each character is seen with what follows it.
-/

namespace Markbook.Text

/-- What follows a character. -/
inductive Follower where
  /-- Nothing that changes its width. -/
  | plain
  | pictograph
  | skinTone
  /-- A joiner with a pictograph behind it. -/
  | joiner
  /-- A selector; is there a joiner behind it? -/
  | selector (joined : Bool)
deriving DecidableEq, Repr

namespace Follower

/-- What a character is to the one before it, if nothing joins it to what follows. -/
def ofChar (c : Char) : Follower :=
  if isSkinTone c then .skinTone else if isPictograph c then .pictograph else .plain

/-- A selector in front of a character that takes none has no effect. -/
def settled (c : Char) : Follower → Follower
  | .selector joined => if isSymbol c then .selector joined else if joined then .joiner else .plain
  | f => f

/-- The columns that a character adds in front of a follower, and what it is to the one before
it. -/
def step (next : Follower) (c : Char) : Nat × Follower :=
  if c = '\ufe0f' then (0, .selector (next = .joiner))
  else
    match settled c next with
    | .selector joined => (if joined then 0 else 2, .pictograph)
    | .joiner =>
      match ofChar c with
      | .plain => (charWidth c, .plain)
      | f => (0, f)
    | .pictograph => if c = '\u200d' then (0, .joiner) else (charWidth c, ofChar c)
    | .skinTone =>
      if c = '\u200d' then (0, .joiner)
      else if isPerson c then (0, .pictograph)
      else (charWidth c, ofChar c)
    | .plain => (charWidth c, ofChar c)

end Follower

/-- The columns of a text, and what its first character is to one before it. -/
def measure (s : Text) : Nat × Follower :=
  s.foldr (fun c m ↦ (m.1 + (m.2.step c).1, (m.2.step c).2)) (0, .plain)

/-- The columns of a text on a terminal. -/
def width (s : Text) : Nat := (measure s).1

end Markbook.Text
