import Markbook.Text.Basic

/-!
# Reading Positions in YAML

A cursor is the rest of the text with the line, the column and the index reached.  Besides the line
feed and the carriage return, YAML breaks lines at three further characters, two of which survive in
the folded text of a scalar.
-/

namespace Markbook.Yaml

/-- May the character stand in a YAML stream at all? -/
def isPrintable (c : Char) : Bool :=
  let n := c.toNat
  n = 0x09 || n = 0x0A || n = 0x0D || (0x20 ≤ n && n ≤ 0x7E) || n = 0x85 ||
    (0xA0 ≤ n && n ≤ 0xD7FF) || (0xE000 ≤ n && n ≤ 0xFFFD) || (0x10000 ≤ n && n ≤ 0x10FFFF)

def isSpace (c : Char) : Bool := c = ' ' || c = '\t'

def isBreak (c : Char) : Bool :=
  c = '\n' || c = '\r' || c.toNat = 0x85 || c.toNat = 0x2028 || c.toNat = 0x2029

/-- Letters, digits, the underscore and the hyphen. -/
def isWordChar (c : Char) : Bool := c.isAlphanum || c = '_' || c = '-'

/-- Is the text at its end, or at a space, a tab or a line break? -/
def atBlank : Text → Bool
  | [] => true
  | c :: _ => isSpace c || isBreak c

/-- Is the text at its end or at a line break? -/
def atBreak : Text → Bool
  | [] => true
  | c :: _ => isBreak c

structure Cursor where
  rest : Text
  index : Nat
  line : Nat
  column : Nat

namespace Cursor

def start (s : Text) : Cursor := ⟨s, 0, 0, 0⟩

def peek? (p : Cursor) : Option Char := p.rest.head?

/-- Is the next character `c`? -/
def at_ (p : Cursor) (c : Char) : Bool := p.rest.head? = some c

def startsWith (p : Cursor) (s : Text) : Bool := s.isPrefixOf p.rest

/-- Passes `n` characters of one line. -/
def skip (p : Cursor) (n : Nat) : Cursor := ⟨p.rest.drop n, p.index + n, p.line, p.column + n⟩

/-- Passes a line break, if the cursor is at one. -/
def skipBreak (p : Cursor) : Cursor :=
  match p.rest with
  | '\r' :: '\n' :: r => ⟨r, p.index + 2, p.line + 1, 0⟩
  | c :: r => if isBreak c then ⟨r, p.index + 1, p.line + 1, 0⟩ else p
  | [] => p

/-- The break at the cursor as it enters the text of a scalar, and the cursor behind it. -/
def takeBreak (p : Cursor) : Text × Cursor :=
  let kept : Text :=
    match p.rest with
    | c :: _ =>
      if c.toNat = 0x2028 || c.toNat = 0x2029 then [c]
      else if isBreak c then ['\n']
      else []
    | [] => []
  (kept, p.skipBreak)

/-- The characters up to the first one that fails the test, and the cursor at that one.  The test
must fail at line breaks. -/
def takeWhile (p : Cursor) (test : Char → Bool) : Text × Cursor :=
  let taken := p.rest.takeWhile test
  (taken, p.skip taken.length)

def skipWhile (p : Cursor) (test : Char → Bool) : Cursor := (p.takeWhile test).2

/-- Passes a byte order mark at the start of a line, where it takes a column like any character. -/
def skipMark (p : Cursor) : Cursor := if p.column = 0 && p.at_ '\ufeff' then p.skip 1 else p

/-- Passes a comment up to the end of its line, if the cursor is at one. -/
def skipComment (p : Cursor) : Cursor :=
  if p.at_ '#' then p.skipWhile (!isBreak ·) else p

/-- Is the cursor at a line of three marks that separates documents? -/
def atSeparator (p : Cursor) (mark : Char) : Bool :=
  p.column = 0 && p.startsWith [mark, mark, mark] && atBlank (p.rest.drop 3)

def atDocumentMark (p : Cursor) : Bool := p.atSeparator '-' || p.atSeparator '.'

end Cursor

/-- Folds the breaks between two lines of a scalar: one line feed becomes a space, and of several
the first is dropped. -/
def foldBreaks (first others : Text) : Text :=
  match first with
  | '\n' :: _ => if others.isEmpty then [' '] else others
  | _ => first ++ others

end Markbook.Yaml
