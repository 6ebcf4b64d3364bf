import Markbook.Decimal.Notation

/-!
# Writing TOML

A string is written in the simplest quotes that hold it without an escape: double quotes, single
quotes, three double quotes, three single quotes.  A string that none of them hold gets double
quotes and escapes, three of each when it has a line break.
-/

namespace Markbook.Toml

/-- Must the character be escaped between double quotes, even on several lines? -/
def isControl (c : Char) : Bool := (c.toNat < 0x20 && c ≠ '\n') || c.toNat = 0x7F

/-- The length of the longest run of a character. -/
def longestRun (mark : Char) (s : Text) : Nat :=
  (s.foldl (fun (p : Nat × Nat) c ↦
    let run := if c = mark then p.1 + 1 else 0
    (run, max p.2 run)) (0, 0)).2

/-- The four hexadecimal digits of a code point. -/
def codeText (n : Nat) : Text :=
  let ds := (Nat.toDigits 16 n).map Char.toUpper
  Decimal.zeros (4 - ds.length) ++ ds

/-- A character between double quotes. -/
def escapedChar (c : Char) : Text :=
  match c with
  | '\t' => ['\\', 't']
  | '\n' => ['\\', 'n']
  | '\r' => ['\\', 'r']
  | '"' => ['\\', '"']
  | '\\' => ['\\', '\\']
  | c =>
    if c.toNat = 8 then ['\\', 'b']
    else if c.toNat = 12 then ['\\', 'f']
    else if isControl c then '\\' :: 'u' :: codeText c.toNat
    else [c]

/-- Characters between three double quotes.  Only the third of three quotes in a row is escaped;
`run` counts the quotes just written. -/
def escapedLong : Nat → Text → Text
  | _, [] => []
  | run, c :: r =>
    if c = '"' then
      if run = 2 then '\\' :: '"' :: escapedLong 0 r else '"' :: escapedLong (run + 1) r
    else if c = '\n' then '\n' :: escapedLong 0 r
    else escapedChar c ++ escapedLong 0 r

/-- Puts quotes around a text. -/
def enclose (quotes s : Text) : Text := quotes ++ s ++ quotes

/-- Puts long quotes around a text; one with a line break starts on a line of its own. -/
def encloseLong (quotes : Text) (isMultiline : Bool) (s : Text) : Text :=
  enclose quotes (if isMultiline then '\n' :: s else s)

/-- A string value. -/
def quoted (s : Text) : Text :=
  let controls := s.any isControl
  let multiline := s.contains '\n'
  let long : Text := ['"', '"', '"']
  if !controls && !s.contains '\\' && !s.contains '"' && !multiline then enclose ['"'] s
  else if !controls && !s.contains '\'' && !multiline then enclose ['\''] s
  else if !controls && !s.contains '\\' && longestRun '"' s ≤ 2 then encloseLong long multiline s
  else if !controls && longestRun '\'' s ≤ 2 then encloseLong ['\'', '\'', '\''] multiline s
  else if multiline then encloseLong long true (escapedLong 0 s)
  else enclose ['"'] (s.flatMap escapedChar)

/-- A key, bare where letters, digits, underscores and hyphens suffice. -/
def keyText (s : Text) : Text :=
  if !s.isEmpty && s.all fun c ↦ c.isAlphanum || c = '_' || c = '-' then s
  else if !s.any isControl && !s.contains '\\' && !s.contains '"' && !s.contains '\n' then
    enclose ['"'] s
  else if !s.any isControl && !s.contains '\'' && !s.contains '\n' then enclose ['\''] s
  else enclose ['"'] (s.flatMap escapedChar)

/-- A list of strings; one of two or more has a line for each. -/
def listText (l : List Text) : Text :=
  match l with
  | [] => ['[', ']']
  | [s] => '[' :: quoted s ++ [']']
  | l => '[' :: '\n' :: l.flatMap (fun s ↦ "    ".toList ++ quoted s ++ [',', '\n']) ++ [']']

/-- A line with a key and its value. -/
def entryLine (key value : Text) : Text := keyText key ++ ' ' :: '=' :: ' ' :: value ++ ['\n']

end Markbook.Toml
