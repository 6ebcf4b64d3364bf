import Markbook.Toml.Scalar

/-!
# Reading TOML

A document is read line by line: a header opens a table, and a key with its value goes to the table
that was opened last.  Values nest less than 80 deep.
-/

namespace Markbook.Toml

def isKeyChar (c : Char) : Bool := c.isAlphanum || c = '_' || c = '-'

/-- Reads one part of a key, bare or in quotes. -/
def takeKeyPart? : Text → Option (Text × Text)
  | '"' :: r => takeBasic? (r.length + 1) r
  | '\'' :: r => takeLiteral? r
  | s =>
    let word := s.takeWhile isKeyChar
    if word.isEmpty then none else some (word, s.dropWhile isKeyChar)

/-- Reads a key, its parts separated by points. -/
def takeKey? : Nat → Text → Option (List Text × Text)
  | 0, _ => none
  | fuel + 1, s => do
    let (part, r) ← takeKeyPart? (skipSpace s)
    match skipSpace r with
    | '.' :: r => (takeKey? fuel r).map fun p ↦ (part :: p.1, p.2)
    | r => return ([part], r)

/-- Passes a comment. -/
def skipComment : Text → Text
  | '#' :: r => r.dropWhile isComment
  | s => s

/-- Passes blanks, comments and line breaks inside of a list. -/
def skipGap? : Nat → Text → Option Text
  | 0, _ => none
  | fuel + 1, s =>
    let r := skipComment (skipSpace s)
    match takeBreak? r with
    | some r => skipGap? fuel r
    | none => if (skipSpace s).head? = some '#' then none else some r

mutual

/-- Reads a value.  The first number bounds the steps, the second the nesting. -/
def take? : Nat → Nat → Text → Option (Toml × Text)
  | 0, _, _ => none
  | fuel + 1, depth, s =>
    match s with
    | '[' :: r =>
      if depth = 0 then none
      else (takeItems? fuel (depth - 1) r).map fun p ↦ (.list p.1, p.2)
    | '\x7b' :: r =>
      if depth = 0 then none
      else
        match skipSpace r with
        | '\x7d' :: r => some (.table .inline [], r)
        | r => takeEntries? fuel (depth - 1) (.table .inline []) r
    | c :: _ =>
      if c = '"' || c = '\'' then (takeString? s).map fun p ↦ (.str p.1, p.2) else takeBare? s
    | [] => none

/-- Reads the items of a list up to its end. -/
def takeItems? : Nat → Nat → Text → Option (List Toml × Text)
  | 0, _, _ => none
  | fuel + 1, depth, s =>
    match skipGap? (s.length + 1) s with
    | none => none
    | some (']' :: r) => some ([], r)
    | some r =>
      match take? fuel depth r with
      | none => none
      | some (v, r) =>
        match skipGap? (r.length + 1) r with
        | some (',' :: r) => (takeItems? fuel depth r).map fun p ↦ (v :: p.1, p.2)
        | some (']' :: r) => some ([v], r)
        | _ => none

/-- Reads the entries of a table between braces up to its end; there is at least one. -/
def takeEntries? : Nat → Nat → Toml → Text → Option (Toml × Text)
  | 0, _, _, _ => none
  | fuel + 1, depth, target, s =>
    match takeKey? (s.length + 1) s with
    | some (path, '=' :: r) =>
      match take? fuel depth (skipSpace r) with
      | none => none
      | some (v, r) =>
        match put? path v target with
        | none => none
        | some target =>
          match skipSpace r with
          | ',' :: r => takeEntries? fuel depth target r
          | '\x7d' :: r => some (target, r)
          | _ => none
    | _ => none

end

/-- Passes the end of a line: blanks, a comment, and the line break or the end of the text. -/
def takeLineEnd? (s : Text) : Option Text :=
  match skipComment (skipSpace s) with
  | [] => some []
  | r => takeBreak? r

/-- Puts an entry into the table that was opened last. -/
def enter? (current path : List Text) (v : Toml) (root : Toml) : Option Toml :=
  at? false (put? path v) current root

/-- Reads lines up to the end of the text.  `current` is the path of the table opened last. -/
def takeLines? : Nat → List Text → Toml → Text → Option Toml
  | 0, _, _, _ => none
  | fuel + 1, current, root, s =>
    match skipSpace s with
    | [] => some root
    | '[' :: '[' :: r =>
      match takeKey? (r.length + 1) r with
      | some (path, ']' :: ']' :: r) => do
        let root ← openNext? path root
        takeLines? fuel path root (← takeLineEnd? r)
      | _ => none
    | '[' :: r =>
      match takeKey? (r.length + 1) r with
      | some (path, ']' :: r) => do
        let root ← openTable? path root
        takeLines? fuel path root (← takeLineEnd? r)
      | _ => none
    | c :: r =>
      if c = '#' || c = '\n' || c = '\r' then do
        takeLines? fuel current root (← takeLineEnd? (c :: r))
      else
        match takeKey? (r.length + 2) (c :: r) with
        | some (path, '=' :: t) => do
          let (v, t) ← take? (2 * t.length + 2) 79 (skipSpace t)
          let root ← enter? current path v root
          takeLines? fuel current root (← takeLineEnd? t)
        | _ => none

/-- Reads a document.  A byte order mark at its start is passed. -/
def read? (s : Text) : Option Toml :=
  let s := if s.head? = some (Char.ofNat 0xFEFF) then s.tail else s
  takeLines? (s.length + 2) [] (.table .header []) s

end Markbook.Toml
