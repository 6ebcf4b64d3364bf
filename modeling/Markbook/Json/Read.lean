import Markbook.Json.Basic
import Markbook.Text.Basic

/-!
# Reading JSON

The grammar is strict: no comment, no comma at the end, no number with a leading zero, no control
character inside a string.  Members keep their order and may repeat a key.

An escaped surrogate outside of a pair is no error by itself, since a reader may pass over the value
that holds it: such a string, or an object with such a key, is `Json.broken`.
-/

namespace Markbook.Json

def isSpace (c : Char) : Bool := c = ' ' || c = '\n' || c = '\r' || c = '\t'

def skipSpace (s : Text) : Text := s.dropWhile isSpace

/-- Reads the four digits of an escaped code unit. -/
def takeUnit? : Text → Option (Nat × Text)
  | a :: b :: c :: d :: r => (Decimal.natural? 16 [a, b, c, d]).map fun n ↦ (n, r)
  | _ => none

def isHigh (n : Nat) : Bool := 0xD800 ≤ n && n < 0xDC00

def isLow (n : Nat) : Bool := 0xDC00 ≤ n && n < 0xE000

/-- The character of an escape of one letter. -/
def letterEscape? : Char → Option Char
  | '"' => some '"'
  | '\\' => some '\\'
  | '/' => some '/'
  | 'b' => some '\x08'
  | 'f' => some '\x0c'
  | 'n' => some '\n'
  | 'r' => some '\r'
  | 't' => some '\t'
  | _ => none

/-- Reads the rest of a string behind its opening quote.  The text is missing when a surrogate
stands alone. -/
def takeString? : Nat → Text → Option (Option Text × Text)
  | 0, _ => none
  | fuel + 1, s =>
    let more (c? : Option Char) (r : Text) : Option (Option Text × Text) :=
      (takeString? fuel r).map fun p ↦
        (match c?, p.1 with
          | some c, some t => some (c :: t)
          | _, _ => none, p.2)
    match s with
    | [] => none
    | '"' :: r => some (some [], r)
    | '\\' :: 'u' :: r =>
      match takeUnit? r with
      | none => none
      | some (n, r) =>
        if isHigh n then
          match r with
          | '\\' :: 'u' :: t =>
            match takeUnit? t with
            | none => none
            | some (m, t) =>
              if isLow m then
                more (some (Char.ofNat (0x10000 + (n - 0xD800) * 0x400 + (m - 0xDC00)))) t
              else more none r
          | _ => more none r
        else if isLow n then more none r
        else more (some (Char.ofNat n)) r
    | '\\' :: c :: r =>
      match letterEscape? c with
      | some c => more (some c) r
      | none => none
    | c :: r => if c.toNat < 32 then none else more (some c) r

def takeDigits (s : Text) : Text × Text := (s.takeWhile Char.isDigit, s.dropWhile Char.isDigit)

/-- Reads a whole number without a leading zero. -/
def takeWhole? : Text → Option (Text × Text)
  | '0' :: r => if r.head?.any Char.isDigit then none else some (['0'], r)
  | s =>
    let (ds, r) := takeDigits s
    if ds.isEmpty then none else some (ds, r)

/-- Reads the digits behind a mark that demands at least one. -/
def takeSome? (lead s : Text) : Option (Text × Text) :=
  let (ds, r) := takeDigits s
  if ds.isEmpty then none else some (lead ++ ds, r)

def takeFraction? : Text → Option (Text × Text)
  | '.' :: r => takeSome? ['.'] r
  | s => some ([], s)

def takeExponent? : Text → Option (Text × Text)
  | c :: r =>
    if c = 'e' || c = 'E' then
      match r with
      | '+' :: r => takeSome? [c, '+'] r
      | '-' :: r => takeSome? [c, '-'] r
      | r => takeSome? [c] r
    else some ([], c :: r)
  | [] => some ([], [])

/-- Reads a number and keeps its text. -/
def takeNumber? (s : Text) : Option (Text × Text) := do
  let (sign, s) :=
    match s with
    | '-' :: r => ((['-'], r) : Text × Text)
    | r => ([], r)
  let (whole, s) ← takeWhole? s
  let (fraction, s) ← takeFraction? s
  let (exponent, s) ← takeExponent? s
  return (sign ++ whole ++ fraction ++ exponent, s)

/-- An object from its members, unless a key is broken. -/
def ofMembers (members : List (Option Text × Json)) : Json :=
  match members.mapM fun m ↦ m.1.map fun k ↦ (k, m.2) with
  | some l => .obj l
  | none => .broken

mutual

/-- Reads a value at the start of a text, blanks in front of it passed. -/
def take? : Nat → Text → Option (Json × Text)
  | 0, _ => none
  | fuel + 1, s =>
    match skipSpace s with
    | [] => none
    | '"' :: r =>
      (takeString? (r.length + 1) r).map fun p ↦
        (match p.1 with
          | some t => .str t
          | none => .broken, p.2)
    | '[' :: r =>
      match skipSpace r with
      | ']' :: r => some (.arr [], r)
      | r => (takeItems? fuel r).map fun p ↦ (.arr p.1, p.2)
    | '\x7b' :: r =>
      match skipSpace r with
      | '\x7d' :: r => some (.obj [], r)
      | r => (takeMembers? fuel r).map fun p ↦ (ofMembers p.1, p.2)
    | s =>
      match Text.after? "null" s with
      | some r => some (.null, r)
      | none =>
        match Text.after? "true" s with
        | some r => some (.bool true, r)
        | none =>
          match Text.after? "false" s with
          | some r => some (.bool false, r)
          | none => (takeNumber? s).map fun p ↦ (.num p.1, p.2)

/-- Reads the items of an array up to its end; there is at least one. -/
def takeItems? : Nat → Text → Option (List Json × Text)
  | 0, _ => none
  | fuel + 1, s =>
    match take? fuel s with
    | none => none
    | some (j, r) =>
      match skipSpace r with
      | ',' :: r => (takeItems? fuel r).map fun p ↦ (j :: p.1, p.2)
      | ']' :: r => some ([j], r)
      | _ => none

/-- Reads the members of an object up to its end; there is at least one. -/
def takeMembers? : Nat → Text → Option (List (Option Text × Json) × Text)
  | 0, _ => none
  | fuel + 1, s =>
    match skipSpace s with
    | '"' :: r =>
      match takeString? (r.length + 1) r with
      | none => none
      | some (k, r) =>
        match skipSpace r with
        | ':' :: r =>
          match take? fuel r with
          | none => none
          | some (j, r) =>
            match skipSpace r with
            | ',' :: r => (takeMembers? fuel r).map fun p ↦ ((k, j) :: p.1, p.2)
            | '\x7d' :: r => some ([(k, j)], r)
            | _ => none
        | _ => none
    | _ => none

end

/-- Reads a text that is one JSON value. -/
def read? (s : Text) : Option Json :=
  match take? (2 * s.length + 2) s with
  | some (j, r) => if (skipSpace r).isEmpty then some j else none
  | none => none

end Markbook.Json
