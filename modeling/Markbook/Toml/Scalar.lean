import Markbook.Decimal.Notation
import Markbook.Toml.Basic

/-!
# TOML Scalars

Strings in four kinds of quotes, integers in four bases, decimal numbers, and dates and times.  An
integer has 64 bits; a number too large for a finite value is refused unless it is negative.
-/

namespace Markbook.Toml

/-- May the character stand in a comment? -/
def isComment (c : Char) : Bool := c = '\t' || 0x20 ≤ c.toNat

/-- May the character stand for itself between single quotes? -/
def isLiteral (c : Char) : Bool := c ≠ '\'' && c.toNat ≠ 0x7F && isComment c

/-- May the character stand for itself between double quotes? -/
def isBasic (c : Char) : Bool := c ≠ '"' && c ≠ '\\' && c.toNat ≠ 0x7F && isComment c

def isSpace (c : Char) : Bool := c = ' ' || c = '\t'

def skipSpace (s : Text) : Text := s.dropWhile isSpace

/-- Passes a line break. -/
def takeBreak? : Text → Option Text
  | '\n' :: r => some r
  | '\r' :: '\n' :: r => some r
  | _ => none

/-! ## Strings -/

/-- Reads a character by its code point in hexadecimal. -/
def takeCode? (digits : Nat) (s : Text) : Option (Char × Text) :=
  if s.length < digits then none
  else
    (Decimal.natural? 16 (s.take digits)).bind fun n ↦
      if n.isValidChar then some (Char.ofNat n, s.drop digits) else none

/-- Reads an escape behind its backslash. -/
def takeEscape? : Text → Option (Char × Text)
  | 'b' :: r => some ('\x08', r)
  | 't' :: r => some ('\t', r)
  | 'n' :: r => some ('\n', r)
  | 'f' :: r => some ('\x0c', r)
  | 'r' :: r => some ('\r', r)
  | '"' :: r => some ('"', r)
  | '\\' :: r => some ('\\', r)
  | 'u' :: r => takeCode? 4 r
  | 'U' :: r => takeCode? 8 r
  | _ => none

/-- Reads a string of one line behind its double quote. -/
def takeBasic? : Nat → Text → Option (Text × Text)
  | 0, _ => none
  | fuel + 1, s =>
    match s with
    | '"' :: r => some ([], r)
    | '\\' :: r => do
      let (c, r) ← takeEscape? r
      let (t, r) ← takeBasic? fuel r
      return (c :: t, r)
    | c :: r => if isBasic c then (takeBasic? fuel r).map fun p ↦ (c :: p.1, p.2) else none
    | [] => none

/-- Reads a string of one line behind its single quote. -/
def takeLiteral? (s : Text) : Option (Text × Text) :=
  match s.dropWhile isLiteral with
  | '\'' :: r => some (s.takeWhile isLiteral, r)
  | _ => none

/-- Reads the quotes at the end of a long string: three close it, and up to two in front of them
belong to it. -/
def takeClosing? (quote : Char) (s : Text) : Option (Text × Text) :=
  let run := (s.takeWhile (· = quote)).length
  if run < 3 then none
  else
    let own := min (run - 3) 2
    some (List.replicate own quote, s.drop (own + 3))

/-- Passes the rest of a line without text, and the blanks and line breaks behind it. -/
def skipFolded? (s : Text) : Option Text :=
  (takeBreak? (skipSpace s)).map fun _ ↦
    let blank := fun c : Char ↦ isSpace c || c = '\n' || c = '\r'
    s.dropWhile blank

/-- Reads a long string behind its three double quotes. -/
def takeLongBasic? : Nat → Text → Option (Text × Text)
  | 0, _ => none
  | fuel + 1, s =>
    match s with
    | '"' :: r =>
      match takeClosing? '"' s with
      | some p => some p
      | none => (takeLongBasic? fuel r).map fun p ↦ ('"' :: p.1, p.2)
    | '\\' :: r =>
      match skipFolded? r with
      | some r => takeLongBasic? fuel r
      | none => do
        let (c, r) ← takeEscape? r
        let (t, r) ← takeLongBasic? fuel r
        return (c :: t, r)
    | c :: r =>
      match takeBreak? s with
      | some r => (takeLongBasic? fuel r).map fun p ↦ ('\n' :: p.1, p.2)
      | none =>
        if isBasic c then (takeLongBasic? fuel r).map fun p ↦ (c :: p.1, p.2) else none
    | [] => none

/-- Reads a long string behind its three single quotes. -/
def takeLongLiteral? : Nat → Text → Option (Text × Text)
  | 0, _ => none
  | fuel + 1, s =>
    match s with
    | '\'' :: r =>
      match takeClosing? '\'' s with
      | some p => some p
      | none => (takeLongLiteral? fuel r).map fun p ↦ ('\'' :: p.1, p.2)
    | c :: r =>
      match takeBreak? s with
      | some r => (takeLongLiteral? fuel r).map fun p ↦ ('\n' :: p.1, p.2)
      | none =>
        if isLiteral c then (takeLongLiteral? fuel r).map fun p ↦ (c :: p.1, p.2) else none
    | [] => none

/-- A line break right behind the opening quotes of a long string does not count. -/
def skipFirstBreak (s : Text) : Text := (takeBreak? s).getD s

/-- Reads a string in any quotes. -/
def takeString? : Text → Option (Text × Text)
  | '"' :: '"' :: '"' :: r => takeLongBasic? (r.length + 1) (skipFirstBreak r)
  | '"' :: r => takeBasic? (r.length + 1) r
  | '\'' :: '\'' :: '\'' :: r => takeLongLiteral? (r.length + 1) (skipFirstBreak r)
  | '\'' :: r => takeLiteral? r
  | _ => none

/-! ## Numbers -/

/-- Drops underscores; each must stand between two digits. -/
def digits? (isDigit : Char → Bool) : Text → Option Text
  | [] => none
  | [c] => if isDigit c then some [c] else none
  | c :: '_' :: r => if isDigit c then (digits? isDigit r).map (c :: ·) else none
  | c :: r => if isDigit c then (digits? isDigit r).map (c :: ·) else none

/-- A sign and what follows it. -/
def cutSign : Text → Text × Text
  | '-' :: r => (['-'], r)
  | '+' :: r => ([], r)
  | r => ([], r)

/-- The digits of a decimal integer without its sign; it has no leading zero. -/
def whole? (s : Text) : Option Text :=
  if s.head? = some '0' && s ≠ ['0'] then none else digits? Char.isDigit s

def prefixed? (base : Nat) (s : Text) : Option Int :=
  ((digits? (fun c ↦ (Decimal.digit? base c).isSome) s).bind (Decimal.natural? base)).map
    Int.ofNat

def integer? (s : Text) : Option Int :=
  let value? :=
    match s with
    | '0' :: 'x' :: r => prefixed? 16 r
    | '0' :: 'o' :: r => prefixed? 8 r
    | '0' :: 'b' :: r => prefixed? 2 r
    | _ =>
      let (sign, r) := cutSign s
      (whole? r).bind fun ds ↦ Decimal.signed? 10 (sign ++ ds)
  value?.filter Decimal.fitsSigned

/-- The exponent of a number without underscores. -/
def exponent? (s : Text) : Option Text :=
  let (sign, r) := cutSign s
  (digits? Char.isDigit r).map (sign ++ ·)

/-- The text of an unsigned decimal number without underscores. -/
def decimal? (s : Text) : Option Text :=
  let isMark := fun c : Char ↦ c = 'e' || c = 'E'
  let mantissa := s.takeWhile (!isMark ·)
  let tail? : Option Text :=
    match s.dropWhile (!isMark ·) with
    | _ :: r => (exponent? r).map ('e' :: ·)
    | [] => if Text.has ['.'] mantissa then some [] else none
  match Text.cut? ['.'] mantissa with
  | some (a, b) => do return (← whole? a) ++ '.' :: (← digits? Char.isDigit b) ++ (← tail?)
  | none => do return (← whole? mantissa) ++ (← tail?)

def float? (s : Text) : Option Float :=
  let (sign, r) := cutSign s
  let negative := !sign.isEmpty
  if r = "inf" then some (if negative then -1.0 / 0.0 else 1.0 / 0.0)
  else if r = "nan" then some (if negative then -(0.0 / 0.0) else 0.0 / 0.0)
  else
    ((decimal? r).bind fun t ↦ Decimal.float? (sign ++ t)).filter fun x ↦ !(x == 1.0 / 0.0)

/-! ## Dates and times -/

/-- Reads a number of so many digits. -/
def takeFixed? (digits : Nat) (s : Text) : Option (Nat × Text) :=
  if (s.take digits).length = digits && (s.take digits).all Char.isDigit then
    (Decimal.natural? 10 (s.take digits)).map fun n ↦ (n, s.drop digits)
  else none

def isLeap (year : Nat) : Bool := year % 4 = 0 && (year % 100 ≠ 0 || year % 400 = 0)

def monthLength (year month : Nat) : Nat :=
  if month = 2 then (if isLeap year then 29 else 28)
  else if month = 4 || month = 6 || month = 9 || month = 11 then 30
  else 31

/-- Reads a date and keeps its text. -/
def takeDate? (s : Text) : Option (Text × Text) := do
  let (year, r) ← takeFixed? 4 s
  let r ← Text.after? ['-'] r
  let (month, r) ← takeFixed? 2 r
  let r ← Text.after? ['-'] r
  let (day, r) ← takeFixed? 2 r
  if month = 0 || 12 < month || day = 0 || monthLength year month < day then none
  return (s.take 10, r)

/-- Nine digits of a fraction of a second, without the zeros at their end. -/
def fractionText (ds : Text) : Text :=
  let kept := ((ds.take 9).reverse.dropWhile (· = '0')).reverse
  if kept.isEmpty then [] else '.' :: kept

/-- Reads a time of the day and keeps its text. -/
def takeClock? (s : Text) : Option (Text × Text) := do
  let (hour, r) ← takeFixed? 2 s
  let r ← Text.after? [':'] r
  let (minute, r) ← takeFixed? 2 r
  let r ← Text.after? [':'] r
  let (second, r) ← takeFixed? 2 r
  if 23 < hour || 59 < minute || 60 < second then none
  match r with
  | '.' :: t =>
    let ds := t.takeWhile Char.isDigit
    if ds.isEmpty then none
    return (s.take 8 ++ fractionText ds, t.dropWhile Char.isDigit)
  | _ => return (s.take 8, r)

/-- Reads an offset from universal time, if there is one. -/
def takeOffset? (s : Text) : Option (Text × Text) :=
  match s with
  | 'Z' :: r | 'z' :: r => some (['Z'], r)
  | c :: r =>
    if c = '+' || c = '-' then do
      let (hour, t) ← takeFixed? 2 r
      let t ← Text.after? [':'] t
      let (minute, t) ← takeFixed? 2 t
      if 23 < hour || 59 < minute then none
      return (s.take 6, t)
    else some ([], s)
  | [] => some ([], [])

/-- Reads a time of the day with an offset behind a date. -/
def takeBehindDate? (s : Text) : Option (Text × Text) :=
  let stamp? : Text → Option (Text × Text) := fun r ↦ do
    let (clock, r) ← takeClock? r
    let (offset, r) ← takeOffset? r
    return ('T' :: clock ++ offset, r)
  match s with
  | 'T' :: r | 't' :: r => stamp? r
  | ' ' :: c :: r => if c.isDigit then stamp? (c :: r) else some ([], s)
  | _ => some ([], s)

/-- Reads a date, a time, or both. -/
def takeTime? (s : Text) : Option (Text × Text) :=
  match takeDate? s with
  | some (date, r) => (takeBehindDate? r).map fun p ↦ (date ++ p.1, p.2)
  | none => takeClock? s

/-! ## Bare scalars -/

/-- The characters of a number or of a truth value. -/
def isScalarChar (c : Char) : Bool := c.isAlphanum || c = '_' || c = '+' || c = '-' || c = '.'

/-- Reads a scalar without quotes. -/
def takeBare? (s : Text) : Option (Toml × Text) :=
  match takeTime? s with
  | some (t, r) => some (.time t, r)
  | none =>
    let word := s.takeWhile isScalarChar
    let rest := s.dropWhile isScalarChar
    if word = "true" then some (.bool true, rest)
    else if word = "false" then some (.bool false, rest)
    else
      match integer? word with
      | some n => some (.int n, rest)
      | none => (float? word).map fun x ↦ (.float x, rest)

end Markbook.Toml
