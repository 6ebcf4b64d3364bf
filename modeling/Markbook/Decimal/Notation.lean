import Markbook.Decimal.Shortest

/-!
# Number Texts

How numbers are written, and which texts are read as numbers.  Values inside documents are written
by `Decimal.natural`: positionally for magnitudes from `10 ^ -5` up to `10 ^ 16`, always with a
point, and otherwise with a bare exponent.  Settings that expect a text and get a number write it by
`Decimal.positional`, which never has an exponent.
-/

namespace Markbook.Decimal

def digitsOf (n : Nat) : Text := Nat.toDigits 10 n

def ofInt (n : Int) : Text :=
  match n with
  | .ofNat n => digitsOf n
  | .negSucc n => '-' :: digitsOf (n + 1)

def zeros (n : Nat) : Text := List.replicate n '0'

def isNegative (x : Float) : Bool := Nat.pow 2 63 ≤ x.toBits.toNat

def withSign (x : Float) (s : Text) : Text := if isNegative x then '-' :: s else s

/-- Digits `ds` with the decimal point `k` places behind their start. -/
def placePoint (ds : Text) (k : Int) : Text :=
  if k ≤ 0 then ['0', '.'] ++ zeros (-k).toNat ++ ds
  else if ds.length ≤ k.toNat then ds ++ zeros (k.toNat - ds.length)
  else ds.take k.toNat ++ '.' :: ds.drop k.toNat

/-- The text of a finite number inside a document. -/
def natural (x : Float) : Text :=
  let d := shortest .even (Binary.ofBits x.toBits)
  if d.digits = 0 then withSign x ['0', '.', '0']
  else
    let ds := digitsOf d.digits
    let k := d.exponent + ds.length
    withSign x <|
      if 0 ≤ d.exponent && k ≤ 16 then placePoint ds k ++ ['.', '0']
      else if -5 < k && k ≤ 16 then placePoint ds k
      else
        let mantissa :=
          match ds with
          | [c] => [c]
          | c :: r => c :: '.' :: r
          | [] => []
        mantissa ++ 'e' :: ofInt (k - 1)

/-- The text of a number as a setting. -/
def positional (x : Float) : Text :=
  if x.isNaN then "NaN"
  else if x.isInf then withSign x "inf"
  else
    let d := shortest .up (Binary.ofBits x.toBits)
    if d.digits = 0 then withSign x ['0']
    else
      let ds := digitsOf d.digits
      withSign x (placePoint ds (d.exponent + ds.length))

/-- The value of a digit in bases up to 16. -/
def digit? (base : Nat) (c : Char) : Option Nat :=
  let v? :=
    if '0' ≤ c ∧ c ≤ '9' then some (c.toNat - 48)
    else if 'a' ≤ c ∧ c ≤ 'f' then some (c.toNat - 87)
    else if 'A' ≤ c ∧ c ≤ 'F' then some (c.toNat - 55)
    else none
  v?.filter (· < base)

/-- Reads a non-empty run of digits in a base. -/
def natural? (base : Nat) (s : Text) : Option Nat :=
  if s.isEmpty then none
  else s.foldlM (fun n c ↦ (digit? base c).map (base * n + ·)) 0

/-- Reads digits behind an optional plus sign. -/
def unsigned? (base : Nat) : Text → Option Nat
  | '+' :: r => natural? base r
  | s => natural? base s

/-- Reads digits behind an optional sign. -/
def signed? (base : Nat) : Text → Option Int
  | '-' :: r => (natural? base r).map fun n ↦ -(n : Int)
  | s => (unsigned? base s).map Int.ofNat

/-- Reads an unsigned decimal integer below a bound. -/
def bounded? (bound : Nat) (s : Text) : Option Nat := (unsigned? 10 s).filter (· < bound)

/-- Do 64 bits with a sign hold the integer? -/
def fitsSigned (n : Int) : Bool := -(Nat.pow 2 63 : Int) ≤ n && n < Nat.pow 2 63

/-- Do so many bits hold the integer, be it with a sign or without one? -/
def fits (bits : Nat) (n : Int) : Bool := -(Nat.pow 2 (bits - 1) : Int) ≤ n && n < Nat.pow 2 bits

/-- The digits, the number of them behind the point, and the exponent of an unsigned decimal. -/
def mantissa? (s : Text) : Option (Nat × Int) :=
  let isDigit := fun c : Char ↦ '0' ≤ c && c ≤ '9'
  let whole := s.takeWhile isDigit
  let behind := s.dropWhile isDigit
  let (fraction, tail) :=
    match behind with
    | '.' :: r => (r.takeWhile isDigit, r.dropWhile isDigit)
    | r => ([], r)
  if whole.isEmpty && fraction.isEmpty then none
  else do
    let n ← natural? 10 (whole ++ fraction)
    let e ←
      match tail with
      | [] => some 0
      | c :: r => if c = 'e' || c = 'E' then signed? 10 r else none
    return (n, e - fraction.length)

/-- The nearest number to `n * 10 ^ e`.  An exponent beyond every finite number is cut off first, so
that no power of ten is computed for it. -/
def toFloat (n : Nat) (e : Int) : Float :=
  if n = 0 then 0
  else
    let places := ((Nat.toDigits 10 n).length : Int)
    if 400 < e + places then 1.0 / 0.0
    else if e + places < -400 then 0
    else Float.ofScientific n (e < 0) e.natAbs

/-- Reads a decimal number: digits with an optional point and an optional exponent, or a name of
infinity or of the undefined value, in any case. -/
def float? (s : Text) : Option Float :=
  let (negative, r) :=
    match s with
    | '-' :: r => (true, r)
    | '+' :: r => (false, r)
    | r => (false, r)
  let magnitude : Option Float :=
    if Text.sameWord r "inf" || Text.sameWord r "infinity" then some (1.0 / 0.0)
    else if Text.sameWord r "nan" then some (0.0 / 0.0)
    else (mantissa? r).map fun p ↦ toFloat p.1 p.2
  magnitude.map fun x ↦ if negative then -x else x

/-- The integer nearest to a number, halves away from zero; infinities and the undefined value have
none. -/
def nearestInt? (x : Float) : Option Int :=
  if x.isNaN || x.isInf then none
  else
    let v := (Binary.ofBits x.toBits).value
    let n := (2 * v.num + v.den) / (2 * v.den)
    some (if isNegative x then -(n : Int) else n)

end Markbook.Decimal
