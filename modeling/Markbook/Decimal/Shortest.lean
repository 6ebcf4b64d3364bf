import Markbook.Text.Basic

/-!
# Shortest Decimals

A finite binary number stands for the interval of reals that round to it.  This module selects the
decimal with the fewest digits in that interval, the nearest of those to the number itself, and
leaves the choice between two equally near ones to the caller.

All arithmetic is exact: the number is `m * 2 ^ q`, and its interval is measured in quarters of its
last place.  For one digit, two digits and so on, the two neighbours of the number on the decimal
grid of that many digits are tested; the first grid with a hit wins.
-/

namespace Markbook.Decimal

/-- A positive or zero finite binary number `m * 2 ^ q`. -/
structure Binary where
  m : Nat
  q : Int
  /-- Is the gap below half as wide as the gap above? -/
  narrow : Bool

/-- The magnitude of a finite number in the 64-bit binary format. -/
def Binary.ofBits (bits : UInt64) : Binary :=
  let fraction : Nat := bits.toNat % Nat.pow 2 52
  let exponent : Nat := bits.toNat / Nat.pow 2 52 % Nat.pow 2 11
  if exponent = 0 then ⟨fraction, -1074, false⟩
  else ⟨Nat.pow 2 52 + fraction, (exponent : Int) - 1075, fraction = 0 && 1 < exponent⟩

/-- Which of two equally near decimals is taken. -/
inductive Tie where
  | even
  | up
deriving DecidableEq

/-- The decimal `digits * 10 ^ exponent`. -/
structure Numeral where
  digits : Nat
  exponent : Int
deriving DecidableEq, Repr

/-- A positive rational, compared by cross multiplication. -/
structure Ratio where
  num : Nat
  den : Nat

namespace Ratio

def lt (a b : Ratio) : Bool := a.num * b.den < b.num * a.den

def le (a b : Ratio) : Bool := a.num * b.den ≤ b.num * a.den

/-- The rational `n * 10 ^ e`. -/
def scaled (n : Nat) (e : Int) : Ratio := ⟨n * Nat.pow 10 e.toNat, Nat.pow 10 (-e).toNat⟩

end Ratio

namespace Binary

/-- A count of quarters of the last place, as a rational. -/
def quarters (x : Binary) (n : Nat) : Ratio :=
  ⟨n * Nat.pow 2 (x.q - 2).toNat, Nat.pow 2 (2 - x.q).toNat⟩

def value (x : Binary) : Ratio := x.quarters (4 * x.m)

/-- Does the decimal round to this number?  The ends of the interval count when `m` is even. -/
def covers (x : Binary) (d : Numeral) : Bool :=
  let r := Ratio.scaled d.digits d.exponent
  let low := x.quarters (4 * x.m - if x.narrow then 1 else 2)
  let high := x.quarters (4 * x.m + 2)
  if x.m % 2 = 0 then low.le r && r.le high else low.lt r && r.lt high

/-- The number of decimal places in front of the point: the least `k` with the value below
`10 ^ k`.  No finite positive number is below `10 ^ (-400)`. -/
def magnitude (x : Binary) : Int :=
  let v := x.value
  ((Nat.toDigits 10 (v.num * Nat.pow 10 400 / v.den)).length : Int) - 400

/-- Of two decimals the nearer to the number. -/
def nearer (x : Binary) (tie : Tie) (below above : Numeral) : Numeral :=
  let v := x.value
  let b := Ratio.scaled (below.digits + above.digits) below.exponent
  let twice : Ratio := ⟨2 * v.num, v.den⟩
  if twice.lt b then below
  else if b.lt twice then above
  else
    match tie with
    | .even => if below.digits % 2 = 0 then below else above
    | .up => above

/-- The decimal of `n` digits that rounds to the number and lies nearest to it, if there is one. -/
def onGrid? (x : Binary) (tie : Tie) (n : Nat) : Option Numeral :=
  let e := x.magnitude - n
  let v := x.value
  let g := Ratio.scaled 1 e
  let below : Numeral := ⟨v.num * g.den / (v.den * g.num), e⟩
  let above : Numeral := ⟨below.digits + 1, e⟩
  match x.covers below, x.covers above with
  | true, true => some (x.nearer tie below above)
  | true, false => some below
  | false, true => some above
  | false, false => none

end Binary

/-- Moves trailing zeros of the digits into the exponent. -/
def dropZeros : Nat → Numeral → Numeral
  | 0, d => d
  | fuel + 1, d =>
    if d.digits % 10 = 0 && d.digits ≠ 0 then dropZeros fuel ⟨d.digits / 10, d.exponent + 1⟩ else d

/-- The decimal with the fewest digits that rounds to the number.  Seventeen digits always do. -/
def shortest (tie : Tie) (x : Binary) : Numeral :=
  if x.m = 0 then ⟨0, 0⟩
  else
    match (List.range 17).findSome? fun i ↦ x.onGrid? tie (i + 1) with
    | some d => dropZeros 20 d
    | none => ⟨x.m, 0⟩

end Markbook.Decimal
