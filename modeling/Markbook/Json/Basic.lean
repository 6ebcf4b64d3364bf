import Markbook.Decimal.Notation

/-!
# JSON Values

A JSON value keeps the order of its members and the text of its numbers.  `Json.compact` writes it
without blanks, `Json.pretty` on several lines with two more columns per level.
-/

namespace Markbook

inductive Json where
  | null
  | bool (b : Bool)
  /-- A number, as written. -/
  | num (text : Text)
  | str (text : Text)
  /-- A string with a surrogate escape that belongs to no pair. -/
  | broken
  | arr (items : List Json)
  | obj (members : List (Text × Json))
deriving Inhabited

namespace Json

def ofNat (n : Nat) : Json := .num (Decimal.digitsOf n)

def ofInt (n : Int) : Json := .num (Decimal.ofInt n)

def ofOption (s : Option Text) : Json :=
  match s with
  | some s => .str s
  | none => .null

def hexDigit (n : Nat) : Char := "0123456789abcdef".toList.getD n '0'

/-- A character inside a string: quotes, backslashes and control characters are escaped. -/
def escaped (c : Char) : Text :=
  match c with
  | '"' => ['\\', '"']
  | '\\' => ['\\', '\\']
  | '\n' => ['\\', 'n']
  | '\r' => ['\\', 'r']
  | '\t' => ['\\', 't']
  | c =>
    if c.toNat = 8 then ['\\', 'b']
    else if c.toNat = 12 then ['\\', 'f']
    else if c.toNat < 32 then
      ['\\', 'u', '0', '0', hexDigit (c.toNat / 16), hexDigit (c.toNat % 16)]
    else [c]

def quoted (s : Text) : Text := '"' :: s.flatMap escaped ++ ['"']

mutual

def compact : Json → Text
  | .null => "null"
  | .bool b => if b then "true" else "false"
  | .num t => t
  | .str s => quoted s
  | .broken => quoted []
  | .arr items => '[' :: Text.join [','] (compactItems items) ++ [']']
  | .obj members => '\x7b' :: Text.join [','] (compactMembers members) ++ ['\x7d']

def compactItems : List Json → List Text
  | [] => []
  | j :: r => compact j :: compactItems r

def compactMembers : List (Text × Json) → List Text
  | [] => []
  | (k, j) :: r => (quoted k ++ ':' :: compact j) :: compactMembers r

end

/-- Lays out the parts of a list or an object between its brackets. -/
def block (indent : Nat) (opening closing : Char) (parts : List Text) : Text :=
  if parts.isEmpty then [opening, closing]
  else
    let margin := List.replicate indent ' '
    opening :: '\n' :: Text.join [',', '\n'] (parts.map fun p ↦ ' ' :: ' ' :: margin ++ p)
      ++ '\n' :: margin ++ [closing]

mutual

def layout (indent : Nat) : Json → Text
  | .arr items => block indent '[' ']' (layoutItems (indent + 2) items)
  | .obj members => block indent '\x7b' '\x7d' (layoutMembers (indent + 2) members)
  | .null => "null"
  | .bool b => if b then "true" else "false"
  | .num t => t
  | .str s => quoted s
  | .broken => quoted []

def layoutItems (indent : Nat) : List Json → List Text
  | [] => []
  | j :: r => layout indent j :: layoutItems indent r

def layoutMembers (indent : Nat) : List (Text × Json) → List Text
  | [] => []
  | (k, j) :: r => (quoted k ++ ':' :: ' ' :: layout indent j) :: layoutMembers indent r

end

def pretty (j : Json) : Text := layout 0 j

/-- The members of an object in ascending order of keys. -/
def sortedObj (members : List (Text × Json)) : Json :=
  .obj (members.mergeSort fun a b ↦ Text.le a.1 b.1)

end Json

end Markbook
