/-!
# Text

Documents, field keys and field values are lists of characters, so that every reader in this
library recurses on the text itself.  The order on texts is the lexicographic order on code points,
which is also the order of their UTF-8 octets.

This module holds the cutting vocabulary: removing a known beginning or ending, cutting at the first
occurrence of a mark, cutting at every occurrence of a character, and the lines of a text.
-/

namespace Markbook

/-- A text is the list of its characters. -/
abbrev Text := List Char

instance : Coe String Text := ⟨String.toList⟩

namespace Text

/-- The text behind `lead`, when the text begins with it. -/
def after? (lead s : Text) : Option Text :=
  if lead.isPrefixOf s then some (s.drop lead.length) else none

/-- The text in front of `tail`, when the text ends with it. -/
def before? (tail s : Text) : Option Text :=
  if tail.isSuffixOf s then some (s.take (s.length - tail.length)) else none

/-- Cuts a text at the first occurrence of `mark`, which neither part keeps. -/
def cut? (mark : Text) : Text → Option (Text × Text)
  | [] => if mark.isEmpty then some ([], []) else none
  | c :: r =>
    if mark.isPrefixOf (c :: r) then some ([], (c :: r).drop mark.length)
    else (cut? mark r).map fun p ↦ (c :: p.1, p.2)

/-- Cuts a text at the last occurrence of a character, which neither part keeps. -/
def cutLast? (mark : Char) : Text → Option (Text × Text)
  | [] => none
  | c :: r =>
    match cutLast? mark r with
    | some (a, b) => some (c :: a, b)
    | none => if c = mark then some ([], r) else none

/-- Does `mark` occur in the text? -/
def has (mark s : Text) : Bool := (cut? mark s).isSome

/-- The pieces between the occurrences of a character.  There is always at least one. -/
def pieces (sep : Char) : Text → List Text
  | [] => [[]]
  | c :: r =>
    if c = sep then [] :: pieces sep r
    else
      match pieces sep r with
      | [] => [[c]]
      | p :: ps => (c :: p) :: ps

/-- Joins texts with a separator between neighbours. -/
def join (sep : Text) : List Text → Text
  | [] => []
  | [s] => s
  | s :: r => s ++ sep ++ join sep r

/-- The lines of a text.  A line ends at a line feed and loses one carriage return in front of it;
a text that ends with a line feed has no empty line after it. -/
def lines : Text → List Text
  | [] => []
  | '\r' :: '\n' :: r => [] :: lines r
  | '\n' :: r => [] :: lines r
  | c :: r =>
    match lines r with
    | [] => [[c]]
    | l :: ls => (c :: l) :: ls

/-- Joins lines with line feeds, none after the last. -/
def unlines (ls : List Text) : Text := join ['\n'] ls

/-- Does the code point of a character lie in one of these closed ranges? -/
def inRanges (l : List (Nat × Nat)) (c : Char) : Bool :=
  l.any fun r ↦ r.1 ≤ c.toNat && c.toNat ≤ r.2

/-- Is the text one of these words? -/
def isOneOf (s : Text) (words : List String) : Bool := words.any fun w ↦ w.toList = s

/-- Does the first text not come after the second? -/
def le (a b : Text) : Bool := !decide (b < a)

/-- The number of octets of a text in UTF-8. -/
def octets : Text → Nat
  | [] => 0
  | c :: r => c.utf8Size + octets r

/-- Cuts a text behind its first octets, if a character ends there. -/
def cutAt? : Nat → Text → Option (Text × Text)
  | 0, s => some ([], s)
  | _ + 1, [] => none
  | n + 1, c :: r =>
    if c.utf8Size ≤ n + 1 then (cutAt? (n + 1 - c.utf8Size) r).map fun p ↦ (c :: p.1, p.2) else none

/-- The letters A to Z become a to z; every other character stays. -/
def asciiLower (s : Text) : Text := s.map Char.toLower

/-- Equality of texts up to the case of the letters A to Z. -/
def sameWord (a b : Text) : Bool := asciiLower a == asciiLower b

/-- A bold and underlined title on a terminal. -/
def emphasised (title : Text) : Text :=
  let code : String → Text := fun s ↦ '\x1b' :: '[' :: s.toList
  code "4m" ++ code "1m" ++ title ++ code "0m" ++ code "0m"

end Text

end Markbook
