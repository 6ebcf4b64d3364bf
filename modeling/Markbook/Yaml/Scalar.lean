import Markbook.Yaml.Cursor
import Markbook.Decimal.Notation

/-!
# YAML Scalars

The three written forms of a scalar with their folding rules: plain, quoted and block.  Each reader
takes the cursor at the first character of the scalar and returns its text with the cursor behind
it, or nothing when the scalar is malformed.
-/

namespace Markbook.Yaml

/-- Reads `count` hexadecimal digits. -/
def hex? (count : Nat) (s : Text) : Option Nat :=
  let ds := s.take count
  if ds.length = count then Decimal.natural? 16 ds else none

/-- The character of a one-letter escape. -/
def escape? : Char → Option Char
  | '0' => some (Char.ofNat 0)
  | 'a' => some (Char.ofNat 7)
  | 'b' => some (Char.ofNat 8)
  | 't' => some '\t'
  | '\t' => some '\t'
  | 'n' => some '\n'
  | 'v' => some (Char.ofNat 11)
  | 'f' => some (Char.ofNat 12)
  | 'r' => some '\r'
  | 'e' => some (Char.ofNat 27)
  | ' ' => some ' '
  | '"' => some '"'
  | '/' => some '/'
  | '\\' => some '\\'
  | 'N' => some (Char.ofNat 0x85)
  | '_' => some (Char.ofNat 0xA0)
  | 'L' => some (Char.ofNat 0x2028)
  | 'P' => some (Char.ofNat 0x2029)
  | _ => none

/-- The number of hexadecimal digits of a numeric escape. -/
def escapeWidth? : Char → Option Nat
  | 'x' => some 2
  | 'u' => some 4
  | 'U' => some 8
  | _ => none

/-- A code point that is a character. -/
def char? (n : Nat) : Option Char := if n.isValidChar then some (Char.ofNat n) else none

/-- Reads an escape of a double-quoted scalar, the backslash included. -/
def takeEscape? (p : Cursor) : Option (Char × Cursor) :=
  match p.rest with
  | _ :: c :: r =>
    match escapeWidth? c with
    | some w => do
      let n ← hex? w r
      let c ← char? n
      return (c, p.skip (2 + w))
    | none => (escape? c).map fun c ↦ (c, p.skip 2)
  | _ => none

/-- Reads the unbroken characters of a quoted scalar.  The flag tells whether an escaped line break
ended the run. -/
def takeQuotedRun? (double : Bool) : Nat → Cursor → Option (Text × Bool × Cursor)
  | 0, _ => none
  | fuel + 1, p =>
    if atBlank p.rest then some ([], false, p)
    else if !double && p.startsWith ['\'', '\''] then
      (takeQuotedRun? double fuel (p.skip 2)).map fun q ↦ ('\'' :: q.1, q.2)
    else if p.at_ (if double then '"' else '\'') then some ([], false, p)
    else if double && p.at_ '\\' then
      match p.rest.tail with
      | c :: _ =>
        if isBreak c then some ([], true, (p.skip 1).skipBreak)
        else do
          let (c, p) ← takeEscape? p
          let q ← takeQuotedRun? double fuel p
          return (c :: q.1, q.2)
      | [] => none
    else
      match p.rest with
      | c :: _ => (takeQuotedRun? double fuel (p.skip 1)).map fun q ↦ (c :: q.1, q.2)
      | [] => none

/-- The blanks and line breaks between two runs of a scalar. -/
structure Gap where
  spaces : Text
  first : Text
  others : Text
  broken : Bool

namespace Gap

/-- No blanks yet; `broken` after an escaped line break. -/
def start (broken : Bool) : Gap := ⟨[], [], [], broken⟩

/-- What the gap leaves in the text of the scalar. -/
def folded (g : Gap) : Text := if g.broken then foldBreaks g.first g.others else g.spaces

/-- One space or tab, which counts only before the first break. -/
def space (g : Gap) (c : Char) : Gap := if g.broken then g else { g with spaces := g.spaces ++ [c] }

def break_ (g : Gap) (b : Text) : Gap :=
  if g.broken then { g with others := g.others ++ b } else ⟨[], b, g.others, true⟩

end Gap

/-- Reads the blanks and line breaks at the cursor. -/
def takeGap : Nat → Gap → Cursor → Gap × Cursor
  | 0, g, p => (g, p)
  | fuel + 1, g, p =>
    match p.rest with
    | c :: _ =>
      if isSpace c then takeGap fuel (g.space c) (p.skip 1)
      else if isBreak c then
        let (b, p) := p.takeBreak
        takeGap fuel (g.break_ b) p
      else (g, p)
    | [] => (g, p)

/-- Reads a quoted scalar behind its opening quote. -/
def takeQuoted? (double : Bool) : Nat → Cursor → Option (Text × Cursor)
  | 0, _ => none
  | fuel + 1, p =>
    if p.atDocumentMark || p.rest.isEmpty then none
    else do
      let (run, escaped, p) ← takeQuotedRun? double (p.rest.length + 1) p
      if p.at_ (if double then '"' else '\'') then return (run, p.skip 1)
      let (gap, p) := takeGap (p.rest.length + 1) (Gap.start escaped) p
      let (more, p) ← takeQuoted? double fuel p
      return (run ++ gap.folded ++ more, p)

def quoted? (double : Bool) (p : Cursor) : Option (Text × Cursor) :=
  takeQuoted? double (p.rest.length + 1) (p.skip 1)

/-- Inside brackets these characters end a plain scalar. -/
def isFlowMark (c : Char) : Bool := c = ',' || c = '[' || c = ']' || c = '\x7b' || c = '\x7d'

/-- Reads the unbroken characters of a plain scalar. -/
def takePlainRun? (flow : Bool) : Nat → Cursor → Option (Text × Cursor)
  | 0, _ => none
  | fuel + 1, p =>
    match p.rest with
    | [] => some ([], p)
    | c :: r =>
      if atBlank p.rest then some ([], p)
      else if flow && c = ':' && r.head?.any (fun d ↦ isFlowMark d || d = '?') then none
      else if (c = ':' && atBlank r) || (flow && isFlowMark c) then some ([], p)
      else (takePlainRun? flow fuel (p.skip 1)).map fun q ↦ (c :: q.1, q.2)

/-- Reads the blanks and line breaks after a run of a plain scalar.  A tab in front of the first
column that the scalar may use is an error. -/
def takePlainGap? (margin : Int) : Nat → Gap → Cursor → Option (Gap × Cursor)
  | 0, g, p => some (g, p)
  | fuel + 1, g, p =>
    match p.rest with
    | c :: _ =>
      if isSpace c then
        if g.broken && (p.column : Int) < margin && c = '\t' then none
        else takePlainGap? margin fuel (g.space c) (p.skip 1)
      else if isBreak c then
        let (b, p) := p.takeBreak
        takePlainGap? margin fuel (g.break_ b) p
      else some (g, p)
    | [] => some (g, p)

/-- Reads a plain scalar whose continuation lines start at column `margin` or further right, unless
it stands in brackets.  `gap` is what separates it from the run before.  The flag tells whether line
breaks follow the text. -/
def takePlain? (flow : Bool) (margin : Int) :
    Nat → Gap → Cursor → Option (Text × Bool × Cursor)
  | 0, _, _ => none
  | fuel + 1, gap, p =>
    if p.atDocumentMark || p.at_ '#' then some ([], gap.broken, p)
    else do
      let (run, p) ← takePlainRun? flow (p.rest.length + 1) p
      let shown := if run.isEmpty then [] else gap.folded ++ run
      let pending := if run.isEmpty then gap else Gap.start false
      match p.rest with
      | [] => return (shown, pending.broken, p)
      | c :: _ =>
        if !(isSpace c || isBreak c) then return (shown, pending.broken, p)
        else
          let (gap, p) ← takePlainGap? margin (p.rest.length + 1) pending p
          if !flow && (p.column : Int) < margin then return (shown, gap.broken, p)
          else
            let (more, broken, p) ← takePlain? flow margin fuel gap p
            return (shown ++ more, broken, p)

def plain? (flow : Bool) (indent : Int) (p : Cursor) : Option (Text × Bool × Cursor) :=
  takePlain? flow (indent + 1) (p.rest.length + 1) (Gap.start false) p

/-- How a block scalar treats the line breaks at its end. -/
inductive Chomping where
  | strip
  | clip
  | keep
deriving DecidableEq

/-- Reads the indicators behind the opening character of a block scalar: the treatment of its end
and the indentation, zero when it is to be found out. -/
def takeIndicators? (p : Cursor) : Option (Chomping × Nat × Cursor) :=
  let chomping? : Cursor → Option Chomping := fun p ↦
    match p.peek? with
    | some '+' => some .keep
    | some '-' => some .strip
    | _ => none
  let digit? : Cursor → Option Nat := fun p ↦
    match p.peek? with
    | some c => Decimal.digit? 10 c
    | none => none
  match chomping? p with
  | some c =>
    let p := p.skip 1
    match digit? p with
    | some 0 => none
    | some n => some (c, n, p.skip 1)
    | none => some (c, 0, p)
  | none =>
    match digit? p with
    | some 0 => none
    | some n =>
      let p := p.skip 1
      match chomping? p with
      | some c => some (c, n, p.skip 1)
      | none => some (.clip, n, p)
    | none => some (.clip, 0, p)

/-- Passes indentation and empty lines of a block scalar.  The result is the breaks passed, the
widest indentation seen, and the cursor at the first line with content. -/
def takeEmptyLines? (indent : Nat) : Nat → Nat → Cursor → Option (Text × Nat × Cursor)
  | 0, widest, p => some ([], widest, p)
  | fuel + 1, widest, p =>
    let spaces := (p.rest.takeWhile (· = ' ')).length
    let p := p.skip (if indent = 0 then spaces else min spaces (indent - p.column))
    let widest := max widest p.column
    if (indent = 0 || p.column < indent) && p.at_ '\t' then none
    else if atBreak p.rest && !p.rest.isEmpty then do
      let (b, p) := p.takeBreak
      let (more, widest, p) ← takeEmptyLines? indent fuel widest p
      return (b ++ more, widest, p)
    else some ([], widest, p)

/-- Reads the lines of a block scalar.  `pending` is the break of the line before, `empty` the
breaks of the empty lines after it, and `blank` tells whether that line started with a blank. -/
def takeBlockLines? (literal : Bool) (indent : Nat) :
    Nat → Text → Text → Bool → Cursor → Option (Text × Text × Text × Cursor)
  | 0, _, _, _, _ => none
  | fuel + 1, pending, empty, blank, p =>
    if p.column ≠ indent || p.rest.isEmpty then some ([], pending, empty, p)
    else do
      let starts := p.rest.head?.any isSpace
      let joined :=
        if !literal && pending.head? = some '\n' && !blank && !starts then
          (if empty.isEmpty then [' '] else [])
        else pending
      let (line, p) := p.takeWhile (!isBreak ·)
      let (b, p) := p.takeBreak
      let (breaks, _, p) ← takeEmptyLines? indent (p.rest.length + 1) 0 p
      let (more, tail) ← takeBlockLines? literal indent fuel b breaks starts p
      return (joined ++ empty ++ line ++ more, tail)

/-- Reads a block scalar at its opening character, inside a block of the given indentation. -/
def block? (literal : Bool) (parent : Int) (p : Cursor) : Option (Text × Cursor) := do
  let (chomping, increment, p) ← takeIndicators? (p.skip 1)
  let p := (p.skipWhile isSpace).skipComment
  if !atBreak p.rest then none
  let p := p.skipBreak
  let given := if increment = 0 then 0 else (max parent 0).toNat + increment
  let (empty, widest, p) ← takeEmptyLines? given (p.rest.length + 1) 0 p
  let indent := if given = 0 then max widest (max (parent + 1).toNat 1) else given
  let (content, last, trailing, p) ←
    takeBlockLines? literal indent (p.rest.length + 1) [] empty false p
  let ending :=
    match chomping with
    | .strip => []
    | .clip => last
    | .keep => last ++ trailing
  return (content ++ ending, p)

end Markbook.Yaml
