import Markbook.Yaml.Scalar

/-!
# YAML Tokens

A document is cut into tokens from left to right.  Indentation becomes explicit tokens for the start
and the end of block collections.  The key of a mapping is only recognised at the colon behind it,
so the reader remembers for every open bracket where a key may have begun, and inserts the key token
there once the colon appears.  Such a key lies on one line and is at most 1024 characters long.
-/

namespace Markbook.Yaml

inductive Token where
  | version (major minor : Nat)
  | tagHandle (handle expansion : Text)
  | documentStart
  | documentEnd
  | sequenceStart
  | mappingStart
  | blockEnd
  | openSequence
  | closeSequence
  | openMapping
  | closeMapping
  | dash
  | comma
  | key
  | value
  | alias (name : Text)
  | anchor (name : Text)
  | tag (handle rest : Text)
  | scalar (text : Text) (plain : Bool)
deriving DecidableEq, Inhabited

/-- Where a key may have begun. -/
structure KeyStart where
  required : Bool
  token : Nat
  index : Nat
  line : Nat
  column : Nat

/-- The state between two tokens. -/
structure Scan where
  at_ : Cursor
  tokens : Array Token
  /-- Column of the innermost block collection, -1 outside of all. -/
  indent : Int
  /-- Columns of the collections around it. -/
  outer : List Int
  /-- Possible key of each open bracket, innermost first; the last is for the block context. -/
  keys : List (Option KeyStart)
  /-- May a key begin at the cursor? -/
  keyAllowed : Bool

namespace Scan

def start (s : Text) : Scan := ⟨Cursor.start s, #[], -1, [], [none], true⟩

def inFlow (s : Scan) : Bool := 1 < s.keys.length

def push (s : Scan) (t : Token) : Scan := { s with tokens := s.tokens.push t }

def move (s : Scan) (p : Cursor) : Scan := { s with at_ := p }

def allowKey (s : Scan) (b : Bool) : Scan := { s with keyAllowed := b }

/-- Forgets the possible key of the innermost bracket.  Forgetting a required one is an error. -/
def dropKey? (s : Scan) : Option Scan :=
  match s.keys with
  | some k :: r => if k.required then none else some { s with keys := none :: r }
  | _ => some s

/-- Remembers that a key may begin at the cursor. -/
def saveKey? (s : Scan) : Option Scan :=
  if s.keyAllowed then do
    let s ← s.dropKey?
    let k : KeyStart :=
      ⟨!s.inFlow && s.indent = s.at_.column, s.tokens.size, s.at_.index, s.at_.line, s.at_.column⟩
    return { s with keys := some k :: s.keys.tail }
  else some s

/-- Forgets keys that began on an earlier line or too long ago. -/
def dropStale? (s : Scan) : Option Scan := do
  let keys ← s.keys.mapM fun k? ↦
    match k? with
    | some k =>
      if k.line < s.at_.line || k.index + 1024 < s.at_.index then
        (if k.required then none else some none)
      else some (some k)
    | none => some none
  return { s with keys }

/-- Opens a block collection at a column to the right of the current one.  Its token goes to the
given place among the tokens. -/
def indentTo (s : Scan) (column : Nat) (place : Nat) (t : Token) : Scan :=
  if !s.inFlow && s.indent < column then
    { s with
      tokens := (s.tokens.toList.take place ++ t :: s.tokens.toList.drop place).toArray
      indent := column
      outer := s.indent :: s.outer }
  else s

/-- Closes the block collections to the right of a column. -/
def closeBlocks (column : Int) : List Int → Int → Array Token → Int × List Int × Array Token
  | [], indent, tokens => (indent, [], tokens)
  | o :: r, indent, tokens =>
    if column < indent then closeBlocks column r o (tokens.push .blockEnd)
    else (indent, o :: r, tokens)

def dedentTo (s : Scan) (column : Int) : Scan :=
  if s.inFlow then s
  else
    let (indent, outer, tokens) := closeBlocks column s.outer s.indent s.tokens
    { s with indent, outer, tokens }

/-- Passes blanks, comments, line breaks and byte order marks.  Tabs count as blanks only where no
key may begin. -/
def skipBlanks : Nat → Scan → Scan
  | 0, s => s
  | fuel + 1, s =>
    let tabs := s.inFlow || !s.keyAllowed
    let p := (s.at_.skipMark.skipWhile fun c ↦ c = ' ' || (tabs && c = '\t')).skipComment
    if atBreak p.rest && !p.rest.isEmpty then
      skipBlanks fuel { s with at_ := p.skipBreak, keyAllowed := s.keyAllowed || !s.inFlow }
    else s.move p

/-- A token of `n` characters that ends the current line of keys. -/
def documentToken? (s : Scan) (t : Token) : Option Scan := do
  let s ← (s.dedentTo (-1)).dropKey?
  return ((s.move (s.at_.skip 3)).allowKey false).push t

def open? (s : Scan) (t : Token) : Option Scan := do
  let s ← s.saveKey?
  return { s with
    at_ := s.at_.skip 1, keys := none :: s.keys, keyAllowed := true, tokens := s.tokens.push t }

def close? (s : Scan) (t : Token) : Option Scan := do
  let s ← s.dropKey?
  return { s with
    at_ := s.at_.skip 1
    keys := if s.inFlow then s.keys.tail else s.keys
    keyAllowed := false
    tokens := s.tokens.push t }

def comma? (s : Scan) : Option Scan := do
  let s ← s.dropKey?
  return ((s.move (s.at_.skip 1)).allowKey true).push .comma

def dash? (s : Scan) : Option Scan := do
  if !s.inFlow && !s.keyAllowed then none
  let s ← (s.indentTo s.at_.column s.tokens.size .sequenceStart).dropKey?
  return ((s.move (s.at_.skip 1)).allowKey true).push .dash

/-- The question mark of an explicit key. -/
def key? (s : Scan) : Option Scan := do
  if !s.inFlow && !s.keyAllowed then none
  let s ← (s.indentTo s.at_.column s.tokens.size .mappingStart).dropKey?
  return ((s.move (s.at_.skip 1)).allowKey (!s.inFlow)).push .key

/-- The colon behind a key. -/
def value? (s : Scan) : Option Scan :=
  match s.keys with
  | some k :: r =>
    let s : Scan := { s with
      tokens := (s.tokens.toList.take k.token ++ .key :: s.tokens.toList.drop k.token).toArray
      keys := none :: r }
    let s := s.indentTo k.column k.token .mappingStart
    some (((s.move (s.at_.skip 1)).allowKey false).push .value)
  | _ => do
    if !s.inFlow && !s.keyAllowed then none
    let s := s.indentTo s.at_.column s.tokens.size .mappingStart
    return ((s.move (s.at_.skip 1)).allowKey (!s.inFlow)).push .value

/-- The name behind the mark of an alias or an anchor. -/
def name? (s : Scan) (make : Text → Token) : Option Scan := do
  let s ← s.saveKey?
  let (name, p) := (s.at_.skip 1).takeWhile isWordChar
  let ends := atBlank p.rest || p.rest.head?.any fun c ↦ "?:,]\x7d%@`".toList.contains c
  if name.isEmpty || !ends then none
  return ((s.move p).allowKey false).push (make name)

/-- The octets of a percent-escaped character. -/
def takeOctets? : Nat → Text → Option (List UInt8 × Text)
  | 0, r => some ([], r)
  | n + 1, '%' :: a :: b :: r => do
    let v ← Decimal.natural? 16 [a, b]
    if v / 64 ≠ 2 then none
    let (more, r) ← takeOctets? n r
    return (v.toUInt8 :: more, r)
  | _, _ => none

/-- Reads a percent-escaped character. -/
def takePercent? : Text → Option (Char × Text)
  | '%' :: a :: b :: r => do
    let v ← Decimal.natural? 16 [a, b]
    let extra ←
      if v < 0x80 then some 0
      else if v / 32 = 6 then some 1
      else if v / 16 = 14 then some 2
      else if v / 8 = 30 then some 3
      else none
    let (more, r) ← takeOctets? extra r
    match String.fromUTF8? (ByteArray.mk (v.toUInt8 :: more).toArray) with
    | some s => return (s.toList.headD (Char.ofNat 0xFFFD), r)
    | none => return (Char.ofNat 0xFFFD, r)
  | _ => none

/-- Reads the characters of a tag.  A tag between angle brackets may hold commas and brackets. -/
def takeTagChars? (wide : Bool) : Nat → Text → Option (Text × Text)
  | 0, _ => none
  | fuel + 1, s =>
    match s with
    | [] => some ([], [])
    | c :: r =>
      if c = '%' then do
        let (c, r) ← takePercent? s
        let (more, r) ← takeTagChars? wide fuel r
        return (c :: more, r)
      else if isWordChar c || ";/?:@&=+$.!~*'()".toList.contains c ||
          (wide && ",[]".toList.contains c) then
        (takeTagChars? wide fuel r).map fun q ↦ (c :: q.1, q.2)
      else some ([], s)

/-- Reads a tag handle: an exclamation mark, word characters, and possibly another mark. -/
def takeHandle? : Text → Option (Text × Text)
  | '!' :: r =>
    let word := r.takeWhile isWordChar
    match r.dropWhile isWordChar with
    | '!' :: t => some ('!' :: word ++ ['!'], t)
    | t => some ('!' :: word, t)
  | _ => none

def takeTag? (s : Text) : Option (Token × Text) :=
  match s with
  | '!' :: '<' :: r => do
    let (uri, r) ← takeTagChars? true (r.length + 1) r
    if uri.isEmpty then none
    match r with
    | '>' :: r => return (.tag [] uri, r)
    | _ => none
  | _ => do
    let (handle, r) ← takeHandle? s
    let (rest, r) ← takeTagChars? false (r.length + 1) r
    if 1 < handle.length && handle.getLast? = some '!' then
      if rest.isEmpty then none
      return (.tag handle rest, r)
    else
      let rest := handle.tail ++ rest
      return (if rest.isEmpty then .tag [] ['!'] else .tag ['!'] rest, r)

def tag? (s : Scan) : Option Scan := do
  let s ← s.saveKey?
  let (t, r) ← takeTag? s.at_.rest
  if !(atBlank r || (s.inFlow && r.head? = some ',')) then none
  let p := s.at_.skip (s.at_.rest.length - r.length)
  return ((s.move p).allowKey false).push t

/-- A number of a version directive: one to nine digits. -/
def takeNumber? (p : Cursor) : Option (Nat × Cursor) := do
  let (ds, p) := p.takeWhile Char.isDigit
  if 9 < ds.length then none
  let n ← Decimal.natural? 10 ds
  return (n, p)

def takeVersion? (p : Cursor) : Option (Token × Cursor) := do
  let (major, p) ← takeNumber? (p.skipWhile isSpace)
  if !p.at_ '.' then none
  let (minor, p) ← takeNumber? (p.skip 1)
  return (.version major minor, p)

def takeTagDirective? (p : Cursor) : Option (Token × Cursor) := do
  let p := p.skipWhile isSpace
  let (handle, r) ← takeHandle? p.rest
  if handle ≠ ['!'] && handle.getLast? ≠ some '!' then none
  let p := p.skip handle.length
  if !r.head?.any isSpace then none
  let p := p.skipWhile isSpace
  let (uri, r) ← takeTagChars? true (p.rest.length + 1) p.rest
  if uri.isEmpty || !atBlank r then none
  return (.tagHandle handle uri, p.skip (p.rest.length - r.length))

def directive? (s : Scan) : Option Scan := do
  let s ← (s.dedentTo (-1)).dropKey?
  let (name, p) := (s.at_.skip 1).takeWhile isWordChar
  if name.isEmpty || !atBlank p.rest then none
  let (t, p) ←
    if name = "YAML".toList then takeVersion? p
    else if name = "TAG".toList then takeTagDirective? p
    else none
  let p := (p.skipWhile isSpace).skipComment
  if !atBreak p.rest then none
  return ((s.move p.skipBreak).allowKey false).push t

def quotedScalar? (s : Scan) (double : Bool) : Option Scan := do
  let s ← s.saveKey?
  let (text, p) ← quoted? double s.at_
  return ((s.move p).allowKey false).push (.scalar text false)

def blockScalar? (s : Scan) (literal : Bool) : Option Scan := do
  let s ← s.dropKey?
  let (text, p) ← block? literal s.indent s.at_
  return ((s.move p).allowKey true).push (.scalar text false)

def plainScalar? (s : Scan) : Option Scan := do
  let s ← s.saveKey?
  let (text, broken, p) ← plain? s.inFlow s.indent s.at_
  return ((s.move p).allowKey broken).push (.scalar text true)

/-- The characters that begin no plain scalar. -/
def isIndicator (c : Char) : Bool := "-?:,[]\x7b\x7d#&*!|>'\"%@`".toList.contains c

/-- Reads the token at the cursor. -/
def token? (s : Scan) : Option Scan :=
  let p := s.at_
  match p.rest with
  | [] => none
  | c :: r =>
    if p.column = 0 && c = '%' then s.directive?
    else if p.atSeparator '-' then s.documentToken? .documentStart
    else if p.atSeparator '.' then s.documentToken? .documentEnd
    else if c = '[' then s.open? .openSequence
    else if c = '\x7b' then s.open? .openMapping
    else if c = ']' then s.close? .closeSequence
    else if c = '\x7d' then s.close? .closeMapping
    else if c = ',' then s.comma?
    else if c = '-' && atBlank r then s.dash?
    else if c = '?' && (s.inFlow || atBlank r) then s.key?
    else if c = ':' && (s.inFlow || atBlank r) then s.value?
    else if c = '*' then s.name? .alias
    else if c = '&' then s.name? .anchor
    else if c = '!' then s.tag?
    else if c = '|' && !s.inFlow then s.blockScalar? true
    else if c = '>' && !s.inFlow then s.blockScalar? false
    else if c = '\'' then s.quotedScalar? false
    else if c = '"' then s.quotedScalar? true
    else if !(isIndicator c || isSpace c) || (c = '-' && !r.head?.any isSpace) ||
        (!s.inFlow && (c = '?' || c = ':') && !atBlank r) then s.plainScalar?
    else none

/-- Reads tokens up to the end of the text. -/
def run? : Nat → Scan → Option (List Token)
  | 0, _ => none
  | fuel + 1, s => do
    let s := s.skipBlanks (s.at_.rest.length + 1)
    let s ← s.dropStale?
    let s := s.dedentTo s.at_.column
    if s.at_.rest.isEmpty then
      let s ← (s.dedentTo (-1)).dropKey?
      return s.tokens.toList
    else
      let s ← s.token?
      run? fuel s

end Scan

/-- The tokens of a text, unless it is malformed. -/
def tokens? (s : Text) : Option (List Token) :=
  if s.all isPrintable then Scan.run? (s.length + 2) (Scan.start s) else none

end Markbook.Yaml
