import Markbook.Yaml.Node
import Markbook.Yaml.Value

/-!
# From YAML Nodes to Values

A plain scalar is read by the core rules: `null`, truth values, integers in four bases, decimal
numbers, and text for all else.  A core tag demands its type, any other tag is kept with the value.
Aliases are replaced by what they name.

A document is refused when a key occurs twice, when an integer needs more than 64 bits, when it
nests more than 128 collections, and when its aliases are followed more than a hundred times per
node.
-/

namespace Markbook.Yaml

/-- Is the text a run of two or more digits that starts with a zero?  Such a text is no number. -/
def isPaddedNumber (s : Text) : Bool :=
  let ds := if s.head? = some '-' || s.head? = some '+' then s.tail else s
  1 < ds.length && ds.head? = some '0' && ds.all Char.isDigit

/-- Reads an integer behind the mark of a base. -/
def basedInt? (base : Nat) (mark s : Text) : Option Nat := do
  let r ← Text.after? mark s
  if r.head? = some '+' || r.head? = some '-' then none
  Decimal.natural? base r

def bases : List (Nat × Text) := [(16, "0x"), (8, "0o"), (2, "0b")]

/-- Reads an integer without a minus sign. -/
def plainNat? (s : Text) : Option Nat :=
  let r := (Text.after? ['+'] s).getD s
  if r.head? = some '+' || r.head? = some '-' then none
  else
    match bases.findSome? fun b ↦ basedInt? b.1 b.2 r with
    | some n => some n
    | none => if isPaddedNumber s then none else Decimal.natural? 10 r

/-- Reads an integer, a minus sign in front of the mark of its base. -/
def plainInt? (s : Text) : Option Int :=
  match plainNat? s with
  | some n => some n
  | none => do
    let r ← Text.after? ['-'] s
    let n ←
      match bases.findSome? fun b ↦ basedInt? b.1 b.2 r with
      | some n => some n
      | none => if isPaddedNumber s then none else Decimal.natural? 10 r
    return -(n : Int)

/-- Reads a finite decimal number, or a dotted name of infinity or of the undefined value. -/
def plainFloat? (s : Text) : Option Float :=
  let r := (Text.after? ['+'] s).getD s
  let signs := s.head? = some '+' && (r.head? = some '+' || r.head? = some '-')
  if signs then none
  else if Text.isOneOf r [".inf", ".Inf", ".INF"] then some (1.0 / 0.0)
  else if Text.isOneOf s ["-.inf", "-.Inf", "-.INF"] then some (-1.0 / 0.0)
  else if Text.isOneOf s [".nan", ".NaN", ".NAN"] then some (0.0 / 0.0)
  else (Decimal.float? r).filter fun x ↦ !x.isNaN && !x.isInf

def plainBool? (s : Text) : Option Bool :=
  if Text.isOneOf s ["true", "True", "TRUE"] then some true
  else if Text.isOneOf s ["false", "False", "FALSE"] then some false
  else none

def isNull (s : Text) : Bool := Text.isOneOf s ["null", "Null", "NULL", "~"]

/-- An integer as a value: 64 bits must hold it.  One that fits not even 128 bits is not read as an
integer at all. -/
def intValue? (n : Int) : Option (Option Value) :=
  if Decimal.fits 64 n then some (some (.int n))
  else if Decimal.fits 128 n then some none
  else none

/-- The value of a plain scalar without a tag. -/
def plainValue? (s : Text) : Option Value :=
  if s.isEmpty || isNull s then some .null
  else
    match plainBool? s with
    | some b => some (.bool b)
    | none =>
      match (plainInt? s).bind intValue? with
      | some v? => v?
      | none =>
        match if isPaddedNumber s then none else plainFloat? s with
        | some x => some (.float x)
        | none => some (.str s)

def coreTag (name : Text) : Text := "tag:yaml.org,2002:".toList ++ name

/-- The value of a scalar under a tag that is not kept. -/
def scalarValue? (tag : Option Text) (s : Text) (plain : Bool) : Option Value :=
  match tag with
  | none => if plain then plainValue? s else some (.str s)
  | some t =>
    if t = coreTag "bool" then (plainBool? s).map .bool
    else if t = coreTag "int" then ((plainInt? s).bind intValue?).getD none
    else if t = coreTag "float" then (plainFloat? s).map .float
    else if t = coreTag "null" then (if isNull s then some .null else none)
    else some (.str s)

/-- The tag kept with a value: one that starts with an exclamation mark. -/
def keptTag? : Option Text → Option Text
  | some ('!' :: r) => some (if r.isEmpty then ['!'] else (Text.after? ['!'] r).getD r)
  | _ => none

namespace Node

mutual

/-- The number of nodes and of ends of collections. -/
def count : Node → Nat
  | .alias _ => 1
  | .scalar _ _ _ => 1
  | .seq _ items => 2 + countItems items
  | .map _ entries => 2 + countEntries entries

def countItems : List Node → Nat
  | [] => 0
  | n :: r => count n + countItems r

def countEntries : List (Node × Node) → Nat
  | [] => 0
  | (k, v) :: r => count k + count v + countEntries r

end

/-- Adds a node under its anchor number. -/
def record (props : Props) (n : Node) (l : List (Nat × Node)) : List (Nat × Node) :=
  match props.anchor with
  | some i => (i, n) :: l
  | none => l

mutual

/-- The anchored nodes, the last to begin first. -/
def anchored (n : Node) (l : List (Nat × Node)) : List (Nat × Node) :=
  match n with
  | .alias _ => l
  | .scalar p s plain => record p (.scalar p s plain) l
  | .seq p items => anchoredItems items (record p (.seq p items) l)
  | .map p entries => anchoredEntries entries (record p (.map p entries) l)

def anchoredItems (items : List Node) (l : List (Nat × Node)) : List (Nat × Node) :=
  match items with
  | [] => l
  | n :: r => anchoredItems r (anchored n l)

def anchoredEntries (entries : List (Node × Node)) (l : List (Nat × Node)) : List (Nat × Node) :=
  match entries with
  | [] => l
  | (k, v) :: r => anchoredEntries r (anchored v (anchored k l))

end

end Node

/-- Aliases still allowed to be followed. -/
abbrev Follow := StateT Nat Option

def refuse {α : Type} : Follow α := fun _ ↦ none

/-- Puts a value under the tag that is kept with it. -/
def wrap (tag : Option Text) (v : Value) : Value :=
  match keptTag? tag with
  | some t => .tagged t v
  | none => v

/-- Collects entries; a repeated key is refused. -/
def distinct? (entries : List (Value × Value)) : Bool :=
  match entries with
  | [] => true
  | e :: r => !r.any (fun f ↦ e.1.same f.1) && distinct? r

/-- The value of a node.  `depth` is the number of collections that may still be opened. -/
def valueOf (anchors : List (Nat × Node)) : Nat → Nat → Node → Follow Value
  | 0, _, _ => refuse
  | fuel + 1, depth, n =>
    match n with
    | .alias i => do
      let left ← get
      if left = 0 then refuse
      set (left - 1)
      match anchors.find? fun e ↦ e.1 = i with
      | some e => valueOf anchors fuel depth e.2
      | none => refuse
    | .scalar p s plain =>
      let v? :=
        match keptTag? p.tag with
        | some _ => scalarValue? none s plain
        | none => scalarValue? p.tag s plain
      match v? with
      | some v => return wrap p.tag v
      | none => refuse
    | .seq p items => do
      if depth = 0 then refuse
      let vs ← items.mapM (valueOf anchors fuel (depth - 1))
      return wrap p.tag (.seq vs)
    | .map p entries => do
      if depth = 0 then refuse
      let vs ← entries.mapM fun e ↦ do
        let k ← valueOf anchors fuel (depth - 1) e.1
        let v ← valueOf anchors fuel (depth - 1) e.2
        return (k, v)
      if distinct? vs then return wrap p.tag (.map vs) else refuse

/-- The value of the only document in a text. -/
def read? (s : Text) : Option Value := do
  let tokens ← tokens? s
  let (root?, _) ← Reader.document.run ⟨tokens, [], []⟩
  match root? with
  | none => return .null
  | some root =>
    let (v, _) ← (valueOf (root.anchored []) 400 128 root).run (100 * root.count)
    return v

/-- The entries of the only document in a text, when it is a mapping. -/
def readEntries? (s : Text) : Option (List (Value × Value)) :=
  match read? s with
  | some (.map entries) => some entries
  | _ => none

end Markbook.Yaml
