import Markbook.Config.Basic
import Markbook.Text.Lower

/-!
# Layered Settings

Settings from several sources are laid over each other before they are read.  Tables are merged key
by key; any other value replaces what was there.  A key at the top of a source is a path: names
separated by points, and indices in brackets.

Reading is lenient: a text is made from a number, a number from a text, and so on.
-/

namespace Markbook

inductive Setting where
  | nil
  | bool (b : Bool)
  | int (n : Int)
  | float (x : Float)
  | str (s : Text)
  | list (items : List Setting)
  | table (entries : List (Text × Setting))
deriving Inhabited

namespace Setting

/-! ## Merging -/

def find? (key : Text) : Setting → Option Setting
  | .table entries => (entries.find? fun e ↦ e.1 = key).map (·.2)
  | _ => none

/-- The entries of a table, none of any other value. -/
def entries : Setting → List (Text × Setting)
  | .table l => l
  | _ => []

/-- Puts a value under a key.  What is no table becomes one. -/
def withKey (t : Setting) (key : Text) (v : Setting) : Setting :=
  let l := t.entries
  if l.any fun e ↦ e.1 = key then .table (l.map fun e ↦ if e.1 = key then (key, v) else e)
  else .table (l ++ [(key, v)])

/-- A table of entries, of which a later one replaces an earlier one with the same key. -/
def tableOf (l : List (Text × Setting)) : Setting :=
  l.foldl (fun t e ↦ t.withKey e.1 e.2) (.table [])

mutual

/-- Lays a value over what is there, if anything is. -/
def layer : Setting → Option Setting → Setting
  | .table l, old => layerAll l (old.getD (.table []))
  | v, _ => v

/-- Lays entries over a value. -/
def layerAll : List (Text × Setting) → Setting → Setting
  | [], t => t
  | (k, v) :: r, t => layerAll r (t.withKey k (layer v (t.find? k)))

end

mutual

/-- Puts all keys in lower case. -/
def lowered : Setting → Setting
  | .table l => .table (loweredEntries l)
  | .list l => .list (loweredItems l)
  | v => v

def loweredEntries : List (Text × Setting) → List (Text × Setting)
  | [] => []
  | (k, v) :: r => (Text.lower k, lowered v) :: loweredEntries r

def loweredItems : List Setting → List Setting
  | [] => []
  | v :: r => lowered v :: loweredItems r

end

/-! ## Paths of keys -/

/-- A step from a setting into it. -/
inductive Step where
  | key (name : Text)
  | index (n : Int)
deriving DecidableEq, Repr

def isNameChar (c : Char) : Bool := c.isAlphanum || c = ' ' || c = '_' || c = '-' || c = ':'

def takeName? (s : Text) : Option (Text × Text) :=
  let name := s.takeWhile isNameChar
  if name.isEmpty then none else some (name, s.dropWhile isNameChar)

/-- Reads the steps behind the first name. -/
def steps? : Nat → Text → Option (List Step)
  | _, [] => some []
  | 0, _ => none
  | fuel + 1, '.' :: r => do
    let (name, r) ← takeName? r
    return .key name :: (← steps? fuel r)
  | fuel + 1, '[' :: r => do
    let (n, r) ← Text.cut? [']'] r
    if n.head? = some '+' then none
    let n ← Decimal.signed? 10 n
    return .index n :: (← steps? fuel r)
  | _, _ => none

/-- The path a key stands for.  A key of any other form is a name as a whole. -/
def pathOf (key : Text) : List Step :=
  match takeName? key with
  | some (name, r) =>
    match steps? r.length r with
    | some l => .key name :: l
    | none => [.key key]
  | none => [.key key]

/-- The items of a list, none of any other value. -/
def items : Setting → List Setting
  | .list l => l
  | _ => []

/-- Counts an index below zero from the end. -/
def position (n : Int) (size : Nat) : Nat := if 0 ≤ n then n.toNat else size - n.natAbs

/-- Replaces the item at a position.  A list that is too short is filled up. -/
def withItem (at_ : Nat) (v : Setting) (l : List Setting) : Setting :=
  .list ((l ++ List.replicate (at_ + 1 - l.length) Setting.nil).set at_ v)

/-- Lays a value over what is at a path. -/
def assign (v : Setting) : List Step → Setting → Setting
  | [], t => t
  | [.key k], t => t.withKey k (v.layer (t.find? k))
  | .key k :: r, t => t.withKey k (assign v r ((t.find? k).getD Setting.nil))
  | [.index n], t => withItem (position n t.items.length) v t.items
  | .index n :: r, t =>
    let at_ := position n t.items.length
    withItem at_ (assign v r (t.items.getD at_ Setting.nil)) t.items

/-- Lays the entries of a source over the settings so far. -/
def withSource (source : List (Text × Setting)) (t : Setting) : Setting :=
  source.foldl (fun t e ↦ assign (lowered e.2) (pathOf (Text.lower e.1)) t) t

/-! ## Lenient reading -/

def text? : Setting → Option Text
  | .str s => some s
  | .bool b => some (if b then "true" else "false")
  | .int n => some (Decimal.ofInt n)
  | .float x => some (Decimal.positional x)
  | _ => none

def path? (v : Setting) : Option Path := (text? v).map Path.mk

/-- A truth value, as a word or as a number that is not zero. -/
def bool? : Setting → Option Bool
  | .bool b => some b
  | .int n => some (n ≠ 0)
  | .float x => some (!(x == 0))
  | .str s =>
    if Text.isOneOf (Text.lower s) ["1", "true", "on", "yes"] then some true
    else if Text.isOneOf (Text.lower s) ["0", "false", "off", "no"] then some false
    else none
  | _ => none

/-- The nearest unsigned number; one below zero or undefined becomes zero. -/
def rounded (x : Float) : Nat :=
  match Decimal.nearestInt? x with
  | some n => n.toNat
  | none => if x == 1.0 / 0.0 then UInt64.size - 1 else 0

/-- An unsigned number. -/
def nat? : Setting → Option Nat
  | .int n => if 0 ≤ n then some n.toNat else none
  | .float x => some (rounded x)
  | .bool b => some (if b then 1 else 0)
  | .str s =>
    if Text.isOneOf (Text.lower s) ["true", "on", "yes"] then some 1
    else if Text.isOneOf (Text.lower s) ["false", "off", "no"] then some 0
    else Decimal.bounded? UInt64.size s
  | _ => none

def octet? (v : Setting) : Option Nat := (nat? v).filter (· < 256)

/-- The values of a group of settings: of a table by key, of a list in order. -/
def group? (keys : List Text) : Setting → Option (List (Option Setting))
  | .table l => some (keys.map fun k ↦ find? k (.table l))
  | .list l => some ((List.range keys.length).map fun i ↦ l[i]?)
  | _ => none

/-- Reads a value if it is given. -/
def orElse? {α : Type} (read? : Setting → Option α) (default : α) : Option Setting → Option α
  | none => some default
  | some v => read? v

def items? : Setting → Option (List Setting)
  | .list l => some l
  | _ => none

/-- A dialect by its name in any case, or as the only key of a table. -/
def dialect? : Setting → Option Dialect
  | .str s => Dialect.ofTag? (Text.lower s)
  | .table [(k, _)] => Dialect.ofTag? (Text.lower k)
  | _ => none

def status? (v : Setting) : Option (Text × List Text) :=
  match group? ["canonical", "representations"] v with
  | some [some name, forms] => do
    return (← text? name, ← orElse? (fun v ↦ (items? v).bind (·.mapM text?)) [] forms)
  | _ => none

def modules? : Setting → Option Fields
  | .table l => (l.mapM fun e ↦ (text? e.2).map fun t ↦ (e.1, t)).map TextMap.ofList
  | _ => none

def create? (v : Setting) : Option (Nat × Dialect) :=
  let std := Config.standard
  match group? ["heading_level", "format"] v with
  | some [level, format] => do
    return (← orElse? octet? std.level level, ← orElse? dialect? std.dialect format)
  | _ => none

def logging? (v : Setting) : Option LogConfig :=
  let std := LogConfig.standard
  match group? ["level", "format", "output", "file", "color", "modules"] v with
  | some [level, format, output, file, color, modules] => do
    return {
      level := ← orElse? text? std.level level
      format := ← orElse? text? std.format format
      output := ← orElse? text? std.output output
      file := ← orElse? path? std.file file
      color := ← orElse? bool? std.color color
      modules := ← orElse? modules? std.modules modules }
  | _ => none

/-- A path, or none for nothing. -/
def root? : Setting → Option (Option Path)
  | .nil => some none
  | v => (path? v).map some

/-- Reads the settings of a workspace. -/
def config? (v : Setting) : Option Config :=
  match group? ["root", "statuses", "create", "logging"] v with
  | some [root, statuses, create, logging] => do
    let root ← orElse? root? none root
    let statuses ← orElse? (fun v ↦ (items? v).bind (·.mapM status?)) [] statuses
    let (level, dialect) ← orElse? create? (Config.standard.level, Config.standard.dialect) create
    let logging ← orElse? logging? .standard logging
    return ⟨root, statuses, level, dialect, logging⟩
  | _ => none

/-- The settings that every source is laid over. -/
def base : Setting :=
  withSource [("create.heading_level", .int 2), ("create.format", .str "kv-colons"),
    ("logging.level", .str "warn"), ("logging.format", .str "text"),
    ("logging.output", .str "stderr")] (.table [])

end Setting

end Markbook
