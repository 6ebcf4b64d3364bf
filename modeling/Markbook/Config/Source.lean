import Markbook.Config.Setting
import Markbook.Json.Read
import Markbook.Toml.Read
import Markbook.Yaml.Resolve

/-!
# Sources of Settings

Settings come from files in TOML, JSON or YAML, told apart by the extension of their name, and from
variables of the environment.
-/

namespace Markbook.Setting

/-! ## TOML -/

mutual

def ofToml : Toml → Setting
  | .str s => .str s
  | .int n => .int n
  | .float x => .float x
  | .bool b => .bool b
  | .time s => .str s
  | .list l => .list (ofTomls l)
  | .tables l => .list (ofTomls l)
  | .table _ l => .table (ofTomlEntries l)

def ofTomls : List Toml → List Setting
  | [] => []
  | v :: r => ofToml v :: ofTomls r

def ofTomlEntries : List (Text × Toml) → List (Text × Setting)
  | [] => []
  | (k, v) :: r => (k, ofToml v) :: ofTomlEntries r

end

/-! ## JSON -/

/-- A number of JSON: an integer of 64 bits where it is one, else a finite decimal number. -/
def ofNumber? (s : Text) : Option Setting :=
  let integer? :=
    if s = "-0" then none
    else (Decimal.signed? 10 s).filter (Decimal.fits 64)
  match integer? with
  | some n => some (.int n)
  | none => ((Decimal.float? s).filter fun x ↦ !x.isInf).map .float

mutual

/-- The number bounds how deep lists and objects nest. -/
def ofJson? : Nat → Json → Option Setting
  | _, .null => some .nil
  | _, .bool b => some (.bool b)
  | _, .num s => ofNumber? s
  | _, .str s => some (.str s)
  | _, .broken => none
  | 0, _ => none
  | depth + 1, .arr l => (ofJsons? depth l).map .list
  | depth + 1, .obj l => (ofMembers? depth l).map tableOf

def ofJsons? : Nat → List Json → Option (List Setting)
  | _, [] => some []
  | depth, j :: r =>
    match ofJson? depth j, ofJsons? depth r with
    | some v, some l => some (v :: l)
    | _, _ => none

def ofMembers? : Nat → List (Text × Json) → Option (List (Text × Setting))
  | _, [] => some []
  | depth, (k, j) :: r =>
    match ofJson? depth j, ofMembers? depth r with
    | some v, some l => some ((k, v) :: l)
    | _, _ => none

end

/-! ## YAML -/

/-- The value of a plain scalar. -/
def ofPlain (s : Text) : Setting :=
  let based? (base : Nat) (mark : Text) : Option Int := do
    let n ← Decimal.signed? base (← Text.after? mark s)
    if Decimal.fitsSigned n then some n else none
  let int? := (Decimal.signed? 10 s).filter Decimal.fitsSigned
  match (based? 16 "0x").or (based? 8 "0o") |>.or int? with
  | some n => .int n
  | none =>
    if Text.isOneOf s ["~", "null"] then .nil
    else if s = "true" then .bool true
    else if s = "false" then .bool false
    else
      match Decimal.float? s with
      | some x => .float x
      | none => .str s

/-- The value of a scalar under a core tag; one that does not fit the tag is nothing. -/
def ofTagged (name s : Text) : Setting :=
  if name = "bool" then
    (if s = "true" then .bool true else if s = "false" then .bool false else .nil)
  else if name = "int" then
    (((Decimal.signed? 10 s).filter Decimal.fitsSigned).map .int).getD .nil
  else if name = "float" then ((Decimal.float? s).map .float).getD .nil
  else if name = "null" then .nil
  else .str s

def ofScalar (p : Yaml.Props) (s : Text) (plain : Bool) : Setting :=
  if !plain then .str s
  else
    match p.tag with
    | none => if s.isEmpty then .nil else ofPlain s
    | some t =>
      match Text.after? (Yaml.coreTag []) t with
      | some name => ofTagged name s
      | none => .str s

/-- The text of a key: a text or an integer. -/
def keyOf? : Setting → Option Text
  | .str s => some s
  | .int n => some (Decimal.ofInt n)
  | _ => none

def ofNode? (anchors : List (Nat × Yaml.Node)) : Nat → Yaml.Node → Option Setting
  | 0, _ => none
  | fuel + 1, n =>
    match n with
    | .alias i =>
      match anchors.find? fun e ↦ e.1 = i with
      | some e => ofNode? anchors fuel e.2
      | none => some .nil
    | .scalar p s plain => some (ofScalar p s plain)
    | .seq _ l => (l.mapM (ofNode? anchors fuel)).map .list
    | .map _ l => do
      let l ← l.mapM fun e ↦ do
        let k ← keyOf? (← ofNode? anchors fuel e.1)
        return (k, ← ofNode? anchors fuel e.2)
      return tableOf l

def ofYaml? (s : Text) : Option Setting := do
  let tokens ← Yaml.tokens? s
  let (root?, _) ← Yaml.Reader.document.run ⟨tokens, [], []⟩
  match root? with
  | none => return .table []
  | some root => ofNode? (root.anchored []) 400 root

/-! ## Files -/

/-- The formats of settings files. -/
inductive Format where
  | toml
  | json
  | yaml
deriving DecidableEq, Repr

def Format.ofPath? (p : Path) : Option Format :=
  match p.extension? with
  | none => none
  | some e =>
    if e = "toml" then some .toml
    else if e = "json" then some .json
    else if Text.isOneOf e ["yaml", "yml"] then some .yaml
    else none

/-- The entries of a file; it must be a table. -/
def ofFile? (f : Format) (s : Text) : Option (List (Text × Setting)) :=
  let v? :=
    match f with
    | .toml => (Toml.read? s).map ofToml
    | .json => (Json.read? s).bind (ofJson? 127)
    | .yaml => ofYaml? s
  match v? with
  | some (.table l) => some l
  | _ => none

/-! ## The environment -/

/-- Replaces every pair of underscores by a point. -/
def dotted : Text → Text
  | '_' :: '_' :: r => '.' :: dotted r
  | c :: r => c :: dotted r
  | [] => []

/-- The value of a variable: a truth value, an integer or a number where it reads as one. -/
def ofVariable (s : Text) : Setting :=
  if Text.lower s = "true" then .bool true
  else if Text.lower s = "false" then .bool false
  else
    match (Decimal.signed? 10 s).filter Decimal.fitsSigned with
    | some n => .int n
    | none =>
      match Decimal.float? s with
      | some x => .float x
      | none => .str s

/-- The settings among the variables of the environment. -/
def ofEnvironment (l : List (Text × Text)) : List (Text × Setting) :=
  l.filterMap fun e ↦
    (Text.after? "docket__" (Text.lower e.1)).map fun k ↦ (dotted k, ofVariable e.2)

end Markbook.Setting
