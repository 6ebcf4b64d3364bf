import Markbook.Json.Basic

/-!
# YAML Values

The values a YAML document can hold, when two of them are the same key, and how a value becomes the
text of a field: `null` is empty, a tag is dropped, and a list or a map becomes compact JSON.
-/

namespace Markbook.Yaml

inductive Value where
  | null
  | bool (b : Bool)
  | int (n : Int)
  | float (x : Float)
  | str (s : Text)
  | seq (items : List Value)
  | map (entries : List (Value × Value))
  | tagged (tag : Text) (v : Value)
deriving Inhabited

namespace Value

mutual

/-- Are two values equal?  All undefined numbers are, and the order of entries has no meaning. -/
def same : Value → Value → Bool
  | .null, .null => true
  | .bool a, .bool b => a == b
  | .int a, .int b => a == b
  | .float a, .float b => a == b || (a.isNaN && b.isNaN)
  | .str a, .str b => a == b
  | .seq a, .seq b => sameItems a b
  | .map a, .map b => a.length == b.length && includes a b
  | .tagged s a, .tagged t b => s == t && same a b
  | _, _ => false

def sameItems : List Value → List Value → Bool
  | [], [] => true
  | a :: r, b :: t => same a b && sameItems r t
  | _, _ => false

/-- Is every entry of the first list an entry of the second? -/
def includes : List (Value × Value) → List (Value × Value) → Bool
  | [], _ => true
  | (k, v) :: r, l => l.any (fun e ↦ same k e.1 && same v e.2) && includes r l

end

/-- The text of a number in JSON, which has no infinite or undefined numbers. -/
def jsonNumber (x : Float) : Json :=
  if x.isNaN || x.isInf then .null else .num (Decimal.natural x)

/-- The text of a member's key: only texts, truth values and finite numbers can be one. -/
def jsonKey? : Value → Option Text
  | .str s => some s
  | .bool b => some (if b then "true" else "false")
  | .int n => some (Decimal.ofInt n)
  | .float x => if x.isNaN || x.isInf then none else some (Decimal.natural x)
  | _ => none

mutual

/-- The value as JSON, unless some key cannot be written.  A tag becomes the key of an object. -/
def json? : Value → Option Json
  | .null => some .null
  | .bool b => some (.bool b)
  | .int n => some (.ofInt n)
  | .float x => some (jsonNumber x)
  | .str s => some (.str s)
  | .seq items => (jsonItems? items).map .arr
  | .map entries => (jsonMembers? entries).map .obj
  | .tagged t v => (json? v).map fun j ↦ .obj [('!' :: t, j)]

def jsonItems? : List Value → Option (List Json)
  | [] => some []
  | v :: r =>
    match json? v, jsonItems? r with
    | some j, some l => some (j :: l)
    | _, _ => none

def jsonMembers? : List (Value × Value) → Option (List (Text × Json))
  | [] => some []
  | (k, v) :: r =>
    match jsonKey? k, json? v, jsonMembers? r with
    | some k, some j, some l => some ((k, j) :: l)
    | _, _, _ => none

end

def floatText (x : Float) : Text :=
  if x.isNaN then ".nan"
  else if x.isInf then (if x < 0 then "-.inf" else ".inf")
  else Decimal.natural x

/-- The value as the text of a field. -/
def text : Value → Text
  | .null => []
  | .bool b => if b then "true" else "false"
  | .int n => Decimal.ofInt n
  | .float x => floatText x
  | .str s => s
  | .tagged _ v => text v
  | v =>
    match json? v with
    | some j => j.compact
    | none => []

/-- The value without its tags. -/
def untagged : Value → Value
  | .tagged _ v => untagged v
  | v => v

/-- The value under a text key. -/
def find? (entries : List (Value × Value)) (key : Text) : Option Value :=
  (entries.find? fun e ↦ e.1.same (.str key)).map (·.2)

end Value

end Markbook.Yaml
