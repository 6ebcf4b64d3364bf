import Markbook.Config.Basic
import Markbook.Toml.Read

/-!
# Settings from TOML

Every value must have the type of its setting; settings that are missing get their defaults, keys
that mean nothing are passed over.  A group of settings may also be given as a list of its values in
order.
-/

namespace Markbook.Config.Strict

/-- The values of a group of settings, in order. -/
def group? (keys : List Text) : Toml → Option (List (Option Toml))
  | .table _ entries => some (keys.map (Toml.find? entries))
  | .list items | .tables items =>
    some ((List.range keys.length).map fun i ↦ items[i]?)
  | _ => none

/-- Reads a value if it is given. -/
def orElse? {α : Type} (read? : Toml → Option α) (default : α) : Option Toml → Option α
  | none => some default
  | some v => read? v

def text? : Toml → Option Text
  | .str s => some s
  | _ => none

def path? (v : Toml) : Option Path := (text? v).map Path.mk

def bool? : Toml → Option Bool
  | .bool b => some b
  | _ => none

def octet? : Toml → Option Nat
  | .int n => if 0 ≤ n && n < 256 then some n.toNat else none
  | _ => none

def items? : Toml → Option (List Toml)
  | .list items => some items
  | .tables items => some items
  | _ => none

def texts? (v : Toml) : Option (List Text) := (items? v).bind (·.mapM text?)

def isEmptyGroup : Toml → Bool
  | .table _ entries => entries.isEmpty
  | .list items | .tables items => items.isEmpty
  | _ => false

/-- A dialect by its name, or as the only key of a table, which holds nothing. -/
def dialect? : Toml → Option Dialect
  | .str s => Dialect.ofTag? s
  | .table _ [(key, v)] => if isEmptyGroup v then Dialect.ofTag? key else none
  | _ => none

def status? (v : Toml) : Option (Text × List Text) :=
  match group? ["canonical", "representations"] v with
  | some [some name, forms] => do
    return (← text? name, ← orElse? texts? [] forms)
  | _ => none

def modules? : Toml → Option Fields
  | .table _ entries =>
    (entries.mapM fun e ↦ (text? e.2).map fun t ↦ (e.1, t)).map TextMap.ofList
  | _ => none

def create? (v : Toml) : Option (Nat × Dialect) :=
  match group? ["heading_level", "format"] v with
  | some [level, format] => do
    return (← orElse? octet? standard.level level, ← orElse? dialect? standard.dialect format)
  | _ => none

def logging? (v : Toml) : Option LogConfig :=
  let std := LogConfig.standard
  match group? ["level", "format", "output", "file", "color", "modules"] v with
  | some [level, format, output, file, color, modules] => do
    return {
      level := ← orElse? text? std.level level
      format := ← orElse? text? std.format format
      output := ← orElse? text? std.output output
      file := ← orElse? path? std.file file
      color := ← orElse? bool? std.color color
      modules := ← orElse? modules? std.modules modules }
  | _ => none

/-- Reads settings. -/
def read? (s : Text) : Option Config := do
  match group? ["root", "statuses", "create", "logging"] (← Toml.read? s) with
  | some [root, statuses, create, logging] =>
    let root ← orElse? (fun v ↦ (path? v).map some) none root
    let statuses ← orElse? (fun v ↦ (items? v).bind (·.mapM status?)) [] statuses
    let (level, dialect) ← orElse? create? (standard.level, standard.dialect) create
    let logging ← orElse? logging? .standard logging
    return ⟨root, statuses, level, dialect, logging⟩
  | _ => none

end Markbook.Config.Strict
