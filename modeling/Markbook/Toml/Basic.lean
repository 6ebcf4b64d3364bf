import Markbook.Text.Basic

/-!
# TOML Values

A TOML document is a table.  Each table knows how it came about, since that decides what may be
added to it: a header opens a table only once, a dotted key extends only tables made by dotted keys,
and nothing extends a table written between braces.
-/

namespace Markbook

/-- How a table came about. -/
inductive TableForm where
  /-- By a header of its own. -/
  | header
  /-- On the way of the header of another table. -/
  | implied
  /-- On the way of a dotted key. -/
  | dotted
  /-- Between braces. -/
  | inline
deriving DecidableEq, Repr

inductive Toml where
  | str (s : Text)
  | int (n : Int)
  | float (x : Float)
  | bool (b : Bool)
  /-- A date, a time or both, in its usual form. -/
  | time (s : Text)
  | list (items : List Toml)
  | table (form : TableForm) (entries : List (Text × Toml))
  /-- The tables opened by headers in double brackets. -/
  | tables (items : List Toml)
deriving Inhabited

namespace Toml

/-- The value under a key. -/
def find? (entries : List (Text × Toml)) (key : Text) : Option Toml :=
  (entries.find? fun e ↦ e.1 = key).map (·.2)

/-- Replaces the value under a key that is there. -/
def replace (key : Text) (v : Toml) (entries : List (Text × Toml)) : List (Text × Toml) :=
  entries.map fun e ↦ if e.1 = key then (key, v) else e

/-- Changes the table at a path, making the tables on the way that are missing.  Of several tables
opened by headers in double brackets the last is meant.  `dotted` tells a dotted key from a
header. -/
def at? (dotted : Bool) (act : Toml → Option Toml) : List Text → Toml → Option Toml
  | [], t => act t
  | key :: path, .table form entries =>
    match find? entries key with
    | none =>
      (at? dotted act path (.table (if dotted then .dotted else .implied) [])).map fun t ↦
        .table form (entries ++ [(key, t)])
    | some (.table .inline _) => none
    | some (.table f inner) =>
      if dotted && f = .header then none
      else (at? dotted act path (.table f inner)).map fun t ↦
        .table form (replace key t entries)
    | some (.tables items) =>
      (items.getLast?.bind (at? dotted act path)).map fun t ↦
        .table form (replace key (.tables (items.dropLast ++ [t])) entries)
    | some _ => none
  | _, _ => none

/-- Adds an entry under a new key. -/
def add? (key : Text) (v : Toml) : Toml → Option Toml
  | .table form entries =>
    if (find? entries key).isSome then none else some (.table form (entries ++ [(key, v)]))
  | _ => none

/-- Adds an entry under a dotted key to a table. -/
def put? (path : List Text) (v : Toml) (t : Toml) : Option Toml :=
  match path.getLast? with
  | none => none
  | some key =>
    let act : Toml → Option Toml := fun target ↦
      match target with
      | .table form _ =>
        if path.length ≠ 1 && form ≠ .dotted then none else add? key v target
      | _ => none
    at? true act path.dropLast t

/-- Opens the table of a header. -/
def openTable? (path : List Text) (root : Toml) : Option Toml :=
  match path.getLast? with
  | none => none
  | some key =>
    let act : Toml → Option Toml := fun target ↦
      match target with
      | .table form entries =>
        match find? entries key with
        | none => some (.table form (entries ++ [(key, .table .header [])]))
        | some (.table .implied inner) =>
          some (.table form (replace key (.table .header inner) entries))
        | some _ => none
      | _ => none
    at? false act path.dropLast root

/-- Opens one more table of a header in double brackets. -/
def openNext? (path : List Text) (root : Toml) : Option Toml :=
  match path.getLast? with
  | none => none
  | some key =>
    let act : Toml → Option Toml := fun target ↦
      match target with
      | .table form entries =>
        match find? entries key with
        | none => some (.table form (entries ++ [(key, .tables [.table .header []])]))
        | some (.tables items) =>
          some (.table form (replace key (.tables (items ++ [.table .header []])) entries))
        | some _ => none
      | _ => none
    at? false act path.dropLast root

end Toml

end Markbook
