import Markbook.Decimal.Notation
import Markbook.Text.Blank

/-!
# Log Filters

A filter is a list of directives, each of which sets a level for the events of some targets.  The
directive of the longest target that an event's target begins with decides on the event.

`Directive.read` reads `target=level`, a level alone, or a target alone, which then gets every
level. A directive for a span or for fields is read as well; it decides on no event.
-/

namespace Markbook.Log

inductive Level where
  | error
  | warn
  | info
  | debug
  | trace
deriving DecidableEq, Repr

namespace Level

/-- Higher for the finer levels. -/
def rank : Level → Nat
  | .error => 1
  | .warn => 2
  | .info => 3
  | .debug => 4
  | .trace => 5

def name : Level → Text
  | .error => "ERROR"
  | .warn => "WARN"
  | .info => "INFO"
  | .debug => "DEBUG"
  | .trace => "TRACE"

end Level

/-- Something that happened, with the part of the program that says so. -/
structure Event where
  level : Level
  target : Text
  message : Text
deriving DecidableEq, Repr

/-! ## Directives -/

/-- Why a text is no directive. -/
inductive DirectiveFault where
  | malformed
  | unknownLevel
deriving DecidableEq, Repr

namespace DirectiveFault

def message : DirectiveFault → Text
  | .malformed => "invalid filter directive"
  | .unknownLevel =>
    "error parsing level filter: expected one of \"off\", \"error\", \"warn\", ".toList ++
      "\"info\", \"debug\", \"trace\", or a number 0-5".toList

end DirectiveFault

/-- The rank up to which a word lets events pass. -/
def threshold? (s : Text) : Option Nat :=
  match Decimal.bounded? UInt64.size s with
  | some n => if n ≤ 5 then some n else none
  | none =>
    let words := ["off", "error", "warn", "info", "debug", "trace"].map String.toList
    words.findIdx? (Text.sameWord s)

structure Directive where
  target : Option Text
  /-- Does it ask for a span or for fields? -/
  isNarrow : Bool
  threshold : Nat
deriving DecidableEq, Repr

namespace Directive

/-- Reads the level behind an equals sign; without one every level passes.  A comma may only end the
directive. -/
def level (s : Text) : Except DirectiveFault Nat :=
  let word := s.takeWhile (· ≠ ',')
  if 1 < (s.drop word.length).length then .error .malformed
  else if word.isEmpty then .ok 5
  else
    match threshold? word with
    | some n => .ok n
    | none => .error .unknownLevel

/-- Reads what follows a closed bracket. -/
def afterSpan (target : Option Text) : Text → Except DirectiveFault Directive
  | [] => .ok ⟨target, true, 5⟩
  | '=' :: r => (level r).map fun n ↦ ⟨target, true, n⟩
  | _ => .error .malformed

/-- Is a list of fields well-formed?  No field is empty. -/
def areFields (s : Text) : Bool := (Text.pieces ',' s).all fun f ↦ !f.isEmpty

/-- Reads a span with its fields behind an opening bracket. -/
def inSpan (target : Option Text) (s : Text) : Except DirectiveFault Directive :=
  let name := s.takeWhile fun c ↦ c ≠ ']' && c ≠ '\x7b'
  match s.drop name.length with
  | ']' :: r => afterSpan target r
  | _ :: r =>
    match Text.cut? ['\x7d'] r with
    | some (fields, ']' :: r) =>
      if areFields fields then afterSpan target r else .error .malformed
    | _ => .error .malformed
  | [] => .error .malformed

/-- May a directive begin with the character? -/
def isStart (c : Char) : Bool := c = '-' || c = ':' || c = '_' || c.isAlphanum || 0x80 ≤ c.toNat

/-- Reads a directive. -/
def read (s : Text) : Except DirectiveFault Directive :=
  let s := Text.trim s
  match s with
  | [] => .error .malformed
  | '[' :: r => inSpan none r
  | c :: _ =>
    if !isStart c then .error .malformed
    else
      let word := s.takeWhile fun c ↦ c ≠ '=' && c ≠ '[' && c ≠ ','
      match s.drop word.length with
      | '=' :: r => (level r).map fun n ↦ ⟨some word, false, n⟩
      | '[' :: r => inSpan (some word) r
      | ',' :: _ :: _ => .error .malformed
      | _ =>
        match threshold? s with
        | some n => .ok ⟨none, false, n⟩
        | none => .ok ⟨some s, false, 5⟩

end Directive

/-! ## Filters -/

structure Filter where
  directives : List Directive
deriving DecidableEq, Repr

namespace Filter

def ofLevel (n : Nat) : Filter := ⟨[⟨none, false, n⟩]⟩

/-- Nothing passes. -/
def off : Filter := ofLevel 0

/-- The texts of directives in a list of them. -/
def parts (s : Text) : List Text := (Text.pieces ',' s).filter (!·.isEmpty)

/-- Reads a list of directives, every one of which must be well-formed. -/
def read? (s : Text) : Option Filter :=
  match (parts s).mapM Directive.read with
  | .ok [] => some off
  | .ok l => some ⟨l⟩
  | .error _ => none

/-- Reads a list of directives.  Malformed ones are passed over; without any, errors pass. -/
def readLossy (s : Text) : Filter :=
  let l := (parts s).filterMap fun p ↦ (Directive.read p).toOption
  if l.isEmpty then ofLevel 1 else ⟨l⟩

/-- What is said of the malformed directives that are passed over. -/
def complaints (s : Text) : List Text :=
  (parts s).filterMap fun p ↦
    match Directive.read p with
    | .ok _ => none
    | .error e => some ("ignoring `".toList ++ p ++ "`: ".toList ++ e.message)

/-- Adds directives; they win over earlier ones for the same target. -/
def add (f : Filter) (l : List Directive) : Filter := ⟨f.directives ++ l⟩

/-- Does the directive speak of events of this target? -/
def concerns (target : Text) (d : Directive) : Bool :=
  !d.isNarrow && (d.target.map fun t ↦ t.isPrefixOf target).getD true

/-- Keeps the directive of the longer target, and of two for the same target the later. -/
def closer (best : Option Directive) (d : Directive) : Option Directive :=
  let size : Directive → Nat := fun d ↦ (d.target.map fun t ↦ t.octets + 1).getD 0
  match best with
  | none => some d
  | some b => if size b ≤ size d then some d else some b

/-- Does the event pass? -/
def admits (f : Filter) (e : Event) : Bool :=
  match (f.directives.filter (concerns e.target)).foldl closer none with
  | some d => e.level.rank ≤ d.threshold
  | none => false

end Filter

end Markbook.Log
