import Markbook.Command.Basic
import Markbook.Decimal.Notation

/-!
# Arguments

The arguments of the program are switches and values.  A switch is a word with two dashes in front,
or one of a cluster of letters behind a single dash; its value is joined to it with an equals sign
or is the next argument.  Everything else is the word of a command or a value of its own.  Two
dashes alone make values of all arguments behind them.

A grammar says which switches, values and command words are expected in one place.  `Grammar.read`
takes a switch or a value in only when the next one comes, or at the end of the arguments, so that
an unknown switch is complained about before the value in front of it.
-/

namespace Markbook

/-- Why arguments are no invocation. -/
inductive UsageFault where
  /-- The help text is asked for. -/
  | help
  | noArguments
  | noCommand
  | unknownCommand
  | unknownArgument
  /-- A switch is given twice, or excludes another one. -/
  | conflict
  /-- A value is missing or empty. -/
  | noValue
  | strayValue
  | badValue
  | missingArgument
deriving DecidableEq, Repr

namespace Arguments

/-- What is demanded of a value. -/
inductive Demand where
  | text
  | path
  /-- An integer from 0 to 255. -/
  | level
  | dialect
deriving DecidableEq, Repr

/-- The number in a text, if it is an octet. -/
def octet? (s : Text) : Option Nat :=
  match Decimal.signed? 10 s with
  | some n => if 0 ≤ n && n < 256 then some n.toNat else none
  | none => none

def Demand.fault? (s : Text) : Demand → Option UsageFault
  | .text => none
  | .path => if s.isEmpty then some .noValue else none
  | .level => if (octet? s).isSome then none else some .badValue
  | .dialect => if (Dialect.ofName? s).isSome then none else some .badValue

/-- What a switch takes. -/
inductive Arity where
  | help
  | flag
  | one (demand : Demand)
  | many (demand : Demand)
deriving DecidableEq, Repr

/-- A switch, or a value at a fixed position, which has no letter. -/
structure Slot where
  word : Text
  letter : Option Char
  arity : Arity
deriving Repr

namespace Slot

def takesValue (s : Slot) : Bool :=
  match s.arity with
  | .help | .flag => false
  | .one _ | .many _ => true

/-- A switch without a letter that takes a value. -/
def valued (word : String) (d : Demand) : Slot := ⟨word, none, .one d⟩

end Slot

structure Grammar where
  switches : List Slot
  positions : List Slot
  commands : List Text

/-- Switches and values that were taken in. -/
abbrev Given := List (Text × Text)

namespace Given

/-- The last value under a word. -/
def value? (g : Given) (word : String) : Option Text :=
  (g.reverse.find? fun e ↦ e.1 = word.toList).map (·.2)

def values (g : Given) (word : String) : List Text :=
  (g.filter fun e ↦ e.1 = word.toList).map (·.2)

def has (g : Given) (word : String) : Bool := (g.value? word).isSome

end Given

/-! ## Reading by a grammar -/

structure State where
  given : Given
  /-- A slot whose value is not taken in yet, or has not come yet. -/
  pending : Option (Slot × Option Text)
  /-- How many values without a switch there were. -/
  count : Nat
  /-- Are all arguments to come values? -/
  isTrailing : Bool

def State.start : State := ⟨[], none, 0, false⟩

namespace State

/-- Takes a slot in, with its value where it has one. -/
def take (s : State) (slot : Slot) (value : Option Text) : Except UsageFault State :=
  let isNew := !s.given.any fun e ↦ e.1 = slot.word
  match slot.arity, value with
  | .help, _ => .error .help
  | .flag, _ =>
    if isNew then .ok { s with given := s.given ++ [(slot.word, [])] } else .error .conflict
  | .one _, none | .many _, none => .error .noValue
  | .one d, some v =>
    if !isNew then .error .conflict
    else
      match d.fault? v with
      | some e => .error e
      | none => .ok { s with given := s.given ++ [(slot.word, v)] }
  | .many d, some v =>
    match d.fault? v with
    | some e => .error e
    | none => .ok { s with given := s.given ++ [(slot.word, v)] }

/-- Takes in what is pending. -/
def settle (s : State) : Except UsageFault State :=
  match s.pending with
  | none => .ok s
  | some (slot, value) => take { s with pending := none } slot value

/-- Does the last switch still wait for its value? -/
def isWaiting (s : State) : Bool :=
  match s.pending with
  | some (_, none) => true
  | _ => false

end State

namespace Grammar

/-- Handles a switch with two dashes. -/
def long (g : Grammar) (s : State) (word : Text) (value : Option Text) :
    Except UsageFault State :=
  match g.switches.find? fun slot ↦ slot.word = word with
  | none => .error .unknownArgument
  | some slot =>
    match slot.takesValue, value with
    | true, none => s.settle.map fun s ↦ { s with pending := some (slot, none) }
    | false, some _ => .error .strayValue
    | _, v => s.settle.bind fun s ↦ s.take slot v

/-- Handles the letters behind a dash, which take no values. -/
def letters (g : Grammar) : State → Text → Except UsageFault State
  | s, [] => .ok s
  | s, c :: r =>
    match g.switches.find? fun slot ↦ slot.letter = some c with
    | none => .error .unknownArgument
    | some slot =>
      match s.settle.bind fun s ↦ s.take slot none with
      | .ok s => letters g s r
      | .error e => .error e

/-- Handles a value that belongs to no switch. -/
def position (g : Grammar) (s : State) (value : Text) : Except UsageFault State :=
  match g.positions[s.count]? with
  | some slot =>
    s.settle.map fun s ↦ { s with pending := some (slot, some value), count := s.count + 1 }
  | none =>
    if g.commands.isEmpty || (s.isTrailing && g.commands.contains value) then
      .error .unknownArgument
    else .error .unknownCommand

/-- Handles an argument that is not the word of a command. -/
def argument (g : Grammar) (s : State) (a : Text) : Except UsageFault State :=
  if s.isTrailing then position g s a
  else
    match a with
    | ['-', '-'] => .ok { s with isTrailing := true }
    | '-' :: '-' :: r =>
      match Text.cut? ['='] r with
      | some (word, value) => long g s word (some value)
      | none => long g s r none
    | '-' :: c :: r => letters g s (c :: r)
    | _ =>
      match s.pending with
      | some (slot, none) => .ok { s with pending := some (slot, some a) }
      | _ => position g s a

/-- Reads arguments up to the word of a command, which is given with the arguments behind it. -/
def read (g : Grammar) : State → List Text → Except UsageFault (State × Option (Text × List Text))
  | s, [] => .ok (s, none)
  | s, a :: r =>
    if !s.isTrailing && !s.isWaiting && g.commands.contains a then .ok (s, some (a, r))
    else
      match argument g s a with
      | .ok s => read g s r
      | .error e => .error e

end Grammar

/-! ## The grammar of the program -/

def helpWord : Text := "help"

/-- The switches that every command takes, before its word or behind it. -/
def generalSwitches : List Slot :=
  [.valued "root" .path, .valued "config" .path, ⟨"verbose", some 'v', .flag⟩,
    ⟨"quiet", some 'q', .flag⟩, .valued "log-level" .text, .valued "log-format" .text,
    .valued "log-output" .text, .valued "log-file" .path, ⟨helpWord, some 'h', .help⟩]

def formatSwitch : Slot := .valued "format" .text

/-- The grammar behind the word of a command. -/
def grammarOf? (word : Text) : Option Grammar :=
  let grammar : List Slot → List Slot → Option Grammar := fun switches positions ↦
    some ⟨generalSwitches ++ switches, positions, []⟩
  match String.ofList word with
  | "scan" => grammar [formatSwitch] []
  | "list" => grammar [formatSwitch, ⟨"roots", none, .flag⟩] []
  | "show" => grammar [formatSwitch] [.valued "NAME" .text]
  | "set" => grammar [] [.valued "NAME" .text, .valued "FIELD" .text, .valued "VALUE" .text]
  | "create" =>
    grammar [.valued "title" .text, .valued "file" .path, ⟨"field", none, .many .text⟩,
      .valued "level" .level, .valued "kv-format" .dialect] [.valued "NAME" .text]
  | "triggers" => grammar [formatSwitch] [.valued "FILE" .path]
  | "tasks" => grammar [] []
  | "config" => grammar [] []
  | _ => none

def commandWords : List Text :=
  ["scan", "list", "show", "set", "create", "triggers", "tasks", "config"].map String.toList

def topGrammar : Grammar := ⟨generalSwitches, [], commandWords ++ [helpWord]⟩

/-- The words behind `help` name at most one command, which has no commands of its own. -/
def helpFault (words : List Text) : UsageFault :=
  match words with
  | [] => .help
  | [w] => if topGrammar.commands.contains w then .help else .unknownCommand
  | _ => .unknownCommand

/-- A command that tells less and one that tells more exclude each other. -/
def checkConflict (g : Given) : Except UsageFault Unit :=
  if g.has "quiet" && g.has "verbose" then .error .conflict else .ok ()

def required (g : Given) (word : String) : Except UsageFault Text :=
  match g.value? word with
  | some v => .ok v
  | none => .error .missingArgument

/-- The command of a word from what was given behind it. -/
def command (word : Text) (g : Given) : Except UsageFault Command := do
  let format : String → Text := fun standard ↦ (g.value? "format").getD standard
  match String.ofList word with
  | "scan" => return .scan (format "text")
  | "list" => return .list (format "text") (g.has "roots")
  | "show" => return .describe (← required g "NAME") (format "text")
  | "set" => return .set (← required g "NAME") (← required g "FIELD") (← required g "VALUE")
  | "create" =>
    return .create
      { name := ← required g "NAME"
        title := g.value? "title"
        file := ⟨← required g "file"⟩
        fields := g.values "field"
        level := (g.value? "level").bind octet?
        dialect := (g.value? "kv-format").bind Dialect.ofName? }
  | "triggers" => return .triggers ⟨← required g "FILE"⟩ (format "json")
  | "tasks" => return .tasks
  | "config" => return .config
  | _ => .error .unknownCommand

/-- The invocation of a command.  Of a switch that is given before and behind the word of the
command the latter counts. -/
def invocation (c : Command) (g : Given) : Invocation :=
  let path? : String → Option Path := fun word ↦ (g.value? word).map Path.mk
  { command := c
    root := path? "root"
    settings := path? "config"
    verbose := g.has "verbose"
    quiet := g.has "quiet"
    logLevel := g.value? "log-level"
    logFormat := g.value? "log-format"
    logOutput := g.value? "log-output"
    logFile := path? "log-file" }

/-- Reads the arguments behind the word of a command. -/
def readCommand (word : Text) (l : List Text) : Except UsageFault (Command × Given) :=
  match grammarOf? word with
  | none => .error .unknownCommand
  | some grammar => do
    let (s, _) ← grammar.read .start l
    let s ← s.settle
    checkConflict s.given
    return (← command word s.given, s.given)

/-- Reads the arguments of the program. -/
def read (l : List Text) : Except UsageFault Invocation := do
  match ← topGrammar.read .start l with
  | (s, none) =>
    let s ← s.settle
    .error (if s.given.isEmpty then .noArguments else .noCommand)
  | (s, some (word, rest)) =>
    if word = helpWord then .error (helpFault rest)
    else
      let (c, given) ← readCommand word rest
      let s ← s.settle
      checkConflict s.given
      return invocation c (s.given ++ given)

end Arguments

end Markbook
