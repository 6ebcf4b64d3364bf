import Markbook.Trigger.Condition

/-!
# Trigger Blocks

A block is a chain of rules: `if` and `elif` with a condition, `else` without one, each followed by
the command that `then` gives.  A block ends at a blank line, at a line that names the next block,
and at an `if` once it has a condition.  Lines of any other form have no meaning.

`blocks` reads a text, `listing` shows blocks to a person.
-/

namespace Markbook.Trigger

structure Clause where
  condition : Condition
  /-- The command to run; placeholders in it stay as they are. -/
  command : Text
  isElse : Bool
deriving DecidableEq, Repr

structure Block where
  name : Option Text
  clauses : List Clause
deriving DecidableEq, Repr

/-- What a line says. -/
inductive Line where
  | blank
  | name (name : Text)
  | first (expression : Text)
  | next (expression : Text)
  | otherwise
  | command (line command : Text)
  | other
deriving DecidableEq, Repr

namespace Line

def hashesTrimmed (s : Text) : Text := Text.trim (s.dropWhile (· = '#'))

/-- Classifies a trimmed line. -/
def ofText (s : Text) : Line :=
  if s.isEmpty then .blank
  else if s.head? = some '#' then .name (hashesTrimmed s)
  else
    match Text.after? "if " s with
    | some e => .first e
    | none =>
      match Text.after? "elif " s with
      | some e => .next e
      | none =>
        if s = "else" then .otherwise
        else
          match Text.after? "then" s with
          | some c => if c.isEmpty || c.head? = some ' ' then .command s (Text.trim c) else .other
          | none => .other

end Line

/-- Blocks read so far, the name for the next one, and the clauses of the open one. -/
structure Builder where
  done : List Block
  name : Option Text
  clauses : List Clause
deriving DecidableEq, Repr

namespace Builder

def start : Builder := ⟨[], none, []⟩

/-- Closes the open block, if it has a clause.  The name goes with it. -/
def close (b : Builder) : Builder :=
  if b.clauses.isEmpty then b else ⟨b.done ++ [⟨b.name, b.clauses⟩], none, []⟩

def add (b : Builder) (c : Clause) : Builder := { b with clauses := b.clauses ++ [c] }

/-- Gives the last clause its command. -/
def command? (b : Builder) (command : Text) : Option Builder :=
  b.clauses.getLast?.map fun c ↦ { b with clauses := b.clauses.dropLast ++ [{ c with command }] }

def step (b : Builder) : Line → Except Fault Builder
  | .blank => .ok b.close
  | .name n => .ok { b.close with name := some n }
  | .first e =>
    let b := if b.clauses.any (!·.isElse) then b.close else b
    (Condition.read e).map fun c ↦ b.add ⟨c, [], false⟩
  | .next e => (Condition.read e).map fun c ↦ b.add ⟨c, [], false⟩
  | .otherwise => .ok (b.add ⟨.always, [], true⟩)
  | .command line c =>
    match b.command? c with
    | some b => .ok b
    | none => .error (.strayThen line)
  | .other => .ok b

end Builder

/-- Reads the blocks of a text. -/
def blocks (s : Text) : Except Fault (List Block) := do
  let b ← (Text.lines s).foldlM (fun b l ↦ b.step (Line.ofText (Text.trim l))) Builder.start
  return b.close.done

/-! ## Showing blocks -/

def Clause.json (c : Clause) : Json :=
  .obj [("condition", c.condition.json), ("action", .obj [("command_template", .str c.command)]),
    ("is_else", .bool c.isElse)]

def Block.json (b : Block) : Json :=
  .obj [("name", .ofOption b.name), ("clauses", .arr (b.clauses.map Clause.json))]

/-- The rule and the command of a clause.  The first of a block is its `if`. -/
def Clause.lines (isFirst : Bool) (c : Clause) : List Text :=
  let rule : Text :=
    if c.isElse then "else"
    else if isFirst then "if ".toList ++ c.condition.text
    else "elif ".toList ++ c.condition.text
  [' ' :: ' ' :: rule, "    then ".toList ++ c.command]

/-- The lines of a block; `number` counts blocks from 1. -/
def Block.lines (number : Nat) (b : Block) : List Text :=
  let title :=
    "Block ".toList ++ Decimal.digitsOf number ++
      match b.name with
      | some n => ':' :: ' ' :: n
      | none => []
  let clauses :=
    match b.clauses with
    | [] => []
    | c :: r => c.lines true ++ r.flatMap (Clause.lines false)
  Text.emphasised title :: clauses

def numberedLines : Nat → List Block → List Text
  | _, [] => []
  | n, b :: r => b.lines n ++ numberedLines (n + 1) r

/-- The listing of blocks. -/
def listing (l : List Block) : Text :=
  if l.isEmpty then "No trigger blocks found." else Text.unlines (numberedLines 1 l)

end Markbook.Trigger
