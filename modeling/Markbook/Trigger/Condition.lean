import Markbook.Json.Basic
import Markbook.Text.Blank

/-!
# Trigger Conditions

A condition asks something about an agent, or for the time since the last beat.  Conditions are
joined by the word `and`, which is recognised outside of parentheses and quotes only and associates
to the right.

`Condition.read` reads an expression, `Condition.text` writes one.
-/

namespace Markbook.Trigger

/-- Why a text is not a list of triggers.  Every cause carries the text at fault. -/
inductive Fault where
  | unknown (expression : Text)
  | unclosed (call : Text)
  | noComma (arguments : Text)
  | unquoted (argument : Text)
  | notInteger (role value : Text)
  | noOperator (call agent expected found : Text)
  | noState (agent : Text)
  | strayThen (line : Text)
deriving DecidableEq, Repr

namespace Fault

def message : Fault → Text
  | .unknown e => "Unknown condition: '".toList ++ e ++ ['\'']
  | .unclosed f => "Missing ')' in ".toList ++ f ++ " call".toList
  | .noComma a => "Expected comma separating arguments in '".toList ++ a ++ ['\'']
  | .unquoted a => "Expected quoted string, got '".toList ++ a ++ ['\'']
  | .notInteger role v => "Invalid ".toList ++ role ++ ": '".toList ++ v ++ ['\'']
  | .noOperator f a e s =>
    "Expected ".toList ++ e ++ " after ".toList ++ f ++ '(' :: a ++ "), got '".toList ++ s ++ ['\'']
  | .noState a => "Missing state after status(".toList ++ a ++ ") ==".toList
  | .strayThen l => "'then' without preceding condition: '".toList ++ l ++ ['\'']

end Fault

/-- How a context condition compares. -/
inductive Comparison where
  | greater
  | less
  | atLeast
  | atMost
  | equal
deriving DecidableEq, Repr

namespace Comparison

def sign : Comparison → Text
  | .greater => ">"
  | .less => "<"
  | .atLeast => ">="
  | .atMost => "<="
  | .equal => "=="

/-- The longer signs first, so that none is taken for its beginning. -/
def all : List Comparison := [.atLeast, .atMost, .greater, .less, .equal]

/-- Reads the sign a text starts with. -/
def cut? (s : Text) : Option (Comparison × Text) :=
  all.findSome? fun c ↦ (Text.after? c.sign s).map fun r ↦ (c, r)

end Comparison

inductive Condition where
  /-- The output of the agent contains the pattern. -/
  | contains (agent pattern : Text)
  | status (agent state : Text)
  /-- The agent has been idle for this long. -/
  | idle (agent : Text) (seconds : Nat)
  /-- The context of the agent is used up to a percentage. -/
  | context (agent : Text) (comparison : Comparison) (percent : Nat)
  | heartbeat (seconds : Nat)
  | both (left right : Condition)
  /-- The condition of an `else`. -/
  | always
deriving DecidableEq, Repr

namespace Condition

def kind : Condition → Text
  | .contains _ _ => "contains"
  | .status _ _ => "status"
  | .idle _ _ => "idle"
  | .context _ _ _ => "context"
  | .heartbeat _ => "heartbeat"
  | .both _ _ => "and"
  | .always => "always"

/-- The expression for a condition. -/
def text : Condition → Text
  | .contains a p => "contains(".toList ++ a ++ ", \"".toList ++ p ++ "\")".toList
  | .status a s => "status(".toList ++ a ++ ") == ".toList ++ s
  | .idle a n => "idle(".toList ++ a ++ ", ".toList ++ Decimal.digitsOf n ++ [')']
  | .context a c n =>
    "context(".toList ++ a ++ ") ".toList ++ c.sign ++ ' ' :: Decimal.digitsOf n ++ ['%']
  | .heartbeat n => "heartbeat ".toList ++ Decimal.digitsOf n
  | .both l r => l.text ++ " and ".toList ++ r.text
  | .always => "always"

def json (c : Condition) : Json :=
  let rest : List (Text × Json) :=
    match c with
    | .contains a p => [("agent", .str a), ("pattern", .str p)]
    | .status a s => [("agent", .str a), ("state", .str s)]
    | .idle a n => [("agent", .str a), ("seconds", .ofNat n)]
    | .context a c n => [("agent", .str a), ("op", .str c.sign), ("percent", .ofNat n)]
    | .heartbeat n => [("seconds", .ofNat n)]
    | .both l r => [("left", l.json), ("right", r.json)]
    | .always => []
  .obj (("kind".toList, .str c.kind) :: rest)

/-! ## Conjuncts -/

/-- The word between two conjuncts. -/
def conjunction : Text := [' ', 'a', 'n', 'd', ' ']

/-- Cuts an expression at its first conjunction.  `depth` counts the open parentheses, `quoted` says
whether a quote is open. -/
def cutAnd? (depth : Nat) (quoted : Bool) : Text → Option (Text × Text)
  | [] => none
  | c :: r =>
    if !quoted && depth = 0 && conjunction.isPrefixOf (c :: r) then
      some ([], (c :: r).drop conjunction.length)
    else
      let quoted' := if c = '"' then !quoted else quoted
      let depth' :=
        if quoted then depth
        else if c = '(' then depth + 1
        else if c = ')' then depth - 1
        else depth
      (cutAnd? depth' quoted' r).map fun p ↦ (c :: p.1, p.2)

theorem length_of_cutAnd? {depth : Nat} {quoted : Bool} {s l r : Text}
    (h : cutAnd? depth quoted s = some (l, r)) : r.length < s.length := by
  induction s generalizing depth quoted l r with
  | nil => simp [cutAnd?] at h
  | cons c t ih =>
    rw [cutAnd?] at h
    split at h
    · obtain ⟨-, rfl⟩ : [] = l ∧ _ = r := by simpa using h
      have : conjunction.length = 5 := rfl
      simp only [List.length_drop, List.length_cons]
      omega
    · obtain ⟨p, hp, he⟩ := Option.map_eq_some_iff.1 h
      obtain ⟨-, rfl⟩ := Prod.mk.inj he
      have := ih hp
      simp
      omega

theorem length_trim_le (s : Text) : (Text.trim s).length ≤ s.length := by
  have := (List.dropWhile_sublist Text.isBlank (l := s)).length_le
  have := (List.dropWhile_sublist Text.isBlank (l := (Text.trimStart s).reverse)).length_le
  simp only [Text.trim, Text.trimEnd, Text.trimStart, List.length_reverse] at *
  omega

/-- The conjuncts of an expression, trimmed. -/
def conjuncts (s : Text) : List Text :=
  match _h : cutAnd? 0 false (Text.trim s) with
  | some p => Text.trim p.1 :: conjuncts p.2
  | none => [Text.trim s]
termination_by s.length
decreasing_by
  have := length_of_cutAnd? _h
  have := length_trim_le s
  omega

/-! ## Reading one conjunct -/

/-- Reads an unsigned integer below a bound. -/
def integer (bound : Nat) (role s : Text) : Except Fault Nat :=
  match Decimal.bounded? bound (Text.trim s) with
  | some n => .ok n
  | none => .error (.notInteger role (Text.trim s))

/-- The text between the opening parenthesis of a call and the last closing one. -/
def argumentList (call inner : Text) : Except Fault Text :=
  match Text.cutLast? ')' inner with
  | some (l, _) => .ok l
  | none => .error (.unclosed call)

/-- Takes two arguments apart at the first comma. -/
def twoArguments (s : Text) : Except Fault (Text × Text) :=
  match Text.cut? [','] s with
  | some (a, b) => .ok (Text.trim a, Text.trim b)
  | none => .error (.noComma s)

/-- The only argument of a call, and what stands behind the first closing parenthesis. -/
def oneArgument (call inner : Text) : Except Fault (Text × Text) :=
  match Text.cut? [')'] inner with
  | some (a, rest) => .ok (Text.trim a, Text.trim rest)
  | none => .error (.unclosed call)

/-- The text between the quotes at both ends. -/
def unquoted (s : Text) : Except Fault Text :=
  match (Text.after? ['"'] (Text.trim s)).bind (Text.before? ['"']) with
  | some t => .ok t
  | none => .error (.unquoted s)

def readContains (inner : Text) : Except Fault Condition := do
  let (agent, rest) ← twoArguments (← argumentList "contains" inner)
  return .contains agent (← unquoted rest)

def readStatus (inner : Text) : Except Fault Condition := do
  let (agent, rest) ← oneArgument "status" inner
  match Text.after? ['=', '='] rest with
  | none => .error (.noOperator "status" agent "'=='" rest)
  | some state =>
    let state := Text.trim state
    if state.isEmpty then .error (.noState agent) else .ok (.status agent state)

def readIdle (inner : Text) : Except Fault Condition := do
  let (agent, rest) ← twoArguments (← argumentList "idle" inner)
  return .idle agent (← integer UInt64.size "seconds in idle" rest)

def readContext (inner : Text) : Except Fault Condition := do
  let (agent, rest) ← oneArgument "context" inner
  match Comparison.cut? rest with
  | none => .error (.noOperator "context" agent "comparison operator" rest)
  | some (comparison, digits) =>
    let digits := ((Text.trim digits).reverse.dropWhile (· = '%')).reverse
    return .context agent comparison (← integer UInt32.size "percent in context" digits)

def readHeartbeat (digits : Text) : Except Fault Condition := do
  return .heartbeat (← integer UInt64.size "seconds in heartbeat" digits)

/-- The beginnings of the conditions, each with the reader of what follows. -/
def forms : List (Text × (Text → Except Fault Condition)) :=
  [("contains(", readContains), ("status(", readStatus), ("idle(", readIdle),
   ("context(", readContext), ("heartbeat ", readHeartbeat)]

/-- Reads a conjunct. -/
def readOne (s : Text) : Except Fault Condition :=
  match forms.findSome? fun f ↦ (Text.after? f.1 s).map f.2 with
  | some result => result
  | none => .error (.unknown s)

/-- Joins conditions from the right. -/
def conjunctionOf : List Condition → Condition
  | [] => .always
  | [c] => c
  | c :: r => .both c (conjunctionOf r)

/-- Reads an expression.  The first conjunct at fault decides the error. -/
def read (s : Text) : Except Fault Condition := do
  return conjunctionOf (← (conjuncts s).mapM readOne)

end Condition

end Markbook.Trigger
