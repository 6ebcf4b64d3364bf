import Markbook.Yaml.Token

/-!
# YAML Nodes

The nodes of a document as they are written: scalars, sequences, mappings and aliases, each with its
tag and its anchor.  Anchors are numbered; the number of a name that appears anew is the count of
distinct names so far, and a name used again takes a new number by the same count.
-/

namespace Markbook.Yaml

/-- The tag and the anchor number of a node. -/
structure Props where
  tag : Option Text
  anchor : Option Nat
deriving Inhabited

inductive Node where
  | alias (anchor : Nat)
  | scalar (props : Props) (text : Text) (plain : Bool)
  | seq (props : Props) (items : List Node)
  | map (props : Props) (entries : List (Node × Node))
deriving Inhabited

namespace Node

/-- A missing node. -/
def blank : Node := .scalar ⟨none, none⟩ [] true

end Node

/-- What the reader of nodes carries along. -/
structure Reading where
  tokens : List Token
  /-- Expansion of each tag handle. -/
  handles : List (Text × Text)
  /-- Number of each anchor name. -/
  anchors : List (Text × Nat)

abbrev Reader := StateT Reading Option

namespace Reader

def fail {α : Type} : Reader α := fun _ ↦ none

def peek : Reader (Option Token) := do return (← get).tokens.head?

def advance : Reader Unit := modify fun s ↦ { s with tokens := s.tokens.tail }

/-- Is the next token one of these, or is there none? -/
def atAny (l : List Token) : Reader Bool := do
  match ← peek with
  | some t => return l.contains t
  | none => return true

/-- Numbers an anchor. -/
def bindAnchor (name : Text) : Reader Nat := do
  let s ← get
  let n := s.anchors.length
  set { s with anchors := (name, n) :: s.anchors.filter fun e ↦ e.1 ≠ name }
  return n

def expand (handle rest : Text) : Reader Text := do
  if handle.isEmpty then return rest
  match (← get).handles.find? fun e ↦ e.1 = handle with
  | some e => return e.2 ++ rest
  | none => fail

/-- Reads a tag and an anchor in either order. -/
def properties : Reader (Option Text × Option Text) := do
  let tag? : Reader (Option Text) := do
    match ← peek with
    | some (.tag h r) => advance; return some (← expand h r)
    | _ => return none
  let anchor? : Reader (Option Text) := do
    match ← peek with
    | some (.anchor n) => advance; return some n
    | _ => return none
  match ← anchor? with
  | some n => return (← tag?, some n)
  | none =>
    let t ← tag?
    match t with
    | some t => return (some t, ← anchor?)
    | none => return (none, none)

mutual

/-- Reads a node.  `block` admits block collections, `flush` a sequence that is not indented. -/
def node (block flush : Bool) : Nat → Reader Node
  | 0 => fail
  | fuel + 1 => do
    match ← peek with
    | some (.alias name) =>
      advance
      match (← get).anchors.find? fun e ↦ e.1 = name with
      | some e => return .alias e.2
      | none => fail
    | _ =>
      let (tag, name) ← properties
      let anchor ←
        match name with
        | some name => some <$> bindAnchor name
        | none => pure none
      let props : Props := ⟨tag, anchor⟩
      match ← peek with
      | some .dash =>
        if flush then return .seq props (← flushItems fuel)
        else bare props
      | some (.scalar text plain) =>
        advance
        if tag = some ['!'] then return .scalar ⟨none, anchor⟩ text plain
        else return .scalar props text plain
      | some .openSequence =>
        advance
        return .seq props (← flowItems fuel true)
      | some .openMapping =>
        advance
        return .map props (← flowEntries fuel true)
      | some .sequenceStart =>
        if block then
          advance
          return .seq props (← blockItems fuel)
        else bare props
      | some .mappingStart =>
        if block then
          advance
          return .map props (← blockEntries fuel)
        else bare props
      | _ => bare props

/-- A node of properties alone. -/
def bare (props : Props) : Reader Node :=
  if props.tag.isSome || props.anchor.isSome then return .scalar props [] true else fail

/-- Reads a node unless one of the given tokens follows. -/
def nodeUnless (stops : List Token) (block flush : Bool) : Nat → Reader Node
  | 0 => fail
  | fuel + 1 => do
    if ← atAny stops then return Node.blank else node block flush fuel

/-- Items of an indented sequence, up to its end. -/
def blockItems : Nat → Reader (List Node)
  | 0 => fail
  | fuel + 1 => do
    match ← peek with
    | some .dash =>
      advance
      let item ← nodeUnless [.dash, .blockEnd] true false fuel
      return item :: (← blockItems fuel)
    | some .blockEnd => advance; return []
    | _ => fail

/-- Items of a sequence that is not indented. -/
def flushItems : Nat → Reader (List Node)
  | 0 => fail
  | fuel + 1 => do
    match ← peek with
    | some .dash =>
      advance
      let item ← nodeUnless [.dash, .key, .value, .blockEnd] true false fuel
      return item :: (← flushItems fuel)
    | _ => return []

def blockEntries : Nat → Reader (List (Node × Node))
  | 0 => fail
  | fuel + 1 => do
    match ← peek with
    | some .key =>
      advance
      let key ← nodeUnless [.key, .value, .blockEnd] true true fuel
      let value ←
        if (← peek) = some .value then
          advance
          nodeUnless [.key, .value, .blockEnd] true true fuel
        else pure Node.blank
      return (key, value) :: (← blockEntries fuel)
    | some .blockEnd => advance; return []
    | _ => fail

/-- Items between brackets.  A key among them makes a mapping of one entry. -/
def flowItems : Nat → Bool → Reader (List Node)
  | 0, _ => fail
  | fuel + 1, first => do
    if (← peek) = some .closeSequence then
      advance
      return []
    if !first then
      if (← peek) = some .comma then advance else fail
    match ← peek with
    | some .closeSequence => advance; return []
    | some .key =>
      advance
      let stops : List Token := [.value, .comma, .closeSequence]
      let key ←
        if ← atAny stops then do
          advance
          pure Node.blank
        else node false false fuel
      let value ←
        if (← peek) = some .value then
          advance
          nodeUnless [.comma, .closeSequence] false false fuel
        else pure Node.blank
      return .map ⟨none, none⟩ [(key, value)] :: (← flowItems fuel false)
    | _ =>
      let item ← node false false fuel
      return item :: (← flowItems fuel false)

/-- Entries between braces. -/
def flowEntries : Nat → Bool → Reader (List (Node × Node))
  | 0, _ => fail
  | fuel + 1, first => do
    if (← peek) = some .closeMapping then
      advance
      return []
    if !first then
      if (← peek) = some .comma then advance else fail
    match ← peek with
    | some .closeMapping => advance; return []
    | some .key =>
      advance
      let key ← nodeUnless [.value, .comma, .closeMapping] false false fuel
      let value ←
        if (← peek) = some .value then
          advance
          nodeUnless [.comma, .closeMapping] false false fuel
        else pure Node.blank
      return (key, value) :: (← flowEntries fuel false)
    | _ =>
      let key ← node false false fuel
      return (key, Node.blank) :: (← flowEntries fuel false)

end

/-- Reads the directives in front of a document.  The flag tells whether a version was given. -/
def directives : Nat → Bool → Reader Unit
  | 0, _ => fail
  | fuel + 1, versioned => do
    match ← peek with
    | some (.version major minor) =>
      if versioned || major ≠ 1 || (minor ≠ 1 && minor ≠ 2) then fail
      advance
      directives fuel true
    | some (.tagHandle h e) =>
      advance
      if (← get).handles.any fun d ↦ d.1 = h then fail
      modify fun s ↦ { s with handles := s.handles ++ [(h, e)] }
      directives fuel versioned
    | _ => return ()

/-- The expansions that hold where no directive gives another. -/
def builtInHandles : List (Text × Text) := [("!", "!"), ("!!", "tag:yaml.org,2002:")]

/-- Reads the only document of a text, nothing for an empty text.  What follows a document must be
marks of its end. -/
def document : Reader (Option Node) := do
  let fuel := 8 * ((← get).tokens.length + 4)
  match ← peek with
  | none => return none
  | some t =>
    let explicit :=
      match t with
      | .version _ _ | .tagHandle _ _ | .documentStart => true
      | _ => false
    directives fuel false
    modify fun s ↦ { s with
      handles := s.handles ++ builtInHandles.filter fun b ↦ !s.handles.any fun d ↦ d.1 = b.1 }
    let root ←
      if explicit then do
        if (← peek) = some .documentStart then advance else fail
        match ← peek with
        | none | some (.version _ _) | some (.tagHandle _ _) | some .documentStart
        | some .documentEnd => pure Node.blank
        | _ => node true false fuel
      else node true false fuel
    modify fun s ↦ { s with tokens := s.tokens.dropWhile (· = .documentEnd) }
    if (← peek).isSome then fail
    return some root

end Reader

end Markbook.Yaml
