import Markbook.Trigger.Block
import Mathlib.Data.List.Basic
import Mathlib.Data.List.Induction
import Mathlib.Tactic.Common

/-!
# Lines of Trigger Blocks

What a line means to the lines behind it: a rule makes a clause, a blank or a name ends a block,
and the last name since the last rule is that of the next block.  What a reader has to know about
the lines so far is said from the end of them, so a line more changes it in one way
(`Line.isBare_concat`, `Line.nameAhead_concat`).  A text is at fault at its first line that is
wrong behind the lines in front of it (`Line.IsFirstFault`).
-/

namespace Markbook.Trigger

/-- What a rule says. -/
structure Rule where
  condition : Condition
  isElse : Bool
deriving DecidableEq, Repr

def Clause.rule (c : Clause) : Rule := ⟨c.condition, c.isElse⟩

/-- The lines of a text by what they say. -/
def rows (s : Text) : List Line := (Text.lines s).map fun l ↦ Line.ofText (Text.trim l)

namespace Line

def isFirst : Line → Bool
  | .first _ => true
  | _ => false

/-- Does the line make a clause? -/
def isRule : Line → Bool
  | .first _ => true
  | .next _ => true
  | .otherwise => true
  | _ => false

/-- Does the line end the block in front of it, whatever is in it? -/
def isBreak : Line → Bool
  | .blank => true
  | .name _ => true
  | _ => false

def name? : Line → Option Text
  | .name n => some n
  | _ => none

def command? : Line → Option Text
  | .command _ c => some c
  | _ => none

/-- What a rule says, or why it says nothing. -/
def rule? : Line → Option (Except Fault Rule)
  | .first e => some ((Condition.read e).map fun c ↦ ⟨c, false⟩)
  | .next e => some ((Condition.read e).map fun c ↦ ⟨c, false⟩)
  | .otherwise => some (.ok ⟨.always, true⟩)
  | _ => none

variable {ls a z : List Line} {l r : Line} {f : Fault}

theorem isSome_rule? (l : Line) : l.rule?.isSome = l.isRule := by
  cases l <;> rfl

theorem isRule_of_rule? {x : Except Fault Rule} (h : l.rule? = some x) : l.isRule = true := by
  rw [← isSome_rule?, h]
  rfl

theorem length_rules (ls : List Line) : (ls.filterMap rule?).length = ls.countP isRule := by
  rw [List.length_filterMap_eq_countP]
  simp only [isSome_rule?]

theorem isRule_of_isBreak (h : l.isBreak = true) : l.isRule = false := by
  cases l with
  | blank => rfl
  | name n => rfl
  | _ => exact absurd h Bool.false_ne_true

/-- A line of a list with one more at the end is that one or a line of the list. -/
theorem concat_eq_append_cons_iff :
    ls ++ [l] = a ++ r :: z ↔
      (ls = a ∧ l = r ∧ z = []) ∨ ∃ z', z = z' ++ [l] ∧ ls = a ++ r :: z' := by
  constructor
  · intro h
    rcases z.eq_nil_or_concat' with rfl | ⟨z', l', rfl⟩
    · rw [List.append_singleton_inj] at h
      exact .inl ⟨h.1, h.2, rfl⟩
    · rw [← List.cons_append, ← List.append_assoc, List.append_singleton_inj] at h
      exact .inr ⟨z', by rw [h.2], h.1⟩
  · rintro (⟨rfl, rfl, rfl⟩ | ⟨z', rfl, rfl⟩)
    · rfl
    · simp

/-! ## The lines so far -/

/-- Is there no rule since the last line that ends a block? -/
def isBare (ls : List Line) : Bool := (ls.reverse.takeWhile (!·.isBreak)).all (!·.isRule)

/-- The last name since the last rule. -/
def nameAhead (ls : List Line) : Option Text :=
  (ls.reverse.takeWhile (!·.isRule)).findSome? name?

theorem isBare_concat (ls : List Line) (l : Line) :
    isBare (ls ++ [l]) = (l.isBreak || (!l.isRule && isBare ls)) := by
  unfold isBare
  rw [List.reverse_concat, List.takeWhile_cons]
  cases l.isBreak <;> rfl

theorem nameAhead_concat (ls : List Line) (l : Line) :
    nameAhead (ls ++ [l]) = if l.isRule then none else l.name?.or (nameAhead ls) := by
  unfold nameAhead
  rw [List.reverse_concat, List.takeWhile_cons]
  cases l.isRule with
  | true => rfl
  | false =>
    rw [Bool.not_false, if_pos rfl, if_neg Bool.false_ne_true, List.findSome?_cons]
    cases l.name? <;> rfl

/-- Behind a rule with no other behind it there is none exactly when a block ended. -/
theorem isBare_append_cons (hr : r.isRule = true) (hz : ∀ l ∈ z, l.isRule = false) :
    isBare (a ++ r :: z) = z.any isBreak := by
  induction z using List.reverseRecOn with
  | nil =>
    rw [isBare_concat, hr]
    cases h : r.isBreak with
    | true => exact absurd hr (by simp [isRule_of_isBreak h])
    | false => rfl
  | append_singleton z l ih =>
    rw [List.forall_mem_append, List.forall_mem_singleton] at hz
    rw [← List.cons_append, ← List.append_assoc, isBare_concat, ih hz.1, hz.2, List.any_append,
      List.any_cons, List.any_nil, Bool.or_false, Bool.or_comm]
    rfl

/-! ## Faults -/

/-- A line is wrong behind some lines: a rule that is none, or a command where the block has no
rule. -/
def IsFault (ls : List Line) (l : Line) (f : Fault) : Prop :=
  l.rule? = some (.error f) ∨
    ∃ line c, l = .command line c ∧ isBare ls = true ∧ f = .strayThen line

/-- No line is wrong behind the lines in front of it. -/
def IsFaultless (ls : List Line) : Prop := ∀ a l z, ls = a ++ l :: z → ∀ f, ¬ IsFault a l f

/-- This is wrong with the first line that is wrong behind the lines in front of it. -/
def IsFirstFault (ls : List Line) (f : Fault) : Prop :=
  ∃ a l z, ls = a ++ l :: z ∧ IsFaultless a ∧ IsFault a l f

theorem isFaultless_nil : IsFaultless [] := by
  intro a l z h
  simp at h

theorem isFaultless_concat :
    IsFaultless (ls ++ [l]) ↔ IsFaultless ls ∧ ∀ f, ¬ IsFault ls l f := by
  constructor
  · intro h
    exact ⟨fun a r z hls ↦ h a r (z ++ [l]) (concat_eq_append_cons_iff.2 (.inr ⟨z, rfl, hls⟩)),
      h ls l [] rfl⟩
  · rintro ⟨hls, hl⟩ a r z h
    rcases concat_eq_append_cons_iff.1 h with ⟨rfl, rfl, -⟩ | ⟨z', -, h'⟩
    · exact hl
    · exact hls a r z' h'

theorem not_isFirstFault_nil : ¬ IsFirstFault [] f := by
  rintro ⟨a, l, z, h, -⟩
  simp at h

theorem isFirstFault_concat :
    IsFirstFault (ls ++ [l]) f ↔ IsFirstFault ls f ∨ (IsFaultless ls ∧ IsFault ls l f) := by
  constructor
  · rintro ⟨a, r, z, h, ha, hr⟩
    rcases concat_eq_append_cons_iff.1 h with ⟨rfl, rfl, -⟩ | ⟨z', -, h'⟩
    · exact .inr ⟨ha, hr⟩
    · exact .inl ⟨a, r, z', h', ha, hr⟩
  · rintro (⟨a, r, z, rfl, ha, hr⟩ | ⟨hls, hl⟩)
    · exact ⟨a, r, z ++ [l], by simp, ha, hr⟩
    · exact ⟨ls, l, [], rfl, hls, hl⟩

end Line

end Markbook.Trigger
