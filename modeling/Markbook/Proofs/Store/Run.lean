import Markbook.Proofs.Store.Note
import Markbook.Store.Files

/-!
# Runs

A run of a store loads texts and sets values, in any order (`Store.run`).  Setting a value fills one
slot of one record (`Record.held_assign_of_isOwn`), and no change takes an entity away.
-/

namespace Markbook

/-- One step of a run. -/
inductive Change where
  /-- A text is loaded. -/
  | load (d : Note)
  /-- A value of an entity is set when the clock reads `now`. -/
  | set (name key value : Text) (now : Int)

/-! ## Setting a value -/

namespace Record

open Store

variable (t : StatusTable) (key value : Text) (now : Int) (r : Record)

theorem value?_assign (x : Slot) :
    (assign t key value now r).value? x =
      if Slot.ofKey key = x then some (x.kept t value) else r.value? x := by
  unfold assign Slot.ofKey
  split
  · cases x <;> rfl
  · cases x with
    | status => rfl
    | field k =>
      change (r.fields.insert key value).get? k = _
      rw [TextMap.get?_insert]
      simp only [Slot.field.injEq, eq_comm]
      rfl

/-- The source of a value that is set keeps its file; a new one belongs to the primary file. -/
def assigned : Source :=
  ⟨((r.sources.get? (Slot.ofKey key).key).map (·.path)).getD r.primary, now⟩

theorem sources_assign :
    (assign t key value now r).sources =
      r.sources.insert (Slot.ofKey key).key (r.assigned key now) := by
  have hstamp (k : Text) (r : Record) : (stamp k now r).sources =
      r.sources.insert k ⟨((r.sources.get? k).map (·.path)).getD r.primary, now⟩ := by
    unfold stamp
    cases r.sources.get? k <;> rfl
  unfold assign assigned Slot.ofKey
  split
  · exact hstamp statusSource { r with status := some (t.canonical value) }
  · exact hstamp key { r with fields := r.fields.insert key value }

/-- What a record holds after a value was set, slot by slot.  A slot that shares the key of its
source gets the new source, too. -/
theorem held_assign (x : Slot) :
    (assign t key value now r).held x =
      ⟨if Slot.ofKey key = x then some (x.kept t value) else r.value? x,
        if x.key = (Slot.ofKey key).key then some (r.assigned key now)
        else r.sources.get? x.key⟩ := by
  unfold held
  rw [value?_assign, sources_assign, TextMap.get?_insert]

/-- Setting a value fills one slot as of now, and leaves the other ones alone. -/
theorem held_assign_of_isOwn {x : Slot} (hx : x.IsOwn) :
    (assign t key value now r).held x =
      if Slot.ofKey key = x then ⟨some (x.kept t value), some (r.assigned key now)⟩
      else r.held x := by
  rw [held_assign]
  by_cases h : Slot.ofKey key = x
  · rw [if_pos h, if_pos h, if_pos (congrArg Slot.key h.symm)]
  · have hkey : x.key ≠ (Slot.ofKey key).key :=
      fun heq ↦ h (Slot.eq_of_key_eq hx (Slot.isOwn_ofKey key) heq).symm
    rw [if_neg h, if_neg h, if_neg hkey]
    rfl

end Record

/-! ## Runs -/

namespace Store

/-- Applies a change.  No value of an entity that is not there is set. -/
def change (s : Store) : Change → Store
  | .load d => s.loadNote d
  | .set name key value now => (s.setField name key value now).toOption.getD s

def run (s : Store) (l : List Change) : Store := l.foldl change s

variable {s : Store} {n : Text}

theorem run_append (s : Store) (a b : List Change) : s.run (a ++ b) = (s.run a).run b :=
  List.foldl_append

theorem modify_of_get? (h : s.get? n = none) (f : Record → Record) : s.modify n f = s := by
  have hsame : (s.entities.map fun n' r ↦ if n' = n then f r else r) = s.entities := by
    apply TextMap.ext_get?
    intro k
    rw [TextMap.get?_map]
    by_cases hk : k = n
    · have hnone : s.entities.get? n = none := h
      rw [hk, hnone, Option.map_none]
    · simp [hk]
  unfold modify
  rw [hsame]

/-- Setting a value changes the record of the entity, if there is one. -/
theorem change_set (s : Store) (name key value : Text) (now : Int) :
    s.change (.set name key value now) = s.modify name (assign s.table key value now) := by
  have hset : s.change (.set name key value now) =
      ((s.set? name key value now).getD s) := by
    unfold change setField
    simp only
    cases s.set? name key value now <;> rfl
  rw [hset]
  unfold set?
  cases h : s.get? name with
  | none =>
    rw [modify_of_get? h]
    rfl
  | some r => rfl

theorem table_change (s : Store) (c : Change) : (s.change c).table = s.table := by
  cases c with
  | load d => exact table_loadNote s d
  | set name key value now =>
    rw [change_set]
    rfl

theorem table_run (s : Store) (l : List Change) : (s.run l).table = s.table := by
  induction l generalizing s with
  | nil => rfl
  | cons c l ih =>
    calc ((s.change c).run l).table
        = (s.change c).table := ih (s.change c)
      _ = s.table := table_change s c

instance isIndexed_change [s.IsIndexed] (c : Change) : (s.change c).IsIndexed := by
  cases c with
  | load d => exact isIndexed_loadNote d
  | set name key value now =>
    rw [change_set]
    exact isIndexed_modify (Record.name_assign s.table key value now) name

instance isIndexed_run [s.IsIndexed] (l : List Change) : (s.run l).IsIndexed := by
  induction l generalizing s with
  | nil => assumption
  | cons c l ih => exact ih

/-- No change takes an entity away. -/
theorem mem_names_change [s.IsIndexed] (h : n ∈ s.names) (c : Change) : n ∈ (s.change c).names := by
  cases c with
  | load d => exact mem_names_loadNote.2 (.inl h)
  | set name key value now =>
    rw [change_set, names_modify (Record.name_assign s.table key value now)]
    exact h

theorem mem_names_run [s.IsIndexed] (h : n ∈ s.names) (l : List Change) : n ∈ (s.run l).names := by
  induction l generalizing s with
  | nil => exact h
  | cons c l ih => exact ih (mem_names_change h c)

end Store

end Markbook
