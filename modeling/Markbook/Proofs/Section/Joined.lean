import Markbook.Proofs.Section.Held

/-!
# Sections Without a Last Line Feed

The section of a file that holds one entity is its lines joined, so its last line keeps its end and
is lost if it is empty.  That makes no difference to the fields: they are those of the lines
(`Section.given_unlines`).
-/

namespace Markbook

namespace Dialect

variable {l l' : Text}

/-! ## The last line -/

theorem colonsField?_congr (h : Text.trim l = Text.trim l') : colonsField? l = colonsField? l' := by
  unfold colonsField?
  rw [h]

theorem packedEntries_congr (h : Text.trim l = Text.trim l') :
    packedEntries l = packedEntries l' := by
  unfold packedEntries
  rw [h]

theorem tableEntries_concat_congr (h : Text.trim l = Text.trim l') (state : TableState)
    (ls : List Text) : tableEntries state (ls ++ [l]) = tableEntries state (ls ++ [l']) := by
  induction ls generalizing state with
  | nil => cases state <;> simp only [List.nil_append, tableEntries, h]
  | cons a r ih => cases state <;> simp only [List.cons_append, tableEntries, ih]

theorem blocks_concat_congr (h : Text.trim l = Text.trim l') (inside : Option (List Text))
    (ls : List Text) : blocks inside (ls ++ [l]) = blocks inside (ls ++ [l']) := by
  induction ls generalizing inside with
  | nil =>
    cases inside with
    | none => simp only [List.nil_append, blocks]
    | some i => simp only [List.nil_append, blocks, h]
  | cons a r ih => cases inside <;> simp only [List.cons_append, blocks, ih]

/-- Only the trimmed last line counts. -/
theorem entries_concat_congr (d : Dialect) (h : Text.trim l = Text.trim l') (ls : List Text) :
    d.entries (ls ++ [l]) = d.entries (ls ++ [l']) := by
  cases d with
  | colons =>
    unfold entries
    rw [List.filterMap_append, List.filterMap_append, List.filterMap_cons, List.filterMap_cons,
      colonsField?_congr h]
  | packed =>
    unfold entries
    rw [List.flatMap_append, List.flatMap_append, List.flatMap_singleton, List.flatMap_singleton,
      packedEntries_congr h]
  | table => exact tableEntries_concat_congr h .outside ls
  | fenced =>
    unfold entries
    rw [blocks_concat_congr h]

theorem blocks_concat_of_not_isFence (h : isFence (Text.trim l) = false)
    (inside : Option (List Text)) (ls : List Text) :
    blocks inside (ls ++ [l]) = blocks inside ls := by
  induction ls generalizing inside with
  | nil => cases inside <;> simp [blocks, h]
  | cons a r ih => cases inside <;> simp only [List.cons_append, blocks, ih]

/-- A last line that is empty holds nothing. -/
theorem entries_concat_nil (d : Dialect) (ls : List Text) :
    d.entries (ls ++ [[]]) = d.entries ls := by
  cases d with
  | colons =>
    have hnone : colonsField? [] = none := by decide
    simp [entries, hnone]
  | packed =>
    have hnil : packedEntries [] = [] := by decide
    simp [entries, hnil]
  | table => exact tableEntries_append (by decide) .outside ls
  | fenced =>
    unfold entries
    rw [blocks_concat_of_not_isFence (by decide)]

/-! ## Joined lines -/

/-- A reading of lines that sees the last one trimmed, and no empty last one, cannot tell whether
the lines were joined. -/
theorem eq_of_lines_unlines {β : Type} (f : List Text → β)
    (htrim : ∀ r l l', Text.trim l = Text.trim l' → f (r ++ [l]) = f (r ++ [l']))
    (hnil : ∀ r, f (r ++ [[]]) = f r) {ls : List Text} (h : ∀ l ∈ ls, '\n' ∉ l) :
    f (Text.lines (Text.unlines ls)) = f (ls.map Text.chomp) := by
  rcases List.eq_nil_or_concat ls with rfl | ⟨r, l, rfl⟩
  · rfl
  · rw [List.concat_eq_append] at h ⊢
    have hr : ∀ m ∈ r, '\n' ∉ m := fun m hm ↦ h m (List.mem_append_left _ hm)
    rw [Text.lines_unlines_concat hr (h l (by simp)), List.map_append, List.map_singleton,
      htrim _ _ _ (Text.trim_chomp l)]
    split
    · next hempty => rw [List.append_nil, hempty, hnil]
    · rfl

theorem entries_lines_unlines (d : Dialect) {ls : List Text} (h : ∀ l ∈ ls, '\n' ∉ l) :
    d.entries (Text.lines (Text.unlines ls)) = d.entries (ls.map Text.chomp) :=
  eq_of_lines_unlines d.entries (fun r _ _ htrim ↦ entries_concat_congr d htrim r)
    (entries_concat_nil d) h

theorem told?_lines_unlines {ls : List Text} (h : ∀ l ∈ ls, '\n' ∉ l) :
    told? (Text.lines (Text.unlines ls)) = told? ls := by
  rw [← told?_map Text.trim_chomp ls]
  refine eq_of_lines_unlines told? (fun r l l' htrim ↦ ?_) (fun r ↦ ?_) h
  · rw [told?_append, told?_append, told?_cons, told?_cons, htrim]
  · rw [told?_append]
    exact Option.or_none

end Dialect

namespace Section

open Dialect

/-- The fields of joined lines are those that the lines hold. -/
theorem given_unlines (m : Markers) {ls : List Text} (h : ∀ l ∈ ls, '\n' ∉ l) :
    Entity.given m (Text.unlines ls) = held ls := by
  rw [given_eq, told?_lines_unlines h, entries_lines_unlines _ h]
  rfl

end Section

end Markbook
