import Markbook.Proofs.Section.Renewed

/-!
# Sections That Are Filled Again

A line dialect claims every line of a block that is written in it.  So the block of some fields is
put in its own place when it is written once more (`Section.refilled_refilled`).
-/

namespace Markbook

namespace Dialect

variable {d : Dialect} {fields : Fields} {ls : List Text}

/-- Does the line hold no field in a line dialect? -/
def passes (d : Dialect) (line : Text) : Bool := !d.claims (Text.trim line)

/-- In a line dialect each line counts on its own. -/
theorem ahead_eq (hd : d ≠ .fenced) (ls : List Text) : ahead d ls = ls.takeWhile d.passes := by
  unfold ahead
  rw [mask_eq_map hd, zip_map_self, List.takeWhile_map, List.map_map]
  exact List.map_id _

theorem behind_eq (hd : d ≠ .fenced) (ls : List Text) :
    behind d ls = (ls.dropWhile d.passes).filter d.passes := by
  unfold behind
  rw [mask_eq_map hd, zip_map_self, List.dropWhile_map, List.filter_map, List.map_map]
  exact List.map_id _

/-- A line dialect claims what is written in it, whatever marks the fields hold. -/
theorem claims_of_mem_writtenLines (hd : d ≠ .fenced) (h : ∀ e ∈ fields.entries, IsField e)
    (hne : fields.entries ≠ []) (hkeys : d = .colons → ∀ e ∈ fields.entries, e.1.head? ≠ some '#') :
    ∀ l ∈ d.writtenLines fields, d.claims (Text.trim l) = true := by
  refine forall_mem_writtenLines hd ?_ ?_ ?_
  · rintro rfl e he
    have htrim : Text.trim (colonsLine e) = colonsLine e := isTrimmed_colonsLine (h e he)
    rw [htrim]
    unfold claims
    simp only [Bool.or_eq_true]
    by_cases hvalue : e.2 = []
    · have hhead : (e.1 ++ [':', ':']).head? ≠ some '#' := by
        rw [(h e he).head?_append]
        exact hkeys rfl e he
      refine .inr ?_
      rw [colonsLine_of_eq_nil hvalue, bareKey?_eq_some_iff.2 ⟨hhead, rfl⟩]
      rfl
    · refine .inl ?_
      rw [colonsLine_of_ne_nil hvalue, Text.has_iff]
      exact ⟨e.1, e.2, rfl⟩
  · rintro rfl
    have htrim : Text.trim (packedLine fields.entries) = packedLine fields.entries :=
      isTrimmed_packedLine h hne
    rw [htrim]
    unfold claims
    rw [List.isPrefixOf_iff_prefix]
    exact List.prefix_append _ _
  · rintro rfl
    refine ⟨by decide, by decide, fun e _ ↦ ?_⟩
    have htrim : Text.trim (tableLine e) = tableLine e := isTrimmed_tableLine e
    rw [htrim]
    exact isRow_tableLine e

end Dialect

namespace Section

open Dialect

variable {d : Dialect} {fields : Fields} {ls : List Text}

/-- A block takes its own place. -/
theorem refilled_refilled (hd : d ≠ .fenced)
    (hblock : ∀ l ∈ blockLines d fields, d.claims (Text.trim l) = true) (ls : List Text) :
    refilled d fields (refilled d fields ls) = refilled d fields ls := by
  have hahead : ∀ l ∈ ahead d ls, d.passes l = true := fun l hl ↦ by
    simp [passes, claims_ahead hd hl]
  have hbehind : ∀ l ∈ behind d ls, d.passes l = true := fun l hl ↦ by
    simp [passes, claims_behind hd hl]
  have hfilled (ls : List Text) :
      refilled d fields ls = ahead d ls ++ (blockLines d fields ++ behind d ls) :=
    List.append_assoc _ _ _
  rw [hfilled (refilled d fields ls), hfilled ls]
  cases hlines : blockLines d fields with
  | nil =>
    have hall : ∀ l ∈ ahead d ls ++ behind d ls, d.passes l = true := by
      intro l hl
      exact (List.mem_append.1 hl).elim (hahead l) (hbehind l)
    have htake : ahead d (ahead d ls ++ behind d ls) = ahead d ls ++ behind d ls := by
      rw [ahead_eq hd]
      exact List.takeWhile_eq_self_iff.2 hall
    have hdrop : behind d (ahead d ls ++ behind d ls) = [] := by
      rw [behind_eq hd, List.dropWhile_eq_nil_iff.2 hall, List.filter_nil]
    rw [List.nil_append, htake, hdrop, List.append_nil, List.append_nil]
  | cons b bs =>
    rw [hlines] at hblock
    have hfirst : ¬ d.passes b = true := by simp [passes, hblock b List.mem_cons_self]
    have hnone : (b :: bs).filter d.passes = [] := by
      rw [List.filter_eq_nil_iff]
      intro l hl
      simp [passes, hblock l hl]
    have htake : ahead d (ahead d ls ++ (b :: bs ++ behind d ls)) = ahead d ls := by
      rw [ahead_eq hd (_ ++ _), List.takeWhile_append_of_pos hahead, List.cons_append,
        List.takeWhile_cons_of_neg hfirst, List.append_nil]
    have hdrop : behind d (ahead d ls ++ (b :: bs ++ behind d ls)) = behind d ls := by
      rw [behind_eq hd (_ ++ _), List.dropWhile_append_of_pos hahead, List.cons_append,
        List.dropWhile_cons_of_neg hfirst, ← List.cons_append, List.filter_append, hnone,
        List.nil_append, List.filter_eq_self.2 hbehind]
    rw [htake, hdrop]

end Section

end Markbook
