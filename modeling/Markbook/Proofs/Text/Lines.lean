import Markbook.Proofs.Text.Cut
import Markbook.Proofs.Text.Trim

/-!
# Lines

Writing lines and reading them again gives the lines without the carriage return at their ends
(`lines_terminated`).  The readers of this library look at trimmed lines, so what they see is stable
under any number of such passes.
-/

namespace Markbook.Text

/-- A character that ends no line belongs to the first line of the text. -/
theorem lines_cons {c : Char} {s l : Text} {r : List Text} (hc : c ≠ '\n')
    (hcr : c = '\r' → s.head? ≠ some '\n') (h : lines s = l :: r) :
    lines (c :: s) = (c :: l) :: r := by
  rw [lines.eq_4]
  · rw [h]
  · rintro s' rfl rfl
    exact hcr rfl rfl
  · exact hc

theorem lines_append {l : Text} (h : '\n' ∉ l) (s : Text) :
    lines (l ++ '\n' :: s) = chomp l :: lines s := by
  induction l with
  | nil => simp [lines, chomp_nil]
  | cons c r ih =>
    rw [List.mem_cons, not_or] at h
    by_cases hr : c = '\r' ∧ r = []
    · obtain ⟨rfl, rfl⟩ := hr
      simp [lines, chomp]
    · have hhead : c = '\r' → (r ++ '\n' :: s).head? ≠ some '\n' := by
        rintro rfl hhead
        cases r with
        | nil => exact hr ⟨rfl, rfl⟩
        | cons d r =>
          simp only [List.cons_append, List.head?_cons, Option.some.injEq] at hhead
          exact h.2 (hhead ▸ List.mem_cons_self)
      rw [List.cons_append, lines_cons (Ne.symm h.1) hhead (ih h.2)]
      cases r with
      | nil =>
        have hc : c ≠ '\r' := fun hc ↦ hr ⟨hc, rfl⟩
        simp [chomp, hc]
      | cons d r => rw [chomp_cons (List.cons_ne_nil d r)]

theorem lines_of_not_mem {l : Text} (h : '\n' ∉ l) (hne : l ≠ []) : lines l = [l] := by
  induction l with
  | nil => exact absurd rfl hne
  | cons c r ih =>
    rw [List.mem_cons, not_or] at h
    cases r with
    | nil =>
      rw [lines.eq_4 c [] (by simp) (Ne.symm h.1)]
      rfl
    | cons d r =>
      refine lines_cons (Ne.symm h.1) ?_ (ih h.2 (List.cons_ne_nil d r))
      rintro - hhead
      simp only [List.head?_cons, Option.some.injEq] at hhead
      exact h.2 (hhead ▸ List.mem_cons_self)

/-- Lines that are written with a line feed after each are read back without a carriage return at
their ends. -/
theorem lines_terminated {ls : List Text} (h : ∀ l ∈ ls, '\n' ∉ l) :
    lines (ls.flatMap (· ++ ['\n'])) = ls.map chomp := by
  induction ls with
  | nil => rfl
  | cons l r ih =>
    rw [List.forall_mem_cons] at h
    have hcat : (l :: r).flatMap (· ++ ['\n']) = l ++ '\n' :: r.flatMap (· ++ ['\n']) := by
      simp
    rw [hcat, lines_append h.1, ih h.2, List.map_cons]

theorem newline_not_mem_of_mem_lines {s l : Text} (h : l ∈ lines s) : '\n' ∉ l := by
  fun_induction lines s generalizing l with
  | case1 => simp at h
  | case2 r ih =>
    rcases List.mem_cons.1 h with rfl | h
    · simp
    · exact ih h
  | case3 r ih =>
    rcases List.mem_cons.1 h with rfl | h
    · simp
    · exact ih h
  | case4 c r _ hc hnil ih =>
    simp only [List.mem_singleton] at h
    subst h
    simpa using Ne.symm hc
  | case5 c r _ hc t ts hcons ih =>
    rcases List.mem_cons.1 h with rfl | h
    · have := ih (l := t) (by simp [hcons])
      simp [this, Ne.symm hc]
    · exact ih (by simp [hcons, h])

theorem mem_of_mem_lines {s l : Text} {c : Char} (h : l ∈ lines s) (hc : c ∈ l) : c ∈ s := by
  fun_induction lines s generalizing l with
  | case1 => simp at h
  | case2 r ih =>
    rcases List.mem_cons.1 h with rfl | h
    · simp at hc
    · exact List.mem_cons_of_mem _ (List.mem_cons_of_mem _ (ih h hc))
  | case3 r ih =>
    rcases List.mem_cons.1 h with rfl | h
    · simp at hc
    · exact List.mem_cons_of_mem _ (ih h hc)
  | case4 d r _ hd hnil ih =>
    rw [List.mem_singleton] at h
    subst h
    exact List.mem_cons.2 (.inl (List.mem_singleton.1 hc))
  | case5 d r _ hd t ts hcons ih =>
    rcases List.mem_cons.1 h with rfl | h
    · rcases List.mem_cons.1 hc with rfl | hc
      · exact List.mem_cons_self
      · exact List.mem_cons_of_mem _ (ih (l := t) (by simp [hcons]) hc)
    · exact List.mem_cons_of_mem _ (ih (by simp [hcons, h]) hc)

theorem lines_eq_nil_iff {s : Text} : lines s = [] ↔ s = [] := by
  fun_cases lines s <;> simp

/-! ## Joining lines -/

theorem unlines_cons {l : Text} {r : List Text} (h : r ≠ []) :
    unlines (l :: r) = l ++ '\n' :: unlines r := by
  unfold unlines
  rw [join_cons h]
  simp

theorem unlines_terminated {ls : List Text} (h : ls ≠ []) :
    unlines ls ++ ['\n'] = ls.flatMap (· ++ ['\n']) := by
  induction ls with
  | nil => exact absurd rfl h
  | cons l r ih =>
    by_cases hr : r = []
    · subst hr
      simp [unlines, join]
    · rw [unlines_cons hr, List.flatMap_cons, ← ih hr]
      simp

/-- A text of lines has a line feed for each of them. -/
theorem count_terminated {ls : List Text} (h : ∀ l ∈ ls, '\n' ∉ l) :
    (ls.flatMap (· ++ ['\n'])).count '\n' = ls.length := by
  induction ls with
  | nil => rfl
  | cons l r ih =>
    rw [List.forall_mem_cons] at h
    rw [List.flatMap_cons, List.count_append, List.count_append, List.count_eq_zero_of_not_mem h.1,
      ih h.2, List.count_singleton_self, List.length_cons]
    omega

/-- Without a line feed after the last line, that line keeps its end; it is lost if it is empty. -/
theorem lines_unlines_concat {ls : List Text} {l : Text} (h : ∀ l ∈ ls, '\n' ∉ l) (hl : '\n' ∉ l) :
    lines (unlines (ls ++ [l])) = ls.map chomp ++ if l = [] then [] else [l] := by
  have hlast : lines l = if l = [] then [] else [l] := by
    split
    · next hnil => rw [hnil]; rfl
    · next hne => exact lines_of_not_mem hl hne
  induction ls with
  | nil => simpa [unlines, join] using hlast
  | cons m r ih =>
    rw [List.forall_mem_cons] at h
    rw [List.cons_append, unlines_cons (by simp), lines_append h.1, ih h.2]
    simp

/-! ## Stable lines -/

/-- A text that is still the same line when it has been written and read again. -/
def IsLine (l : Text) : Prop := '\n' ∉ l ∧ chomp l = l

theorem isLine_of_isTrimmed {l : Text} (h : l.IsTrimmed) (hline : '\n' ∉ l) : l.IsLine :=
  ⟨hline, chomp_of_isTrimmed h⟩

theorem map_chomp_of_isLine {ls : List Text} (h : ∀ l ∈ ls, l.IsLine) : ls.map chomp = ls := by
  conv_rhs => rw [← List.map_id ls]
  exact List.map_congr_left fun l hl ↦ (h l hl).2

end Markbook.Text
