import Markbook.Text.Basic
import Mathlib.Data.List.DropRight
import Mathlib.Tactic.Common

/-!
# Cutting Texts

What the cutting vocabulary of texts computes: the first occurrence of a mark, the pieces between
separators, a known beginning or ending.  A cut is described by the two parts and by the absence of
an earlier occurrence, so that a written text can be cut again without looking at the definition.
-/

namespace Markbook.Text

/-! ## Beginnings and endings -/

theorem after?_eq_some_iff {lead s rest : Text} :
    after? lead s = some rest ↔ s = lead ++ rest := by
  unfold after?
  constructor
  · intro h
    split at h
    · next hp =>
      obtain ⟨t, rfl⟩ := List.isPrefixOf_iff_prefix.1 hp
      simp at h
      rw [h]
    · simp at h
  · rintro rfl
    rw [if_pos (List.isPrefixOf_iff_prefix.2 ⟨rest, rfl⟩), List.drop_left]

theorem before?_eq_some_iff {tail s start : Text} :
    before? tail s = some start ↔ s = start ++ tail := by
  unfold before?
  constructor
  · intro h
    split at h
    · next hp =>
      obtain ⟨t, rfl⟩ := List.isSuffixOf_iff_suffix.1 hp
      simp at h
      rw [h]
    · simp at h
  · rintro rfl
    rw [if_pos (List.isSuffixOf_iff_suffix.2 ⟨start, rfl⟩)]
    simp

/-! ## First occurrence -/

theorem cut?_cons_pos {mark r : Text} {c : Char} (h : mark <+: c :: r) :
    cut? mark (c :: r) = some ([], (c :: r).drop mark.length) := by
  rw [cut?, if_pos (List.isPrefixOf_iff_prefix.2 h)]

theorem cut?_cons_neg {mark r : Text} {c : Char} (h : ¬ mark <+: c :: r) :
    cut? mark (c :: r) = (cut? mark r).map fun p ↦ (c :: p.1, p.2) := by
  rw [cut?, if_neg fun hp ↦ h (List.isPrefixOf_iff_prefix.1 hp)]

/-- No mark begins in front of the one that a text is cut at. -/
theorem first_of_cut? {mark s a b : Text} (h : cut? mark s = some (a, b)) :
    s = a ++ mark ++ b ∧ ∀ k < a.length, ¬ mark <+: s.drop k := by
  induction s generalizing a with
  | nil =>
    rw [cut?] at h
    split at h
    · next hm =>
      rw [List.isEmpty_iff] at hm
      rw [Option.some.injEq, Prod.mk.injEq] at h
      obtain ⟨rfl, rfl⟩ := h
      simp [hm]
    · simp at h
  | cons c r ih =>
    by_cases hp : mark <+: c :: r
    · rw [cut?_cons_pos hp, Option.some.injEq, Prod.mk.injEq] at h
      obtain ⟨rfl, rfl⟩ := h
      refine ⟨?_, by simp⟩
      rw [List.nil_append]
      exact (List.prefix_iff_eq_append.1 hp).symm
    · rw [cut?_cons_neg hp, Option.map_eq_some_iff] at h
      obtain ⟨⟨a', b'⟩, h', heq⟩ := h
      obtain ⟨rfl, rfl⟩ := Prod.mk.inj heq
      obtain ⟨hr, hfirst⟩ := ih h'
      refine ⟨by simp [hr], fun k hk ↦ ?_⟩
      cases k with
      | zero => exact hp
      | succ k => exact hfirst k (by simpa using hk)

theorem cut?_of_first {mark a b : Text} (h : ∀ k < a.length, ¬ mark <+: (a ++ mark ++ b).drop k) :
    cut? mark (a ++ mark ++ b) = some (a, b) := by
  induction a with
  | nil =>
    rw [List.nil_append]
    cases hs : mark ++ b with
    | nil =>
      obtain ⟨rfl, rfl⟩ := List.append_eq_nil_iff.1 hs
      rfl
    | cons c r =>
      have hp : mark <+: c :: r := ⟨b, hs⟩
      rw [cut?_cons_pos hp, ← hs, List.drop_left]
  | cons x a ih =>
    have hp : ¬ mark <+: x :: (a ++ mark ++ b) := h 0 (by simp)
    have hrest : cut? mark (a ++ mark ++ b) = some (a, b) :=
      ih fun k hk ↦ h (k + 1) (by simpa using hk)
    rw [List.cons_append, List.cons_append, cut?_cons_neg hp, hrest]
    rfl

theorem cut?_eq_some_iff {mark s a b : Text} :
    cut? mark s = some (a, b) ↔
      s = a ++ mark ++ b ∧ ∀ k < a.length, ¬ mark <+: s.drop k := by
  constructor
  · exact first_of_cut?
  · rintro ⟨rfl, hfirst⟩
    exact cut?_of_first hfirst

theorem cut?_eq_none_iff {mark s : Text} : cut? mark s = none ↔ ¬ mark <:+: s := by
  induction s with
  | nil => simp [cut?]
  | cons c r ih =>
    rw [List.infix_cons_iff]
    by_cases hp : mark <+: c :: r
    · simp [cut?_cons_pos hp, hp]
    · simp [cut?_cons_neg hp, hp, ih]

theorem has_iff {mark s : Text} : has mark s = true ↔ mark <:+: s := by
  unfold has
  rw [Option.isSome_iff_ne_none, ne_eq, cut?_eq_none_iff, not_not]

theorem eq_of_cut? {mark s a b : Text} (h : cut? mark s = some (a, b)) : s = a ++ mark ++ b :=
  (cut?_eq_some_iff.1 h).1

/-- The part in front of the first occurrence has none. -/
theorem not_infix_of_cut? {mark s a b : Text} (hne : mark ≠ [])
    (h : cut? mark s = some (a, b)) : ¬ mark <:+: a := by
  obtain ⟨rfl, hfirst⟩ := cut?_eq_some_iff.1 h
  rintro ⟨x, y, rfl⟩
  refine hfirst x.length ?_ ?_
  · have := List.length_pos_iff.2 hne
    simp only [List.length_append]
    omega
  · rw [show x ++ mark ++ y ++ mark ++ b = x ++ (mark ++ (y ++ mark ++ b)) by simp, List.drop_left]
    exact ⟨_, rfl⟩

/-- A mark that does not overlap itself occurs first behind a text without it. -/
theorem cut?_append {c : Char} {m a : Text} (hc : c ∉ m) (h : ¬ c :: m <:+: a) (b : Text) :
    cut? (c :: m) (a ++ c :: m ++ b) = some (a, b) := by
  refine cut?_eq_some_iff.2 ⟨rfl, fun k hk hp ↦ ?_⟩
  rw [List.append_assoc, List.drop_append_of_le_length hk.le] at hp
  obtain ⟨x, r, hx⟩ := List.exists_cons_of_ne_nil (l := a.drop k) (by simp; omega)
  rw [hx, List.cons_append, List.cons_prefix_cons] at hp
  obtain ⟨rfl, hm⟩ := hp
  -- The rest of the mark either ends in the text, or reaches the first character of the other mark.
  rcases List.prefix_or_prefix_of_prefix hm (List.prefix_append r _) with hr | ⟨y, rfl⟩
  · refine h (List.IsInfix.trans ?_ (List.drop_suffix k a).isInfix)
    rw [hx]
    exact (List.cons_prefix_cons.2 ⟨rfl, hr⟩).isInfix
  · rw [List.prefix_append_right_inj] at hm
    cases y with
    | nil =>
      rw [List.append_nil, ← hx] at h
      exact h (List.drop_suffix k a).isInfix
    | cons d y =>
      obtain ⟨rfl, -⟩ := List.cons_prefix_cons.1 hm
      exact hc (by simp)

theorem cut?_single {c : Char} {a : Text} (h : c ∉ a) (b : Text) :
    cut? [c] (a ++ c :: b) = some (a, b) := by
  have hcut := cut?_append (m := []) List.not_mem_nil (fun hc ↦ h (hc.subset List.mem_cons_self)) b
  rwa [List.append_assoc] at hcut

theorem cut?_single_eq_none {c : Char} {s : Text} : cut? [c] s = none ↔ c ∉ s := by
  rw [cut?_eq_none_iff, not_iff_not]
  constructor
  · rintro ⟨a, b, rfl⟩
    simp
  · intro h
    obtain ⟨a, b, rfl⟩ := List.append_of_mem h
    exact ⟨a, b, by simp⟩

/-! ## Last occurrence -/

theorem cutLast?_eq_none_iff {mark : Char} {s : Text} : cutLast? mark s = none ↔ mark ∉ s := by
  induction s with
  | nil => simp [cutLast?]
  | cons x r ih =>
    rw [cutLast?, List.mem_cons, not_or, ← ih]
    cases h : cutLast? mark r with
    | none => simp [eq_comm]
    | some p => simp

/-- The last occurrence is the one with none behind it. -/
theorem cutLast?_eq_some_iff {mark : Char} {s a b : Text} :
    cutLast? mark s = some (a, b) ↔ s = a ++ mark :: b ∧ mark ∉ b := by
  induction s generalizing a with
  | nil => simp [cutLast?]
  | cons x r ih =>
    rw [cutLast?]
    cases h : cutLast? mark r with
    | some p =>
      obtain ⟨u, v⟩ := p
      rw [h] at ih
      constructor
      · intro heq
        rw [Option.some.injEq, Prod.mk.injEq] at heq
        obtain ⟨rfl, rfl⟩ := heq
        obtain ⟨hr, hv⟩ := ih.1 rfl
        exact ⟨by rw [hr, List.cons_append], hv⟩
      · rintro ⟨heq, hb⟩
        cases a with
        | nil =>
          obtain ⟨rfl, rfl⟩ := List.cons.inj heq
          rw [cutLast?_eq_none_iff.2 hb] at h
          exact absurd h (by simp)
        | cons y a =>
          obtain ⟨rfl, hr⟩ := List.cons.inj heq
          have hsome := ih.2 ⟨hr, hb⟩
          rw [Option.some.injEq, Prod.mk.injEq] at hsome
          simp [hsome.1, hsome.2]
    | none =>
      have hr : mark ∉ r := cutLast?_eq_none_iff.1 h
      dsimp only
      constructor
      · intro heq
        split at heq
        · next hx =>
          rw [Option.some.injEq, Prod.mk.injEq] at heq
          obtain ⟨rfl, rfl⟩ := heq
          exact ⟨by rw [hx, List.nil_append], hr⟩
        · exact absurd heq (by simp)
      · rintro ⟨heq, -⟩
        cases a with
        | nil =>
          obtain ⟨rfl, rfl⟩ := List.cons.inj heq
          rw [if_pos rfl]
        | cons y a =>
          obtain ⟨-, rfl⟩ := List.cons.inj heq
          exact absurd (by simp) hr

/-! ## Pieces -/

theorem pieces_ne_nil (sep : Char) (s : Text) : pieces sep s ≠ [] := by
  cases s with
  | nil => simp [pieces]
  | cons c r =>
    unfold pieces
    split
    · simp
    · split <;> simp

theorem pieces_of_not_mem {sep : Char} {s : Text} (h : sep ∉ s) : pieces sep s = [s] := by
  induction s with
  | nil => rfl
  | cons c r ih =>
    rw [List.mem_cons, not_or] at h
    rw [pieces, if_neg (Ne.symm h.1), ih h.2]

theorem pieces_append {sep : Char} {a : Text} (h : sep ∉ a) (b : Text) :
    pieces sep (a ++ sep :: b) = a :: pieces sep b := by
  induction a with
  | nil => simp [pieces]
  | cons c r ih =>
    rw [List.mem_cons, not_or] at h
    rw [List.cons_append, pieces, if_neg (Ne.symm h.1), ih h.2]

/-- A piece is a part of the text without the separator. -/
theorem mem_pieces {sep : Char} {s p : Text} (h : p ∈ pieces sep s) : sep ∉ p ∧ p ⊆ s := by
  induction s generalizing p with
  | nil =>
    simp only [pieces, List.mem_singleton] at h
    simp [h]
  | cons c r ih =>
    unfold pieces at h
    split at h
    · rcases List.mem_cons.1 h with rfl | h
      · simp
      · exact ⟨(ih h).1, List.Subset.trans (ih h).2 (List.subset_cons_self _ _)⟩
    · next hc =>
      split at h
      · next hnil => exact absurd hnil (pieces_ne_nil _ _)
      · next q qs hq =>
        rcases List.mem_cons.1 h with rfl | h
        · have := ih (p := q) (by simp [hq])
          refine ⟨by simp [Ne.symm hc, this.1], List.cons_subset_cons _ this.2⟩
        · have := ih (p := p) (by simp [hq, h])
          exact ⟨this.1, List.Subset.trans this.2 (List.subset_cons_self _ _)⟩

theorem join_cons {sep s : Text} {r : List Text} (h : r ≠ []) :
    join sep (s :: r) = s ++ sep ++ join sep r := by
  cases r with
  | nil => exact absurd rfl h
  | cons t r => rfl

/-- What is joined last stands at the end. -/
theorem exists_join_concat (sep : Text) (r : List Text) (s : Text) :
    ∃ a, join sep (r ++ [s]) = a ++ s := by
  induction r with
  | nil => exact ⟨[], rfl⟩
  | cons t r ih =>
    obtain ⟨a, ha⟩ := ih
    refine ⟨t ++ sep ++ a, ?_⟩
    rw [List.cons_append, join_cons (by simp), ha]
    simp

theorem mem_join {sep : Text} {l : List Text} {c : Char} (h : c ∈ join sep l) :
    c ∈ sep ∨ ∃ s ∈ l, c ∈ s := by
  induction l with
  | nil => simp [join] at h
  | cons s r ih =>
    by_cases hr : r = []
    · subst hr
      exact .inr ⟨s, List.mem_cons_self, h⟩
    · rw [join_cons hr, List.mem_append, List.mem_append] at h
      rcases h with (h | h) | h
      · exact .inr ⟨s, List.mem_cons_self, h⟩
      · exact .inl h
      · rcases ih h with h | ⟨t, ht, hc⟩
        · exact .inl h
        · exact .inr ⟨t, List.mem_cons_of_mem _ ht, hc⟩

end Markbook.Text
