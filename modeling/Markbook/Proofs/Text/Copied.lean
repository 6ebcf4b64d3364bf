import Markbook.Proofs.Text.Lines

/-!
# Copied Texts

A text that is copied line by line has a line feed behind each line.  That is the same text exactly
when every line ended so: with a line feed, and with no carriage return in front of it
(`Text.copied_eq_self_iff`).

The raw lines of a text are its lines together with what ends them.  A text is its raw lines in a
row, and some neighbouring raw lines are the raw lines of the part of the text that they make up, so
a part of a text can be named by the lines in it.
-/

namespace Markbook.Text

/-- The lines of a text, each with what ends it. -/
def rawLines : Text → List Text
  | [] => []
  | '\n' :: r => ['\n'] :: rawLines r
  | c :: r =>
    match rawLines r with
    | [] => [[c]]
    | l :: ls => (c :: l) :: ls

/-- A raw line without what ends it. -/
def bare (raw : Text) : Text := ((before? ['\n'] raw).map chomp).getD raw

/-- The lines of a text, each with a line feed. -/
def copied (s : Text) : Text := (lines s).flatMap (· ++ ['\n'])

/-- Each line of the text ends in a line feed alone. -/
def IsFed (s : Text) : Prop := (s = [] ∨ ['\n'] <:+ s) ∧ ¬ ['\r', '\n'] <:+: s

/-- A text is read line by line; only its last line may lack a line feed. -/
@[elab_as_elim]
theorem line_induction {motive : Text → Prop} (nil : motive [])
    (last : ∀ l, l ≠ [] → '\n' ∉ l → motive l)
    (line : ∀ l s, '\n' ∉ l → motive s → motive (l ++ '\n' :: s)) (s : Text) : motive s := by
  induction hn : s.length using Nat.strong_induction_on generalizing s with
  | _ n ih =>
    cases hcut : cut? ['\n'] s with
    | none =>
      by_cases hs : s = []
      · exact hs ▸ nil
      · exact last s hs (cut?_single_eq_none.1 hcut)
    | some p =>
      obtain ⟨l, r⟩ := p
      have hl : '\n' ∉ l :=
        cut?_single_eq_none.1 (cut?_eq_none_iff.2 (not_infix_of_cut? (by simp) hcut))
      obtain rfl : s = l ++ '\n' :: r := by simpa using eq_of_cut? hcut
      have hlength : r.length < n := by
        rw [← hn, List.length_append, List.length_cons]
        omega
      exact line l r hl (ih r.length hlength r rfl)

/-! ## Raw lines -/

theorem rawLines_cons {c : Char} {s l : Text} {r : List Text} (hc : c ≠ '\n')
    (h : rawLines s = l :: r) : rawLines (c :: s) = (c :: l) :: r := by
  rw [rawLines.eq_3 c s hc, h]

theorem rawLines_append {l : Text} (h : '\n' ∉ l) (s : Text) :
    rawLines (l ++ '\n' :: s) = (l ++ ['\n']) :: rawLines s := by
  induction l with
  | nil => rfl
  | cons c r ih =>
    rw [List.mem_cons, not_or] at h
    exact rawLines_cons (Ne.symm h.1) (ih h.2)

theorem rawLines_of_not_mem {l : Text} (h : '\n' ∉ l) (hne : l ≠ []) : rawLines l = [l] := by
  induction l with
  | nil => exact absurd rfl hne
  | cons c r ih =>
    rw [List.mem_cons, not_or] at h
    by_cases hr : r = []
    · subst hr
      rw [rawLines.eq_3 c [] (Ne.symm h.1)]
      rfl
    · exact rawLines_cons (Ne.symm h.1) (ih h.2 hr)

theorem flatten_rawLines (s : Text) : (rawLines s).flatten = s := by
  induction s using line_induction with
  | nil => rfl
  | last l hne hl => simp [rawLines_of_not_mem hl hne]
  | line l s hl ih => simp [rawLines_append hl, ih]

/-- The raw lines of two parts of a text that are cut between raw lines. -/
theorem rawLines_flatten {s : Text} {a b : List Text} (h : rawLines s = a ++ b) :
    rawLines a.flatten = a ∧ rawLines b.flatten = b := by
  induction s using line_induction generalizing a with
  | nil =>
    obtain ⟨rfl, rfl⟩ := List.append_eq_nil_iff.1 h.symm
    exact ⟨rfl, rfl⟩
  | last l hne hl =>
    rw [rawLines_of_not_mem hl hne, eq_comm, List.append_eq_singleton_iff] at h
    rcases h with ⟨rfl, rfl⟩ | ⟨rfl, rfl⟩
    · exact ⟨rfl, by simp [rawLines_of_not_mem hl hne]⟩
    · exact ⟨by simp [rawLines_of_not_mem hl hne], rfl⟩
  | line l s hl ih =>
    cases a with
    | nil =>
      refine ⟨rfl, ?_⟩
      rw [List.nil_append] at h
      rw [← h, flatten_rawLines]
    | cons x r =>
      rw [rawLines_append hl, List.cons_append, List.cons.injEq] at h
      obtain ⟨rfl, h⟩ := h
      obtain ⟨hr, hb⟩ := ih h
      have hcat : ((l ++ ['\n']) :: r).flatten = l ++ '\n' :: r.flatten := by simp
      exact ⟨by rw [hcat, rawLines_append hl, hr], hb⟩

theorem rawLines_flatten_of_infix {s : Text} {ls : List Text} (h : ls <:+: rawLines s) :
    rawLines ls.flatten = ls := by
  obtain ⟨a, b, h⟩ := h
  exact (rawLines_flatten (rawLines_flatten h.symm).1).2

/-! ## Bare lines -/

theorem bare_terminated (l : Text) : bare (l ++ ['\n']) = chomp l := by
  unfold bare
  rw [before?_eq_some_iff.2 rfl]
  rfl

theorem bare_of_not_mem {l : Text} (h : '\n' ∉ l) : bare l = l := by
  unfold bare
  cases hl : before? ['\n'] l with
  | none => rfl
  | some a =>
    rw [before?_eq_some_iff.1 hl] at h
    simp at h

theorem trim_bare (raw : Text) : trim (bare raw) = trim raw := by
  unfold bare
  cases h : before? ['\n'] raw with
  | none => rfl
  | some l =>
    rw [before?_eq_some_iff.1 h, trim_concat_blank (by decide)]
    exact trim_chomp l

theorem lines_eq_map_bare (s : Text) : lines s = (rawLines s).map bare := by
  induction s using line_induction with
  | nil => rfl
  | last l hne hl =>
    rw [lines_of_not_mem hl hne, rawLines_of_not_mem hl hne, List.map_singleton, bare_of_not_mem hl]
  | line l s hl ih =>
    rw [lines_append hl, rawLines_append hl, List.map_cons, bare_terminated, ih]

/-! ## What copying keeps -/

theorem copied_append {l : Text} (h : '\n' ∉ l) (s : Text) :
    copied (l ++ '\n' :: s) = chomp l ++ '\n' :: copied s := by
  simp [copied, lines_append h]

theorem copied_of_not_mem {l : Text} (h : '\n' ∉ l) (hne : l ≠ []) : copied l = l ++ ['\n'] := by
  simp [copied, lines_of_not_mem h hne]

theorem chomp_eq_self_iff {l : Text} : chomp l = l ↔ ¬ ['\r'] <:+ l := by
  constructor
  · rintro h ⟨a, rfl⟩
    simp [chomp] at h
  · intro h
    unfold chomp
    rw [if_neg]
    intro hlast
    obtain ⟨a, rfl⟩ := List.getLast?_eq_some_iff.1 hlast
    exact h ⟨a, rfl⟩

theorem return_feed_infix_iff {l : Text} (h : '\n' ∉ l) (s : Text) :
    ['\r', '\n'] <:+: l ++ '\n' :: s ↔ ['\r'] <:+ l ∨ ['\r', '\n'] <:+: s := by
  induction l with
  | nil => simp [List.infix_cons_iff]
  | cons c r ih =>
    rw [List.mem_cons, not_or] at h
    rw [List.cons_append, List.infix_cons_iff, ih h.2, List.cons_prefix_cons, ← or_assoc]
    refine or_congr_left ?_
    cases r with
    | nil => simp [List.suffix_cons_iff, eq_comm]
    | cons d r =>
      have hd : '\n' ≠ d := fun hd ↦ h.2 (hd ▸ List.mem_cons_self)
      simp [hd, List.suffix_cons_iff]

theorem isFed_append {l : Text} (h : '\n' ∉ l) (s : Text) :
    IsFed (l ++ '\n' :: s) ↔ chomp l = l ∧ IsFed s := by
  have hend : ['\n'] <:+ l ++ '\n' :: s ↔ s = [] ∨ ['\n'] <:+ s := by
    rw [show l ++ '\n' :: s = (l ++ ['\n']) ++ s by simp]
    rcases List.eq_nil_or_concat s with rfl | ⟨r, c, rfl⟩
    · simp
    · simp [← List.append_assoc]
  have hne : l ++ '\n' :: s ≠ [] := by simp
  unfold IsFed
  rw [return_feed_infix_iff h, chomp_eq_self_iff, hend, or_iff_right hne]
  tauto

/-- Copying a text line by line changes nothing exactly when each line ends in a line feed alone. -/
theorem copied_eq_self_iff {s : Text} : copied s = s ↔ s.IsFed := by
  induction s using line_induction with
  | nil => simp [copied, lines, IsFed]
  | last l hne hl =>
    rw [copied_of_not_mem hl hne]
    refine iff_of_false (by simp) fun h ↦ ?_
    obtain ⟨a, rfl⟩ := h.1.resolve_left hne
    simp at hl
  | line l s hl ih =>
    have hchomp : '\n' ∉ chomp l := fun h ↦ hl (mem_of_mem_chomp h)
    rw [copied_append hl, isFed_append hl, ← ih]
    constructor
    · intro h
      have hcut := cut?_single hchomp (copied s)
      rw [h, cut?_single hl] at hcut
      simpa [eq_comm] using hcut
    · rintro ⟨hl, hs⟩
      rw [hl, hs]

instance (s : Text) : Decidable s.IsFed := decidable_of_iff (copied s = s) copied_eq_self_iff

example : IsFed "Intro\nText\n" ∧ ¬ IsFed "Intro\r\nText\n" := by decide

end Markbook.Text
