import Markbook.Text.Blank
import Mathlib.Data.List.DropRight
import Mathlib.Tactic.Common

/-!
# Trimming

A text is its trimmed form between two runs of blanks.  Readers see a line only through its trimmed
form, so the carriage return that reading a text back takes off the end of a line is invisible to
them: `chomp` is that loss, and `trim_chomp` says that trimming hides it.
-/

namespace Markbook.Text

theorem isBlank_space : isBlank ' ' = true := by decide

theorem isBlank_return : isBlank '\r' = true := by decide

/-! ## One end -/

theorem trimEnd_eq (s : Text) : trimEnd s = s.rdropWhile isBlank := rfl

theorem trimStart_cons_blank {c : Char} (h : isBlank c) (s : Text) :
    trimStart (c :: s) = trimStart s := by
  simp [trimStart, h]

theorem trimStart_append_blank {a : Text} (h : ∀ c ∈ a, isBlank c) (s : Text) :
    trimStart (a ++ s) = trimStart s := by
  unfold trimStart
  rw [List.dropWhile_append_of_pos h]

theorem trimEnd_append_blank {b : Text} (h : ∀ c ∈ b, isBlank c) (s : Text) :
    trimEnd (s ++ b) = trimEnd s := by
  unfold trimEnd
  rw [List.reverse_append, List.dropWhile_append_of_pos (by simpa using h)]

theorem exists_trimStart (s : Text) :
    ∃ a, (∀ c ∈ a, isBlank c) ∧ s = a ++ trimStart s := by
  refine ⟨s.takeWhile isBlank, fun c hc ↦ List.mem_takeWhile_imp hc, ?_⟩
  unfold trimStart
  rw [List.takeWhile_append_dropWhile]

theorem exists_trimEnd (s : Text) :
    ∃ b, (∀ c ∈ b, isBlank c) ∧ s = trimEnd s ++ b := by
  refine ⟨(s.reverse.takeWhile isBlank).reverse, fun c hc ↦ ?_, ?_⟩
  · exact List.mem_takeWhile_imp (List.mem_reverse.1 hc)
  · unfold trimEnd
    rw [← List.reverse_append, List.takeWhile_append_dropWhile, List.reverse_reverse]

theorem trimStart_eq_self_iff {s : Text} :
    trimStart s = s ↔ ∀ c ∈ s.head?, isBlank c = false := by
  cases s with
  | nil => simp [trimStart]
  | cons c r => simp [trimStart, List.dropWhile_eq_self_iff]

theorem trimEnd_eq_self_iff {s : Text} :
    trimEnd s = s ↔ ∀ c ∈ s.getLast?, isBlank c = false := by
  rw [trimEnd_eq, List.rdropWhile_eq_self_iff]
  constructor
  · intro h c hc
    have hne : s ≠ [] := by
      rintro rfl
      simp at hc
    rw [List.getLast?_eq_some_getLast hne] at hc
    obtain rfl := Option.mem_some_iff.1 hc
    simpa using h hne
  · intro h hne
    simpa using h _ (List.getLast?_eq_some_getLast hne)

theorem head?_trimStart (s : Text) : ∀ c ∈ (trimStart s).head?, isBlank c = false := by
  rw [← trimStart_eq_self_iff]
  exact List.dropWhile_idempotent _ _

theorem getLast?_trimEnd (s : Text) : ∀ c ∈ (trimEnd s).getLast?, isBlank c = false := by
  rw [← trimEnd_eq_self_iff]
  exact List.rdropWhile_idempotent _ _

/-- Trimming the end leaves the beginning alone, unless nothing is left. -/
theorem head?_trimEnd {s : Text} (h : trimEnd s ≠ []) : (trimEnd s).head? = s.head? := by
  obtain ⟨b, -, hs⟩ := exists_trimEnd s
  conv_rhs => rw [hs]
  rw [List.head?_append_of_ne_nil _ h]

/-! ## Both ends -/

/-- No blank stands at either end. -/
def IsTrimmed (s : Text) : Prop := trim s = s

instance (s : Text) : Decidable s.IsTrimmed := inferInstanceAs (Decidable (trim s = s))

theorem isTrimmed_iff {s : Text} :
    s.IsTrimmed ↔ (∀ c ∈ s.head?, isBlank c = false) ∧ ∀ c ∈ s.getLast?, isBlank c = false := by
  constructor
  · intro h
    have hs : trimEnd (trimStart s) = s := h
    refine ⟨fun c hc ↦ ?_, fun c hc ↦ ?_⟩
    · have hne : trimEnd (trimStart s) ≠ [] := by
        rw [hs]
        rintro rfl
        simp at hc
      have hhead := head?_trimEnd hne
      rw [hs] at hhead
      exact head?_trimStart s c (hhead ▸ hc)
    · rw [← hs] at hc
      exact getLast?_trimEnd _ c hc
  · rintro ⟨hstart, hend⟩
    unfold IsTrimmed trim
    rw [trimStart_eq_self_iff.2 hstart, trimEnd_eq_self_iff.2 hend]

theorem IsTrimmed.trimStart_eq {s : Text} (h : s.IsTrimmed) : trimStart s = s :=
  trimStart_eq_self_iff.2 (isTrimmed_iff.1 h).1

/-- What a trimmed text begins with begins without a blank as well. -/
theorem IsTrimmed.trimStart_of_append {a b : Text} (h : (a ++ b).IsTrimmed) : trimStart a = a := by
  rw [trimStart_eq_self_iff]
  intro c hc
  refine (isTrimmed_iff.1 h).1 c ?_
  have hne : a ≠ [] := by
    rintro rfl
    simp at hc
  rwa [List.head?_append_of_ne_nil _ hne]

/-- What a trimmed text ends with ends without a blank as well. -/
theorem IsTrimmed.trimEnd_of_append {a b : Text} (h : (a ++ b).IsTrimmed) : trimEnd b = b := by
  rw [trimEnd_eq_self_iff]
  intro c hc
  refine (isTrimmed_iff.1 h).2 c ?_
  have hne : b ≠ [] := by
    rintro rfl
    simp at hc
  rwa [List.getLast?_append_of_ne_nil _ hne]

theorem isTrimmed_trim (s : Text) : (trim s).IsTrimmed := by
  rw [isTrimmed_iff]
  refine ⟨fun c hc ↦ ?_, getLast?_trimEnd _⟩
  have hne : trim s ≠ [] := by
    intro h
    simp [h] at hc
  unfold trim at hc hne
  rw [head?_trimEnd hne] at hc
  exact head?_trimStart s c hc

theorem trim_append_blank {a b : Text} (ha : ∀ c ∈ a, isBlank c) (hb : ∀ c ∈ b, isBlank c)
    (s : Text) : trim (a ++ s ++ b) = trim s := by
  unfold trim
  rw [List.append_assoc, trimStart_append_blank ha]
  by_cases hs : ∀ c ∈ s, isBlank c
  · have h1 : trimStart (s ++ b) = [] := by
      unfold trimStart
      rw [List.dropWhile_eq_nil_iff]
      intro c hc
      rcases List.mem_append.1 hc with hc | hc
      · exact hs c hc
      · exact hb c hc
    have h2 : trimStart s = [] := by
      unfold trimStart
      rw [List.dropWhile_eq_nil_iff]
      exact hs
    rw [h1, h2]
  · have h : trimStart (s ++ b) = trimStart s ++ b := by
      unfold trimStart
      rw [List.dropWhile_append]
      split
      · next hnil =>
        rw [List.isEmpty_iff, List.dropWhile_eq_nil_iff] at hnil
        exact absurd hnil hs
      · rfl
    rw [h, trimEnd_append_blank hb]

theorem trim_cons_blank {c : Char} (h : isBlank c) (s : Text) : trim (c :: s) = trim s := by
  have := trim_append_blank (a := [c]) (b := []) (by simpa using h) (by simp) s
  simpa using this

theorem trim_concat_blank {c : Char} (h : isBlank c) (s : Text) : trim (s ++ [c]) = trim s := by
  have := trim_append_blank (a := []) (b := [c]) (by simp) (by simpa using h) s
  simpa using this

/-- A text is its trimmed form between blanks. -/
theorem exists_trim (s : Text) :
    ∃ a b, (∀ c ∈ a, isBlank c) ∧ (∀ c ∈ b, isBlank c) ∧ s = a ++ trim s ++ b := by
  obtain ⟨a, ha, hs⟩ := exists_trimStart s
  obtain ⟨b, hb, ht⟩ := exists_trimEnd (trimStart s)
  refine ⟨a, b, ha, hb, ?_⟩
  rw [List.append_assoc]
  exact hs.trans (by rw [trim, ← ht])

theorem trim_isInfix (s : Text) : trim s <:+: s := by
  obtain ⟨a, b, -, -, hs⟩ := exists_trim s
  exact ⟨a, b, hs.symm⟩

theorem trim_isPrefix {s : Text} (h : trimStart s = s) : trim s <+: s := by
  obtain ⟨b, -, hs⟩ := exists_trimEnd s
  unfold trim
  rw [h]
  exact ⟨b, hs.symm⟩

theorem mem_of_mem_trim {s : Text} {c : Char} (h : c ∈ trim s) : c ∈ s :=
  (trim_isInfix s).subset h

theorem trim_eq_nil_iff {s : Text} : trim s = [] ↔ ∀ c ∈ s, isBlank c := by
  constructor
  · intro h c hc
    obtain ⟨a, b, ha, hb, hs⟩ := exists_trim s
    rw [hs, h, List.append_nil] at hc
    rcases List.mem_append.1 hc with hc | hc
    · exact ha c hc
    · exact hb c hc
  · intro h
    have := trim_append_blank h (b := []) (by simp) []
    simpa [trim, trimStart, trimEnd] using this

theorem IsTrimmed.cons_append {c d : Char} {s : Text} (hc : isBlank c = false)
    (hd : isBlank d = false) : IsTrimmed (c :: s ++ [d]) := by
  rw [isTrimmed_iff, List.getLast?_concat]
  simp [hc, hd]

/-- What stands between two trimmed texts does not matter. -/
theorem IsTrimmed.append {a b : Text} (ha : a.IsTrimmed) (hb : b.IsTrimmed) (hane : a ≠ [])
    (hbne : b ≠ []) (m : Text) : IsTrimmed (a ++ m ++ b) := by
  rw [isTrimmed_iff, List.append_assoc, List.head?_append_of_ne_nil _ hane, ← List.append_assoc,
    List.getLast?_append_of_ne_nil _ hbne]
  exact ⟨(isTrimmed_iff.1 ha).1, (isTrimmed_iff.1 hb).2⟩

/-- A first character that is not blank stays the first. -/
theorem trim_cons {c : Char} (hc : isBlank c = false) (s : Text) :
    trim (c :: s) = c :: trimEnd s := by
  unfold trim trimStart
  rw [List.dropWhile_cons_of_neg (by simp [hc])]
  unfold trimEnd
  rw [List.reverse_cons, List.dropWhile_append]
  split
  · next h =>
    rw [List.isEmpty_iff] at h
    rw [h, List.dropWhile_cons_of_neg (by simp [hc])]
    rfl
  · simp

/-- Blanks are dropped on both sides of a character that is not blank. -/
theorem trim_append_cons {c : Char} (hc : isBlank c = false) (a b : Text) :
    trim (a ++ c :: b) = trimStart a ++ c :: trimEnd b := by
  have hcons : trimEnd (c :: b) = c :: trimEnd b := by
    rw [← trim_cons hc, trim, trimStart, List.dropWhile_cons_of_neg (by simp [hc])]
  have hend (x : Text) : trimEnd (x ++ c :: b) = x ++ c :: trimEnd b := by
    induction x with
    | nil => exact hcons
    | cons d r ih =>
      unfold trimEnd at ih ⊢
      rw [List.cons_append, List.reverse_cons, List.dropWhile_append, if_neg]
      · rw [List.reverse_append, ih]
        rfl
      · intro hnil
        rw [List.isEmpty_iff] at hnil
        rw [hnil] at ih
        simp at ih
  unfold trim
  rw [← hend]
  congr 1
  unfold trimStart
  rw [List.dropWhile_append]
  split
  · next h =>
    rw [List.isEmpty_iff] at h
    rw [h, List.dropWhile_cons_of_neg (by simp [hc])]
    rfl
  · rfl

theorem trim_trimStart (s : Text) : trim (trimStart s) = trim s := by
  unfold trim trimStart
  rw [List.dropWhile_idempotent]

theorem trim_trimEnd (s : Text) : trim (trimEnd s) = trim s := by
  obtain ⟨b, hb, hs⟩ := exists_trimEnd s
  have h := trim_append_blank (a := []) (by simp) hb (trimEnd s)
  rw [List.nil_append, ← hs] at h
  exact h.symm

/-! ## Carriage returns -/

/-- A line without one carriage return at its end. -/
def chomp (l : Text) : Text := if l.getLast? = some '\r' then l.dropLast else l

theorem chomp_nil : chomp [] = [] := rfl

theorem chomp_cons {c : Char} {l : Text} (h : l ≠ []) : chomp (c :: l) = c :: chomp l := by
  unfold chomp
  rw [List.getLast?_cons, List.getLast?_eq_some_getLast h]
  simp only [Option.getD_some]
  split
  · rw [List.dropLast_cons_of_ne_nil h]
  · rfl

theorem trim_chomp (l : Text) : trim (chomp l) = trim l := by
  unfold chomp
  split
  · next h =>
    obtain ⟨r, rfl⟩ := List.getLast?_eq_some_iff.1 h
    rw [List.dropLast_concat, trim_concat_blank isBlank_return]
  · rfl

theorem mem_of_mem_chomp {l : Text} {c : Char} (h : c ∈ chomp l) : c ∈ l := by
  unfold chomp at h
  split at h
  · exact List.dropLast_subset _ h
  · exact h

theorem chomp_of_isTrimmed {l : Text} (h : l.IsTrimmed) : chomp l = l := by
  unfold chomp
  rw [if_neg]
  intro hlast
  have := (isTrimmed_iff.1 h).2 '\r' hlast
  simp [isBlank_return] at this

end Markbook.Text
