import Markbook.Proofs.Text.Trim

/-!
# Words

A word starts with a letter and goes on with letters, digits, low lines and hyphens.  It has no
blank and none of the marks of a dialect, and it comes before every text that starts with a bar.
Texts of letters and digits have no marks either, but may start with a digit.
-/

namespace Markbook.Text

def isWordChar (c : Char) : Bool := c.isAlphanum || c = '_' || c = '-'

/-- A letter, then letters, digits, low lines and hyphens. -/
def isWord : Text → Bool
  | [] => false
  | c :: r => c.isAlpha && r.all isWordChar

variable {s : Text}

theorem exists_cons_of_isWord (h : isWord s) : ∃ c r, s = c :: r ∧ c.isAlpha := by
  cases s with
  | nil => simp [isWord] at h
  | cons c r =>
    simp only [isWord, Bool.and_eq_true] at h
    exact ⟨c, r, rfl, h.1⟩

theorem ne_nil_of_isWord (h : isWord s) : s ≠ [] := by
  obtain ⟨c, r, rfl, -⟩ := exists_cons_of_isWord h
  exact List.cons_ne_nil c r

theorem isWordChar_of_mem (h : isWord s) {c : Char} (hc : c ∈ s) : isWordChar c := by
  cases s with
  | nil => simp at hc
  | cons d r =>
    simp only [isWord, Bool.and_eq_true, List.all_eq_true] at h
    rcases List.mem_cons.1 hc with rfl | hc
    · simp [isWordChar, Char.isAlphanum, h.1]
    · exact h.2 c hc

/-- No other character occurs in a word. -/
theorem not_mem_of_isWord {c : Char} (hc : isWordChar c = false) (h : isWord s) : c ∉ s := by
  intro hmem
  rw [isWordChar_of_mem h hmem] at hc
  exact absurd hc (by decide)

theorem code_of_isAlpha {c : Char} (h : c.isAlpha) : 0x41 ≤ c.toNat ∧ c.toNat ≤ 0x7A := by
  delta Char.isAlpha Char.isUpper Char.isLower at h
  simp only [Bool.or_eq_true, Bool.and_eq_true, decide_eq_true_eq, ge_iff_le,
    UInt32.le_iff_toNat_le] at h
  unfold Char.toNat
  rcases h with h | h
  · exact ⟨le_trans (by decide) h.1, le_trans h.2 (by decide)⟩
  · exact ⟨le_trans (by decide) h.1, le_trans h.2 (by decide)⟩

theorem code_of_isDigit {c : Char} (h : c.isDigit) : 0x30 ≤ c.toNat ∧ c.toNat ≤ 0x39 := by
  delta Char.isDigit at h
  simp only [Bool.and_eq_true, decide_eq_true_eq, ge_iff_le, UInt32.le_iff_toNat_le] at h
  exact h

theorem isBlank_of_isWordChar {c : Char} (h : isWordChar c) : isBlank c = false := by
  have hcode : 0x21 ≤ c.toNat ∧ c.toNat ≤ 0x7A := by
    simp only [isWordChar, Char.isAlphanum, Bool.or_eq_true, decide_eq_true_eq] at h
    rcases h with ((h | h) | rfl) | rfl
    · have := code_of_isAlpha h
      omega
    · have := code_of_isDigit h
      omega
    · decide
    · decide
  simp only [isBlank, inRanges, blankRanges, List.any_cons, List.any_nil, Bool.or_false,
    Bool.or_eq_false_iff, Bool.and_eq_false_iff, decide_eq_false_iff_not]
  omega

theorem isTrimmed_of_isWord (h : isWord s) : s.IsTrimmed := by
  rw [isTrimmed_iff]
  constructor
  · intro c hc
    exact isBlank_of_isWordChar (isWordChar_of_mem h (List.mem_of_head? hc))
  · intro c hc
    exact isBlank_of_isWordChar (isWordChar_of_mem h (List.mem_of_getLast? hc))

/-- What comes before a word starts with a smaller letter than the bar. -/
theorem head?_ne_bar_of_lt {a : Text} (h : isWord s) (hlt : a < s) : a.head? ≠ some '|' := by
  obtain ⟨c, r, rfl, hc⟩ := exists_cons_of_isWord h
  intro hbar
  obtain ⟨t, rfl⟩ := List.head?_eq_some_iff.1 hbar
  have hhigh : 0x7C ≤ c.toNat := by
    rcases List.cons_lt_cons_iff.1 hlt with hlt | ⟨rfl, -⟩
    · exact Nat.le_of_lt hlt
    · decide
  have hlow := (code_of_isAlpha hc).2
  omega

/-! ## Letters and digits -/

/-- Letters and digits only. -/
def IsAlnum (s : Text) : Prop := ∀ c ∈ s, c.isAlphanum

instance : DecidablePred IsAlnum := List.decidableBAll _

theorem isBlank_of_isAlphanum {c : Char} (h : c.isAlphanum) : isBlank c = false :=
  isBlank_of_isWordChar (by simp [isWordChar, h])

theorem IsAlnum.not_mem {c : Char} (h : s.IsAlnum) (hc : c.isAlphanum = false) : c ∉ s := by
  intro hmem
  rw [h c hmem] at hc
  exact absurd hc (by decide)

theorem IsAlnum.isTrimmed (h : s.IsAlnum) : s.IsTrimmed := by
  rw [isTrimmed_iff]
  exact ⟨fun c hc ↦ isBlank_of_isAlphanum (h c (List.mem_of_head? hc)),
    fun c hc ↦ isBlank_of_isAlphanum (h c (List.mem_of_getLast? hc))⟩

end Markbook.Text
