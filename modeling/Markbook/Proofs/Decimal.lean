import Markbook.Decimal.Notation
import Markbook.Proofs.Text.Trim
import Markbook.Proofs.Text.Word
import Mathlib.Tactic.IntervalCases

/-!
# Decimal Numbers

The digits of a number are read back as the number, up to the bound of the reader
(`Decimal.bounded?_digitsOf`).  A text of digits is a trimmed line without a sign, and nothing but
digits and a plus sign is in a text that is read (`Decimal.not_mem_of_bounded?`).
-/

namespace Markbook.Decimal

theorem isDigit_of_mem_digitsOf {n : Nat} {c : Char} (h : c ∈ digitsOf n) : c.isDigit :=
  Nat.isDigit_of_mem_toDigits (by decide) (by decide) h

theorem not_mem_digitsOf {c : Char} (hc : c.isDigit = false) (n : Nat) : c ∉ digitsOf n := by
  intro h
  rw [isDigit_of_mem_digitsOf h] at hc
  exact absurd hc (by decide)

theorem digitsOf_ne_nil (n : Nat) : digitsOf n ≠ [] := Nat.toDigits_ne_nil

theorem isBlank_of_mem_digitsOf {n : Nat} {c : Char} (h : c ∈ digitsOf n) :
    Text.isBlank c = false := by
  refine Text.isBlank_of_isWordChar ?_
  simp [Text.isWordChar, Char.isAlphanum, isDigit_of_mem_digitsOf h]

theorem isTrimmed_digitsOf (n : Nat) : (digitsOf n).IsTrimmed := by
  rw [Text.isTrimmed_iff]
  exact ⟨fun c hc ↦ isBlank_of_mem_digitsOf (List.mem_of_head? hc),
    fun c hc ↦ isBlank_of_mem_digitsOf (List.mem_of_getLast? hc)⟩

theorem digit?_digitChar {d : Nat} (h : d < 10) : digit? 10 d.digitChar = some d := by
  interval_cases d <;> decide

theorem natural?_digitsOf (n : Nat) : natural? 10 (digitsOf n) = some n := by
  have hfold : (digitsOf n).foldlM (fun n c ↦ (digit? 10 c).map (10 * n + ·)) 0 = some n := by
    induction n using Nat.strong_induction_on with
    | _ n ih =>
      unfold digitsOf at ih ⊢
      by_cases hn : n < 10
      · rw [Nat.toDigits_of_lt_base hn]
        simp [digit?_digitChar hn]
      · rw [Nat.toDigits_of_base_le (by decide) (by omega), List.foldlM_append,
          ih (n / 10) (by omega)]
        have hlast : n % 10 < 10 := Nat.mod_lt n (by decide)
        simp [digit?_digitChar hlast]
        omega
  unfold natural?
  rw [if_neg, hfold]
  rw [List.isEmpty_iff]
  exact digitsOf_ne_nil n

/-- The digits of a number below the bound are read as the number. -/
theorem bounded?_digitsOf {n bound : Nat} (h : n < bound) :
    bounded? bound (digitsOf n) = some n := by
  have hsign : unsigned? 10 (digitsOf n) = natural? 10 (digitsOf n) := by
    unfold unsigned?
    split
    · next r heq =>
      exact absurd (heq ▸ List.mem_cons_self) (not_mem_digitsOf (c := '+') (by decide) n)
    · rfl
  unfold bounded?
  rw [hsign, natural?_digitsOf]
  simp [h]

theorem not_mem_of_natural? {s : Text} {x : Char} {k : Nat} (hx : digit? 10 x = none)
    (h : natural? 10 s = some k) : x ∉ s := by
  have hfold : ∀ m, x ∈ s → s.foldlM (fun m x ↦ (digit? 10 x).map (10 * m + ·)) m = none := by
    clear h
    induction s with
    | nil => simp
    | cons y r ih =>
      intro m hmem
      rw [List.foldlM_cons]
      rcases List.mem_cons.1 hmem with rfl | hmem
      · rw [hx]
        rfl
      · cases (digit? 10 y).map (10 * m + ·) with
        | none => rfl
        | some m' => exact ih m' hmem
  intro hmem
  unfold natural? at h
  rw [hfold 0 hmem, ite_self] at h
  exact absurd h (by simp)

theorem not_mem_of_bounded? {s : Text} {x : Char} {bound k : Nat} (hx : digit? 10 x = none)
    (hplus : x ≠ '+') (h : bounded? bound s = some k) : x ∉ s := by
  have hunsigned : unsigned? 10 s = some k := (Option.filter_eq_some_iff.1 h).1
  unfold unsigned? at hunsigned
  split at hunsigned
  · next r =>
    rw [List.mem_cons, not_or]
    exact ⟨hplus, not_mem_of_natural? hx hunsigned⟩
  · exact not_mem_of_natural? hx hunsigned

end Markbook.Decimal
