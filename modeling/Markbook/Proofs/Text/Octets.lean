import Markbook.Text.Basic

/-!
# Octets

A text has as many octets as its parts together (`Text.octets_append`), so the number of octets of
a part in front is where a character ends (`Text.isValid_octets`), and cuts the part off
(`Text.cutAt?_octets_append`).
-/

namespace Markbook.Text

theorem octets_append (a b : Text) : octets (a ++ b) = octets a + octets b := by
  induction a with
  | nil => simp [octets]
  | cons c r ih =>
    simp only [List.cons_append, octets, ih]
    omega

theorem octets_pos {s : Text} (h : s ≠ []) : 0 < octets s := by
  obtain ⟨c, r, rfl⟩ := List.exists_cons_of_ne_nil h
  have := Char.utf8Size_pos c
  simp only [octets]
  omega

/-- Of two beginnings of a text the one with fewer octets begins the other. -/
theorem prefix_of_octets_le {a b s : Text} (ha : a <+: s) (hb : b <+: s)
    (h : a.octets ≤ b.octets) : a <+: b := by
  rcases List.prefix_or_prefix_of_prefix ha hb with hab | ⟨r, rfl⟩
  · exact hab
  · rw [octets_append] at h
    by_cases hr : r = []
    · simp [hr]
    · have := octets_pos hr
      omega

theorem octets_le_of_prefix {a b : Text} (h : a <+: b) : a.octets ≤ b.octets := by
  obtain ⟨r, rfl⟩ := h
  rw [octets_append]
  exact Nat.le_add_right _ _

/-- Two beginnings of a text with as many octets are the same. -/
theorem eq_of_octets_eq {a b s : Text} (ha : a <+: s) (hb : b <+: s) (h : a.octets = b.octets) :
    a = b :=
  (prefix_of_octets_le ha hb (Nat.le_of_eq h)).eq_of_length_le
    (prefix_of_octets_le hb ha (Nat.le_of_eq h.symm)).length_le

theorem octets_eq (s : Text) : s.octets = (String.ofList s).utf8ByteSize := by
  induction s with
  | nil => rfl
  | cons c r ih =>
    have hcons : String.ofList (c :: r) = String.singleton c ++ String.ofList r := by
      rw [← String.toList_inj]
      simp
    rw [hcons, String.utf8ByteSize_append, String.utf8ByteSize_singleton, ← ih, octets]

/-- Behind a part in front of a text stands the boundary of a character. -/
theorem isValid_octets (a b : Text) :
    (⟨a.octets⟩ : String.Pos.Raw).IsValid (String.ofList (a ++ b)) := by
  rw [String.ofList_append, String.Pos.Raw.isValid_iff_exists_append]
  refine ⟨_, _, rfl, ?_⟩
  rw [octets_eq]
  rfl

theorem cutAt?_octets_append (a b : Text) : cutAt? a.octets (a ++ b) = some (a, b) := by
  induction a with
  | nil => rw [octets, List.nil_append, cutAt?]
  | cons c r ih =>
    obtain ⟨n, hn⟩ : ∃ n, octets (c :: r) = n + 1 :=
      Nat.exists_eq_add_one.2 (octets_pos (List.cons_ne_nil c r))
    have hsize : octets (c :: r) = c.utf8Size + octets r := rfl
    have hrest : n + 1 - c.utf8Size = octets r := by omega
    rw [hn, List.cons_append, cutAt?, if_pos (by omega), hrest, ih]
    rfl

end Markbook.Text
