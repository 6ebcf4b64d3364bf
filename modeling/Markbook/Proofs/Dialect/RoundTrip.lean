import Markbook.Proofs.Dialect.Block
import Markbook.Proofs.Dialect.FieldLines

/-!
# Writing and Reading in Line Dialects

The line dialects write keys and values as they are, without any escape.  So legal fields are
exactly those that are read back from their block, whatever else the key and the value hold
(`Dialect.read_write_iff`).  This module claims nothing of fenced blocks.
-/

namespace Markbook.Dialect

variable {d : Dialect} {fields : Fields}

/-- The block of legal fields is cut into the lines it was made of. -/
theorem read_write_eq (hd : d ≠ .fenced) (h : ∀ e ∈ fields.entries, d.Legal e)
    (hne : fields.entries ≠ []) :
    d.read (d.write fields) = TextMap.ofList (d.entries (d.writtenLines fields)) := by
  have hlines := isLine_of_mem_writtenLines hd (fun e he ↦ (h e he).toIsField) hne
  unfold write
  rw [read_unlines d fun l hl ↦ (hlines l hl).1, Text.map_chomp_of_isLine hlines]

/-- Legal fields are read back from their block. -/
theorem read_write (hd : d ≠ .fenced) (h : ∀ e ∈ fields.entries, d.Legal e) :
    d.read (d.write fields) = fields := by
  by_cases hne : fields.entries = []
  · obtain rfl : fields = .empty := TextMap.entries_injective hne
    cases d with
    | fenced => exact absurd rfl hd
    | colons => decide
    | packed => decide
    | table => decide +kernel
  · rw [read_write_eq hd h hne]
    exact TextMap.ofList_of_perm (entries_writtenLines hd h hne)

/-- Whatever a line dialect reads is legal in it. -/
theorem legal_of_mem_read (hd : d ≠ .fenced) {s : Text} {e : Text × Text}
    (h : e ∈ (d.read s).entries) : d.Legal e := by
  have hget : (d.read s).get? e.1 = some e.2 := TextMap.mem_entries_iff.1 h
  exact legal_of_mem_entries hd (fun l hl ↦ Text.newline_not_mem_of_mem_lines hl)
    (TextMap.mem_of_get?_ofList hget)

/-- The block of legal fields is told by its first line. -/
theorem detect_write (hd : d ≠ .fenced) (h : ∀ e ∈ fields.entries, d.Legal e)
    (hne : fields.entries ≠ [])
    (hkeys : d = .colons → ∀ e ∈ fields.entries, ¬ [' ', ' '] <:+: e.1) :
    detect (d.write fields) = d := by
  have htold : told? (d.writtenLines fields) = some d := by
    refine told?_writtenLines_of_keyLike h hne fun hcolons e he ↦ ?_
    unfold isKeyLike
    rw [Bool.and_eq_true, Bool.not_eq_true', Bool.not_eq_true', ← Bool.not_eq_true,
      ← Bool.not_eq_true, Text.has_iff, List.isEmpty_iff]
    exact ⟨(h e he).key_ne, hkeys hcolons e he⟩
  unfold write
  rw [detect_eq, told?_lines_unlines fun l hl ↦
    (isLine_of_mem_writtenLines hd (fun e he ↦ (h e he).toIsField) hne l hl).1, htold]
  rfl

/-- Fields come back from the block of a line dialect exactly when each of them is legal.  The
dialect reads nothing else, from any section; and a block of legal fields is detected as the
dialect it is written in, if there are any and, for one key a line, no key looks like prose. -/
theorem read_write_iff (hd : d ≠ .fenced) :
    (∀ fields, d.read (d.write fields) = fields ↔ ∀ e ∈ fields.entries, d.Legal e) ∧
      (∀ s, ∀ e ∈ (d.read s).entries, d.Legal e) ∧
      ∀ fields : Fields, (∀ e ∈ fields.entries, d.Legal e) → fields ≠ .empty →
        (d = .colons → ∀ e ∈ fields.entries, ¬ [' ', ' '] <:+: e.1) →
        detect (d.write fields) = d := by
  refine ⟨fun fields ↦ ⟨fun h e he ↦ ?_, read_write hd⟩, fun s e ↦ legal_of_mem_read hd,
    fun fields h hne hkeys ↦ detect_write hd h (fun hnil ↦ hne ?_) hkeys⟩
  · rw [← h] at he
    exact legal_of_mem_read hd he
  · exact TextMap.entries_injective hnil

/-- A key that ends with a colon, and one without a value. -/
def colonedFields : Fields := .ofList [("Part:", "a:: b"), ("Notes", [])]

/-- Such keys come back from a block of one key a line. -/
theorem read_write_coloned :
    Dialect.colons ≠ .fenced ∧ (∀ e ∈ colonedFields.entries, Dialect.colons.Legal e) ∧
      colonedFields ≠ .empty ∧ (∀ e ∈ colonedFields.entries, ¬ [' ', ' '] <:+: e.1) ∧
      Dialect.colons.read (Dialect.colons.write colonedFields) = colonedFields ∧
      detect (Dialect.colons.write colonedFields) = .colons := by
  have hlegal : ∀ e ∈ colonedFields.entries, Dialect.colons.Legal e := by decide
  have hne : colonedFields ≠ .empty := by decide
  have hkeys : ∀ e ∈ colonedFields.entries, ¬ [' ', ' '] <:+: e.1 := by decide
  have hd : Dialect.colons ≠ .fenced := by decide
  obtain ⟨hread, -, hdetect⟩ := read_write_iff hd
  exact ⟨hd, hlegal, hne, hkeys, (hread colonedFields).2 hlegal,
    hdetect colonedFields hlegal hne fun _ ↦ hkeys⟩

end Markbook.Dialect
