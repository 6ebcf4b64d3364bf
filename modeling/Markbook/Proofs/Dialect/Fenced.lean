import Markbook.Proofs.Dialect.Block
import Markbook.Proofs.Dialect.FieldLines
import Markbook.Proofs.Yaml.Entries

/-!
# Writing and Reading Between Fences

A fenced block holds keys and values as they are, one entry a line, but is read as YAML.  A field
survives when its value is read back from its line as it was; one value that its line cannot hold
loses the whole block (`Dialect.read_write_fenced`).
-/

namespace Markbook.Dialect

open Yaml (IsKeptKey IsPlainValue reread?)

variable {fields : Fields}

theorem isLine_of_isOneLine {s : Text} (h : Yaml.IsOneLine s) : s.IsLine := by
  have hbreak (c : Char) (hc : Yaml.isBreak c = true) : c ∉ s := by
    intro hmem
    rw [(h c hmem).2] at hc
    exact absurd hc (by decide)
  refine ⟨hbreak '\n' (by decide), ?_⟩
  unfold Text.chomp
  rw [if_neg fun hlast ↦ hbreak '\r' (by decide) (List.mem_of_getLast? hlast)]

theorem isOneLine_fencedLine {e : Text × Text} (hk : Yaml.IsOneLine e.1) (hv : Yaml.IsOneLine e.2) :
    Yaml.IsOneLine (fencedLine e) :=
  Yaml.isOneLine_append.2
    ⟨hk, Yaml.isOneLine_cons.2 ⟨by decide, Yaml.isOneLine_cons.2 ⟨by decide, hv⟩⟩⟩

/-- A line with a colon is no fence. -/
theorem isFence_fencedLine (e : Text × Text) : isFence (Text.trim (fencedLine e)) = false := by
  unfold isFence
  rw [decide_eq_false_iff_not]
  intro h
  obtain ⟨a, b, ha, hb, hline⟩ := Text.exists_trim (fencedLine e)
  have hcolon : ':' ∈ fencedLine e := by simp [fencedLine]
  rw [hline, h, List.mem_append, List.mem_append] at hcolon
  rcases hcolon with (hmem | hmem) | hmem
  · exact absurd (ha _ hmem) (by decide)
  · exact absurd hmem (by decide)
  · exact absurd (hb _ hmem) (by decide)

/-- The entries of the lines of a block, none when some line cannot be read. -/
theorem blockEntries_fencedLines {L : List (Text × Text)} (hk : ∀ e ∈ L, IsKeptKey e.1)
    (hd : (L.map (·.1)).Nodup) (hv : ∀ e ∈ L, IsPlainValue e.2) :
    blockEntries (L.map fencedLine) =
      (L.mapM fun e ↦ (reread? e.2).map fun t ↦ (e.1, t)).getD [] := by
  by_cases hL : L = []
  · subst hL
    decide +kernel
  · rw [← Yaml.readEntries?_lines hL hk hd hv]
    unfold blockEntries
    change List.map _ ((Yaml.readEntries? (Text.unlines (L.map Yaml.entryLine))).getD []) = _
    cases Yaml.readEntries? (Text.unlines (L.map Yaml.entryLine)) with
    | none => rfl
    | some l => rfl

/-- What comes back from a fenced block: the values as their lines are read, or nothing. -/
theorem read_write_fenced_eq (hk : ∀ e ∈ fields.entries, IsKeptKey e.1)
    (hv : ∀ e ∈ fields.entries, IsPlainValue e.2) :
    Dialect.fenced.read (Dialect.fenced.write fields) =
      TextMap.ofList (((byLowerKey fields).mapM fun e ↦
        (reread? e.2).map fun t ↦ (e.1, t)).getD []) := by
  have hperm := byLowerKey_perm fields
  have hk' : ∀ e ∈ byLowerKey fields, IsKeptKey e.1 := fun e he ↦ hk e (hperm.mem_iff.1 he)
  have hv' : ∀ e ∈ byLowerKey fields, IsPlainValue e.2 := fun e he ↦ hv e (hperm.mem_iff.1 he)
  have hnodup : ((byLowerKey fields).map (·.1)).Nodup :=
    (hperm.map _).nodup_iff.2 (TextMap.keys_nodup fields)
  have hline : ∀ l ∈ (byLowerKey fields).map fencedLine, l.IsLine := by
    intro l hl
    obtain ⟨e, he, rfl⟩ := List.mem_map.1 hl
    exact isLine_of_isOneLine (isOneLine_fencedLine (hk' e he).oneLine (hv' e he).oneLine)
  have hlines : ∀ l ∈ Dialect.fenced.writtenLines fields, l.IsLine := by
    intro l hl
    simp only [writtenLines, List.mem_append, List.mem_cons, List.not_mem_nil, or_false] at hl
    rcases hl with (rfl | hl) | rfl
    · exact isLine_of_isOneLine (by decide)
    · exact hline l hl
    · exact isLine_of_isOneLine (by decide)
  have hfences : fences ((byLowerKey fields).map fencedLine) = 0 := by
    rw [fences_eq_zero_iff]
    intro l hl
    obtain ⟨e, -, rfl⟩ := List.mem_map.1 hl
    exact isFence_fencedLine e
  have hblocks : blocks none (Dialect.fenced.writtenLines fields) =
      [(byLowerKey fields).map fencedLine] := by
    rw [writtenLines, List.cons_append, blocks, if_pos (by decide),
      blocks_open_append hfences (by decide)]
    rfl
  unfold write
  rw [read_unlines _ fun l hl ↦ (hlines l hl).1, Text.map_chomp_of_isLine hlines, entries, hblocks,
    List.flatMap_singleton, blockEntries_fencedLines hk' hnodup hv']

/-- One value that its line cannot hold loses every field. -/
theorem read_write_of_unreadable (hk : ∀ e ∈ fields.entries, IsKeptKey e.1)
    (hv : ∀ e ∈ fields.entries, IsPlainValue e.2) {e : Text × Text} (he : e ∈ fields.entries)
    (hnone : reread? e.2 = none) :
    Dialect.fenced.read (Dialect.fenced.write fields) = .empty := by
  have hmapM {L : List (Text × Text)} (hmem : e ∈ L) :
      (L.mapM fun e ↦ (reread? e.2).map fun t ↦ (e.1, t)) = none := by
    induction L with
    | nil => exact absurd hmem List.not_mem_nil
    | cons d L ih =>
      rw [List.mapM_cons]
      rcases List.mem_cons.1 hmem with rfl | hmem
      · rw [hnone]
        rfl
      · rw [ih hmem]
        cases reread? d.2 <;> rfl
  rw [read_write_fenced_eq hk hv, hmapM ((byLowerKey_perm fields).mem_iff.2 he)]
  rfl

/-- Otherwise every value comes back as its line is read. -/
theorem read_write_of_readable (hk : ∀ e ∈ fields.entries, IsKeptKey e.1)
    (hv : ∀ e ∈ fields.entries, IsPlainValue e.2)
    (hsome : ∀ e ∈ fields.entries, (reread? e.2).isSome = true) :
    Dialect.fenced.read (Dialect.fenced.write fields) =
      fields.map fun _ v ↦ (reread? v).getD [] := by
  have hmapM {L : List (Text × Text)} (h : ∀ e ∈ L, (reread? e.2).isSome = true) :
      (L.mapM fun e ↦ (reread? e.2).map fun t ↦ (e.1, t)) =
        some (L.map fun e ↦ (e.1, (reread? e.2).getD [])) := by
    induction L with
    | nil => rfl
    | cons d L ih =>
      obtain ⟨hd, hL⟩ := List.forall_mem_cons.1 h
      obtain ⟨t, ht⟩ := Option.isSome_iff_exists.1 hd
      rw [List.mapM_cons, ih hL, List.map_cons, ht]
      rfl
  have hperm := byLowerKey_perm fields
  rw [read_write_fenced_eq hk hv, hmapM fun e he ↦ hsome e (hperm.mem_iff.1 he), Option.getD_some]
  exact TextMap.ofList_of_perm (hperm.map _)

/-- Where all keys are plain and no value begins with an opening mark, the fields of a section
survive a rewrite between fences exactly when each value is read back from its line as it was.
Every value becomes what its line is read as, and none is left when one line cannot be read. -/
theorem read_write_fenced (s : Text)
    (hk : ∀ e ∈ (Dialect.fenced.read s).entries, IsKeptKey e.1)
    (hv : ∀ e ∈ (Dialect.fenced.read s).entries, IsPlainValue e.2) :
    (Dialect.fenced.read (Dialect.fenced.write (Dialect.fenced.read s)) = Dialect.fenced.read s ↔
        ∀ e ∈ (Dialect.fenced.read s).entries, reread? e.2 = some e.2) ∧
      ((∀ e ∈ (Dialect.fenced.read s).entries, (reread? e.2).isSome = true) →
        Dialect.fenced.read (Dialect.fenced.write (Dialect.fenced.read s)) =
          (Dialect.fenced.read s).map fun _ v ↦ (reread? v).getD []) ∧
      ((∃ e ∈ (Dialect.fenced.read s).entries, reread? e.2 = none) →
        Dialect.fenced.read (Dialect.fenced.write (Dialect.fenced.read s)) = .empty) := by
  generalize Dialect.fenced.read s = fields at hk hv ⊢
  refine ⟨⟨fun h e he ↦ ?_, fun h ↦ ?_⟩, read_write_of_readable hk hv,
    fun ⟨e, he, hnone⟩ ↦ read_write_of_unreadable hk hv he hnone⟩
  · by_cases hsome : ∀ e ∈ fields.entries, (reread? e.2).isSome = true
    · obtain ⟨t, ht⟩ := Option.isSome_iff_exists.1 (hsome e he)
      have hget : fields.get? e.1 = some e.2 := TextMap.mem_entries_iff.1 he
      have hback := congrArg (fun m ↦ m.get? e.1) (read_write_of_readable hk hv hsome)
      simp only [h, TextMap.get?_map, hget, Option.map_some, ht, Option.getD_some] at hback
      rw [ht, ← hback]
    · -- An unreadable line leaves no field at all, so the field of `e` could not be there.
      push Not at hsome
      obtain ⟨d, hd, hnone⟩ := hsome
      rw [read_write_of_unreadable hk hv hd (by simpa using hnone)] at h
      rw [← h] at he
      exact absurd he List.not_mem_nil
  · have hsome : ∀ e ∈ fields.entries, (reread? e.2).isSome = true := by
      intro e he
      rw [h e he]
      rfl
    rw [read_write_of_readable hk hv hsome]
    apply TextMap.entries_injective
    change fields.entries.map (fun e ↦ (e.1, (reread? e.2).getD [])) = fields.entries
    conv_rhs => rw [← List.map_id fields.entries]
    apply List.map_congr_left
    intro e he
    rw [h e he]
    rfl

/-- A fenced block with a text, a number, a truth value and nothing. -/
def plainBlock : Text := "---\nOwner: 'amy lee'\nEstimate: 3\nDone: true\nNote: ~\n---\n"

/-- Its fields survive. -/
theorem read_write_fenced_plain :
    (∀ e ∈ (Dialect.fenced.read plainBlock).entries, IsKeptKey e.1) ∧
      (∀ e ∈ (Dialect.fenced.read plainBlock).entries, IsPlainValue e.2) ∧
      (Dialect.fenced.read plainBlock).get? "Owner" = some "amy lee" ∧
      Dialect.fenced.read (Dialect.fenced.write (Dialect.fenced.read plainBlock)) =
        Dialect.fenced.read plainBlock := by
  have hk : ∀ e ∈ (Dialect.fenced.read plainBlock).entries, IsKeptKey e.1 := by decide +kernel
  have hv : ∀ e ∈ (Dialect.fenced.read plainBlock).entries, IsPlainValue e.2 := by decide +kernel
  have hsame : ∀ e ∈ (Dialect.fenced.read plainBlock).entries, reread? e.2 = some e.2 := by
    decide +kernel
  exact ⟨hk, hv, by decide +kernel, (read_write_fenced plainBlock hk hv).1.2 hsame⟩

/-- A fenced block with a value in quotes, which a rewrite leaves out. -/
def quotedBlock : Text := "---\nnote: 'a: b'\nowner: amy\n---\n"

/-- Without its quotes the value cannot be read from its line, and the rewrite loses every field. -/
theorem not_read_write_quoted :
    (Dialect.fenced.read quotedBlock).entries =
        [("note".toList, "a: b".toList), ("owner".toList, "amy".toList)] ∧
      Dialect.fenced.read (Dialect.fenced.write (Dialect.fenced.read quotedBlock)) = .empty ∧
      Dialect.fenced.read (Dialect.fenced.write (Dialect.fenced.read quotedBlock)) ≠
        Dialect.fenced.read quotedBlock := by
  have hentries : (Dialect.fenced.read quotedBlock).entries =
      [("note".toList, "a: b".toList), ("owner".toList, "amy".toList)] := by decide +kernel
  have hempty : Dialect.fenced.read (Dialect.fenced.write (Dialect.fenced.read quotedBlock)) =
      .empty := by
    apply read_write_of_unreadable (e := ("note".toList, "a: b".toList))
    · decide +kernel
    · decide +kernel
    · rw [hentries]
      exact List.mem_cons_self
    · decide +kernel
  refine ⟨hentries, hempty, fun h ↦ ?_⟩
  rw [← h, hempty] at hentries
  exact absurd hentries (List.cons_ne_nil _ _).symm

end Markbook.Dialect
