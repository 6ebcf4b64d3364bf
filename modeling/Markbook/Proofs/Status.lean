import Markbook.Proofs.Text.Trim
import Markbook.Status

/-!
# Status Forms

A table has a row for each name, where it was first declared, with its last forms
(`StatusTable.rows_eq`).  A text has a marker exactly when a form that is not empty begins it, and
the status of a marker is a name of its table.  The built-in table writes each of its six statuses
with a glyph that no other form shares, and writes no form for a status it does not know.
-/

namespace Markbook.StatusTable

variable {t : StatusTable} {s : Text}

/-! ## Rows -/

theorem map_declare (name : Text) (forms : List Text) (rows : List (Text × List Text)) :
    (declare name forms rows).map (·.1) =
      if name ∈ rows.map (·.1) then rows.map (·.1) else rows.map (·.1) ++ [name] := by
  induction rows with
  | nil => simp [declare]
  | cons row r ih =>
    unfold declare
    by_cases h : row.1 = name
    · simp [h]
    · rw [if_neg h, List.map_cons, ih]
      by_cases hmem : name ∈ r.map (·.1)
      · simp [hmem]
      · simp [hmem, Ne.symm h]

theorem eq_or_mem_of_mem_declare {name : Text} {forms : List Text}
    {rows : List (Text × List Text)} {row : Text × List Text} (hnodup : (rows.map (·.1)).Nodup)
    (h : row ∈ declare name forms rows) : row = (name, forms) ∨ row ∈ rows ∧ row.1 ≠ name := by
  induction rows with
  | nil => exact .inl (List.mem_singleton.1 h)
  | cons a r ih =>
    rw [List.map_cons, List.nodup_cons] at hnodup
    unfold declare at h
    split at h
    · next ha =>
      rcases List.mem_cons.1 h with rfl | h
      · exact .inl (by rw [ha])
      · refine .inr ⟨List.mem_cons_of_mem _ h, fun heq ↦ hnodup.1 ?_⟩
        exact List.mem_map.2 ⟨row, h, heq.trans ha.symm⟩
    · next ha =>
      rcases List.mem_cons.1 h with rfl | h
      · exact .inr ⟨List.mem_cons_self, ha⟩
      · rcases ih hnodup.2 h with h | ⟨hmem, hne⟩
        · exact .inl h
        · exact .inr ⟨List.mem_cons_of_mem _ hmem, hne⟩

/-- One declaration more: the inductions on a table below go from its end. -/
theorem rows_concat (l : List (Text × List Text)) (row : Text × List Text) :
    (mk (l ++ [row])).rows = declare row.1 row.2 (mk l).rows := by
  simp [rows, List.foldl_append]

/-- The names stand in the order of their first declarations. -/
theorem names_eq (t : StatusTable) : t.names = (t.declared.map (·.1)).eraseDups := by
  obtain ⟨l⟩ := t
  induction l using List.reverseRecOn with
  | nil => rfl
  | append_singleton l row ih =>
    unfold names at ih ⊢
    rw [rows_concat, map_declare, ih, List.map_append, List.eraseDups_append]
    by_cases hmem : row.1 ∈ l.map (·.1)
    · simp [hmem, List.removeAll]
    · simp [hmem, List.removeAll, List.eraseDups_cons]

theorem nodup_names (t : StatusTable) : t.names.Nodup := by
  obtain ⟨l⟩ := t
  induction l using List.reverseRecOn with
  | nil => exact List.nodup_nil
  | append_singleton l row ih =>
    unfold names at ih ⊢
    rw [rows_concat, map_declare]
    split
    · exact ih
    · next hmem =>
      rw [List.nodup_append]
      refine ⟨ih, List.pairwise_singleton _ _, fun name hname name' hlast heq ↦ hmem ?_⟩
      rwa [← List.mem_singleton.1 hlast, ← heq]

/-- A row of a table is the last declaration of its name. -/
theorem find?_declared_of_mem_rows {row : Text × List Text} (h : row ∈ t.rows) :
    t.declared.reverse.find? (fun r ↦ r.1 = row.1) = some row := by
  obtain ⟨l⟩ := t
  induction l using List.reverseRecOn with
  | nil => simp [rows] at h
  | append_singleton l last ih =>
    rw [rows_concat] at h
    rw [List.reverse_append, List.reverse_singleton, List.singleton_append]
    rcases eq_or_mem_of_mem_declare (nodup_names _) h with rfl | ⟨hmem, hne⟩
    · simp
    · rw [List.find?_cons_of_neg (by simpa using Ne.symm hne)]
      exact ih hmem

/-- A table has each name once, where it was first declared, as it was last declared. -/
theorem rows_eq (t : StatusTable) :
    t.rows = (t.declared.map (·.1)).eraseDups.filterMap fun name ↦
      t.declared.reverse.find? fun row ↦ row.1 = name := by
  rw [← names_eq, names, List.filterMap_map]
  calc t.rows = t.rows.filterMap some := List.filterMap_some.symm
    _ = _ := List.filterMap_congr fun row hrow ↦ (find?_declared_of_mem_rows hrow).symm

theorem mem_allForms_iff {e : Text × Text} :
    e ∈ t.allForms ↔ ∃ row ∈ t.rows, row.1 = e.1 ∧ e.2 ∈ row.2 := by
  simp [allForms, Prod.ext_iff]

/-- The first entry with a form is that of the first row that lists it. -/
theorem find?_allForms (t : StatusTable) (form : Text) :
    t.allForms.find? (fun e ↦ e.2 = form) =
      (t.rows.find? fun row ↦ row.2.contains form).map fun row ↦ (row.1, form) := by
  unfold allForms
  induction t.rows with
  | nil => rfl
  | cons row r ih =>
    rw [List.flatMap_cons, List.find?_append, ih, List.find?_map]
    change ((row.2.find? fun x ↦ x = form).map _).or _ = _
    cases hfind : row.2.find? fun x ↦ x = form with
    | some x =>
      obtain rfl : x = form := by simpa using List.find?_some hfind
      rw [List.find?_cons_of_pos (by simpa using List.mem_of_find?_eq_some hfind)]
      rfl
    | none =>
      have hmem : form ∉ row.2 := fun hmem ↦ by simpa using List.find?_eq_none.1 hfind form hmem
      rw [List.find?_cons_of_neg (by simpa using hmem)]
      rfl

/-! ## Markers -/

theorem longer_ne_none (best : Option (Text × Text)) (e : Text × Text) : longer best e ≠ none := by
  cases best with
  | none => simp [longer]
  | some b =>
    unfold longer
    simp only
    split <;> simp

theorem foldl_longer_eq_none_iff {l : List (Text × Text)} {best : Option (Text × Text)} :
    l.foldl longer best = none ↔ best = none ∧ l = [] := by
  induction l generalizing best with
  | nil => simp
  | cons e r ih =>
    rw [List.foldl_cons, ih]
    simp [longer_ne_none]

theorem mem_of_foldl_longer {l : List (Text × Text)} {best : Option (Text × Text)} {e : Text × Text}
    (h : l.foldl longer best = some e) : best = some e ∨ e ∈ l := by
  induction l generalizing best with
  | nil => exact .inl h
  | cons a r ih =>
    rw [List.foldl_cons] at h
    rcases ih h with h | h
    · cases best with
      | none =>
        simp only [longer, Option.some.injEq] at h
        simp [h]
      | some b =>
        unfold longer at h
        simp only at h
        split at h
        · simp [Option.some.inj h]
        · exact .inl h
    · simp [h]

/-- No form begins a text without a marker. -/
theorem marker?_eq_none_iff :
    t.marker? s = none ↔ ∀ e ∈ t.allForms, e.2 ≠ [] → ¬ e.2 <+: s := by
  unfold marker? longestForm?
  rw [Option.map_eq_none_iff, foldl_longer_eq_none_iff]
  simp only [true_and, List.filter_eq_nil_iff, Bool.and_eq_true, Bool.not_eq_true',
    List.isEmpty_eq_false_iff, List.isPrefixOf_iff_prefix, not_and]

theorem mem_allForms_of_marker? {m : Marker} (h : t.marker? s = some m) :
    (m.status, m.form) ∈ t.allForms ∧ m.form <+: s := by
  unfold marker? longestForm? at h
  obtain ⟨e, he, rfl⟩ := Option.map_eq_some_iff.1 h
  rcases mem_of_foldl_longer he with he | he
  · simp at he
  · obtain ⟨hmem, hform⟩ := List.mem_filter.1 he
    rw [Bool.and_eq_true, List.isPrefixOf_iff_prefix] at hform
    exact ⟨hmem, hform.2⟩

theorem status_mem_names {m : Marker} (h : t.marker? s = some m) : m.status ∈ t.names := by
  obtain ⟨row, hrow, hname, -⟩ := mem_allForms_iff.1 (mem_allForms_of_marker? h).1
  exact List.mem_map.2 ⟨row, hrow, hname⟩

/-! ## Names of statuses -/

theorem exists_declared_of_canonical? {n : Text} (h : t.canonical? s = some n) :
    ∃ row ∈ t.declared, row.1 = n := by
  obtain ⟨row, hrow, hn⟩ := Option.map_eq_some_iff.1 h
  exact ⟨row, List.mem_reverse.1 (List.mem_of_find?_eq_some hrow), hn⟩

theorem canonical_of_canonical?_eq_none (h : t.canonical? s = none) : t.canonical s = s := by
  simp [canonical, h]

/-- A table knows the names it declares. -/
theorem canonical?_name_isSome {row : Text × List Text} (h : row ∈ t.declared) :
    (t.canonical? row.1).isSome := by
  unfold canonical?
  rw [Option.isSome_map, List.find?_isSome]
  exact ⟨row, List.mem_reverse.2 h, by simp⟩

theorem exists_declared_of_mem_names {n : Text} (h : n ∈ t.names) :
    ∃ row ∈ t.declared, row.1 = n := by
  rw [names_eq, List.mem_eraseDups] at h
  exact List.mem_map.1 h

/-- A status that the table does not know is written in no form. -/
theorem written?_eq_none (h : t.canonical? s = none) : t.written? (t.canonical s) = none := by
  rw [canonical_of_canonical?_eq_none h]
  unfold written? forms?
  rw [Option.bind_eq_none_iff]
  intro forms hforms
  obtain ⟨row, hrow, -⟩ := Option.map_eq_some_iff.1 hforms
  have hname : row.1 = s := by simpa using List.find?_some hrow
  obtain ⟨row', hmem, heq⟩ := exists_declared_of_mem_names (t := t) (n := s)
    (hname ▸ List.mem_map_of_mem (List.mem_of_find?_eq_some hrow))
  have hknown := canonical?_name_isSome hmem
  rw [heq, h] at hknown
  simp at hknown

/-- A written form is a form. -/
theorem mem_allForms_of_written? {n m : Text} (h : t.written? n = some m) :
    ∃ e ∈ t.allForms, e.2 = m := by
  obtain ⟨forms, hforms, hhead⟩ := Option.bind_eq_some_iff.1 h
  obtain ⟨row, hrow, rfl⟩ := Option.map_eq_some_iff.1 hforms
  refine ⟨(row.1, m), mem_allForms_iff.2 ⟨row, ?_, rfl, List.mem_of_head? hhead⟩, rfl⟩
  exact List.mem_of_find?_eq_some hrow

/-- A table whose forms are single lines. -/
def HasLines (t : StatusTable) : Prop := ∀ e ∈ t.allForms, '\n' ∉ e.2

/-! ## The built-in table -/

theorem hasLines_builtIn : builtIn.HasLines := by
  unfold HasLines
  decide

/-- Names and written forms of the built-in statuses. -/
def glyphs : List (Text × Char) :=
  [("complete", '✅'), ("in_progress", '🔄'), ("pending", '⏳'), ("blocked", '🚫'), ("failed", '❌'),
   ("cancelled", '⊘')]

theorem exists_glyph_of_declared {row : Text × List Text} (h : row ∈ builtIn.declared) :
    ∃ c, (row.1, c) ∈ glyphs := by
  have hall : ∀ row ∈ builtIn.declared, glyphs.any fun p ↦ p.1 = row.1 := by decide
  obtain ⟨p, hp, heq⟩ := List.any_eq_true.1 (hall row h)
  refine ⟨p.2, ?_⟩
  rw [← of_decide_eq_true heq]
  exact hp

theorem written?_builtIn {n : Text} {c : Char} (h : (n, c) ∈ glyphs) :
    builtIn.written? (builtIn.canonical n) = some [c] ∧ builtIn.canonical n = n := by
  have hall : ∀ p ∈ glyphs,
      builtIn.written? (builtIn.canonical p.1) = some [p.2] ∧ builtIn.canonical p.1 = p.1 := by
    decide
  exact hall (n, c) h

/-- A glyph with a space behind it is read as the status it is written for. -/
theorem marker?_glyph {n : Text} {c : Char} (h : (n, c) ∈ glyphs) (r : Text) :
    builtIn.marker? (c :: ' ' :: r) = some ⟨n, [c], Text.trimStart (' ' :: r)⟩ := by
  simp only [glyphs, List.mem_cons, Prod.mk.injEq, List.not_mem_nil, or_false] at h
  rcases h with ⟨rfl, rfl⟩ | ⟨rfl, rfl⟩ | ⟨rfl, rfl⟩ | ⟨rfl, rfl⟩ | ⟨rfl, rfl⟩ | ⟨rfl, rfl⟩ <;> rfl

theorem isBlank_glyph {n : Text} {c : Char} (h : (n, c) ∈ glyphs) :
    Text.isBlank c = false ∧ c ≠ '\n' := by
  have hall : ∀ p ∈ glyphs, Text.isBlank p.2 = false ∧ p.2 ≠ '\n' := by decide
  exact hall (n, c) h

/-- A canonical status of the built-in table is one of the six, or unknown. -/
theorem exists_glyph_of_canonical (h : builtIn.canonical s = s)
    (hknown : builtIn.canonical? s ≠ none) :
    ∃ c, (s, c) ∈ glyphs := by
  obtain ⟨n, hn⟩ := Option.ne_none_iff_exists'.1 hknown
  have hs : s = n := by
    rw [← h]
    simp [canonical, hn]
  obtain ⟨row, hrow, rfl⟩ := exists_declared_of_canonical? hn
  rw [hs]
  exact exists_glyph_of_declared hrow

theorem canonical_canonical_builtIn (s : Text) :
    builtIn.canonical (builtIn.canonical s) = builtIn.canonical s := by
  cases h : builtIn.canonical? s with
  | none => rw [canonical_of_canonical?_eq_none h, canonical_of_canonical?_eq_none h]
  | some n =>
    obtain ⟨row, hrow, rfl⟩ := exists_declared_of_canonical? h
    obtain ⟨c, hc⟩ := exists_glyph_of_declared hrow
    have hs : builtIn.canonical s = row.1 := by simp [canonical, h]
    rw [hs]
    exact (written?_builtIn hc).2

theorem canonical_of_mem_names_builtIn {n : Text} (h : n ∈ builtIn.names) :
    builtIn.canonical n = n := by
  obtain ⟨row, hrow, rfl⟩ := exists_declared_of_mem_names h
  obtain ⟨c, hc⟩ := exists_glyph_of_declared hrow
  exact (written?_builtIn hc).2

end Markbook.StatusTable
