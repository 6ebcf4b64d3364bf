import Markbook.Dialect.Write
import Markbook.Proofs.Dialect.Told
import Markbook.Proofs.TextMap

/-!
# Legal Fields

A field is legal in a line dialect when its key and its value are trimmed lines without the marks of
that dialect.  Legal fields are read back from the lines that are written for them
(`Dialect.entries_writtenLines`), and a line dialect reads legal fields only
(`Dialect.legal_of_mem_entries`).  The fenced dialect is YAML, where this module says nothing.
-/

namespace Markbook.Dialect

/-- A key and a value that stay what they are when blanks around them are dropped and lines cut. -/
structure IsField (e : Text × Text) : Prop where
  key_ne : e.1 ≠ []
  key_trimmed : e.1.IsTrimmed
  key_line : '\n' ∉ e.1
  value_trimmed : e.2.IsTrimmed
  value_line : '\n' ∉ e.2

/-- The marks of a dialect do not occur in a field. -/
def IsFree (d : Dialect) (e : Text × Text) : Prop :=
  match d with
  | .colons => ¬ mark <:+: e.1 ∧ (e.2 = [] → e.1.head? ≠ some '#')
  | .packed => ',' ∉ e.1 ∧ ':' ∉ e.1 ∧ ',' ∉ e.2
  | .table => '|' ∉ e.1 ∧ '|' ∉ e.2
  | .fenced => True

/-- A field that the dialect can hold. -/
structure Legal (d : Dialect) (e : Text × Text) : Prop extends IsField e where
  free : d.IsFree e

instance (e : Text × Text) : Decidable (IsField e) :=
  decidable_of_iff
    (e.1 ≠ [] ∧ e.1.IsTrimmed ∧ '\n' ∉ e.1 ∧ e.2.IsTrimmed ∧ '\n' ∉ e.2)
    ⟨fun ⟨h1, h2, h3, h4, h5⟩ ↦ ⟨h1, h2, h3, h4, h5⟩,
      fun ⟨h1, h2, h3, h4, h5⟩ ↦ ⟨h1, h2, h3, h4, h5⟩⟩

instance (d : Dialect) (e : Text × Text) : Decidable (d.IsFree e) :=
  match d with
  | .colons => inferInstanceAs (Decidable (¬ mark <:+: e.1 ∧ (e.2 = [] → e.1.head? ≠ some '#')))
  | .packed => inferInstanceAs (Decidable (',' ∉ e.1 ∧ ':' ∉ e.1 ∧ ',' ∉ e.2))
  | .table => inferInstanceAs (Decidable ('|' ∉ e.1 ∧ '|' ∉ e.2))
  | .fenced => inferInstanceAs (Decidable True)

instance (d : Dialect) (e : Text × Text) : Decidable (d.Legal e) :=
  decidable_of_iff (IsField e ∧ d.IsFree e) ⟨fun ⟨h1, h2⟩ ↦ ⟨h1, h2⟩, fun ⟨h1, h2⟩ ↦ ⟨h1, h2⟩⟩

variable {e : Text × Text}

theorem IsField.head?_append (h : IsField e) (r : Text) : (e.1 ++ r).head? = e.1.head? :=
  List.head?_append_of_ne_nil _ h.key_ne

theorem IsField.head_not_blank (h : IsField e) (r : Text) :
    ∀ c ∈ (e.1 ++ r).head?, Text.isBlank c = false := by
  rw [h.head?_append]
  exact (Text.isTrimmed_iff.1 h.key_trimmed).1

theorem field?_eq_some_iff {key value : Text} :
    field? key value = some e ↔ Text.trim key ≠ [] ∧ e = (Text.trim key, Text.trim value) := by
  unfold field?
  by_cases h : Text.trim key = []
  · simp [h]
  · simp only [List.isEmpty_iff, h, if_false, Option.some.injEq, ne_eq, not_false_eq_true, true_and]
    exact eq_comm

theorem IsField.field?_eq (h : IsField e) : field? e.1 e.2 = some e := by
  have hkey : Text.trim e.1 = e.1 := h.key_trimmed
  have hvalue : Text.trim e.2 = e.2 := h.value_trimmed
  rw [field?_eq_some_iff, hkey, hvalue]
  exact ⟨h.key_ne, rfl⟩

/-! ## One key a line -/

theorem bareKey?_eq_some_iff {line key : Text} :
    bareKey? line = some key ↔ line.head? ≠ some '#' ∧ line = key ++ [':', ':'] := by
  unfold bareKey?
  by_cases h : line.head? = some '#'
  · simp [h]
  · rw [if_neg h, Text.before?_eq_some_iff]
    exact (and_iff_right h).symm

/-- A line is cut at its first mark; without a mark it can be a bare key. -/
theorem colonsField?_eq_some_iff {l : Text} :
    colonsField? l = some e ↔
      (∃ key value, Text.cut? mark (Text.trim l) = some (key, value) ∧ field? key value = some e) ∨
      (Text.cut? mark (Text.trim l) = none ∧
        ∃ key, bareKey? (Text.trim l) = some key ∧ field? key [] = some e) := by
  unfold colonsField?
  simp only
  cases Text.cut? mark (Text.trim l) with
  | some p => simp [Prod.ext_iff]
  | none => simp [Option.bind_eq_some_iff]

/-- A line that holds a field begins with its key, and a colon comes next. -/
theorem exists_key_of_colonsField? {l : Text} (h : colonsField? l = some e) :
    ∃ key rest, Text.trim l = key ++ ':' :: rest ∧ Text.trim key = e.1 := by
  rcases colonsField?_eq_some_iff.1 h with ⟨key, value, hcut, hfield⟩ | ⟨-, key, hbare, hfield⟩
  · obtain ⟨-, rfl⟩ := field?_eq_some_iff.1 hfield
    refine ⟨key, ':' :: ' ' :: value, ?_, rfl⟩
    rw [Text.eq_of_cut? hcut, List.append_assoc]
    rfl
  · obtain ⟨-, rfl⟩ := field?_eq_some_iff.1 hfield
    exact ⟨key, [':'], (bareKey?_eq_some_iff.1 hbare).2, rfl⟩

/-- A key with the mark behind it has no earlier mark than that. -/
theorem cut?_mark {a : Text} (h : ¬ mark <:+: a) (b : Text) :
    Text.cut? mark (a ++ mark ++ b) = some (a, b) := by
  refine Text.cut?_eq_some_iff.2 ⟨rfl, fun k hk hp ↦ h ?_⟩
  rw [List.append_assoc, List.drop_append_of_le_length hk.le] at hp
  -- What is left of the key decides: a mark that straddles its end would have a colon for a space.
  match hx : a.drop k with
  | [] =>
    rw [List.drop_eq_nil_iff] at hx
    omega
  | [c] =>
    rw [hx] at hp
    simp [mark] at hp
  | [c, c'] =>
    rw [hx] at hp
    simp [mark] at hp
  | c :: c' :: c'' :: r =>
    have hmark : mark <+: a.drop k := by
      rw [hx]
      rw [hx] at hp
      exact List.prefix_of_prefix_length_le hp (List.prefix_append _ _) (by simp [mark])
    exact hmark.isInfix.trans (List.drop_suffix _ _).isInfix

theorem mark_infix_concat_colon {a : Text} (h : mark <:+: a ++ [':']) : mark <:+: a := by
  rw [List.infix_concat_iff] at h
  rcases h with h | h
  · obtain ⟨t, ht⟩ := h
    have := congrArg List.getLast? ht
    simp [mark] at this
  · exact h

theorem cut?_mark_bare {a : Text} (h : ¬ mark <:+: a) :
    Text.cut? mark (a ++ [':', ':']) = none := by
  rw [Text.cut?_eq_none_iff]
  intro hmark
  rw [show a ++ [':', ':'] = a ++ [':'] ++ [':'] by simp] at hmark
  exact h (mark_infix_concat_colon (mark_infix_concat_colon hmark))

theorem colonsLine_of_eq_nil (h : e.2 = []) : colonsLine e = e.1 ++ [':', ':'] := by
  simp [colonsLine, h]

theorem colonsLine_of_ne_nil (h : e.2 ≠ []) : colonsLine e = e.1 ++ mark ++ e.2 := by
  simp [colonsLine, h]

theorem isTrimmed_colonsLine (h : IsField e) : (colonsLine e).IsTrimmed := by
  rw [Text.isTrimmed_iff]
  by_cases hempty : e.2 = []
  · rw [colonsLine_of_eq_nil hempty]
    refine ⟨h.head_not_blank _, ?_⟩
    intro c hc
    simp at hc
    subst hc
    decide
  · rw [colonsLine_of_ne_nil hempty, List.getLast?_append_of_ne_nil _ hempty, List.append_assoc]
    exact ⟨h.head_not_blank _, (Text.isTrimmed_iff.1 h.value_trimmed).2⟩

theorem newline_not_mem_colonsLine (h : IsField e) : '\n' ∉ colonsLine e := by
  unfold colonsLine mark
  split <;> simp [h.key_line, h.value_line]

theorem cut?_colonsLine_of_eq_nil (h : Legal .colons e) (hempty : e.2 = []) :
    Text.cut? mark (colonsLine e) = none ∧ bareKey? (colonsLine e) = some e.1 := by
  rw [colonsLine_of_eq_nil hempty]
  refine ⟨cut?_mark_bare h.free.1, bareKey?_eq_some_iff.2 ⟨?_, rfl⟩⟩
  rw [h.head?_append]
  exact h.free.2 hempty

theorem cut?_colonsLine_of_ne_nil (h : Legal .colons e) (hne : e.2 ≠ []) :
    Text.cut? mark (colonsLine e) = some e := by
  rw [colonsLine_of_ne_nil hne]
  exact cut?_mark h.free.1 e.2

theorem colonsField?_colonsLine (h : Legal .colons e) : colonsField? (colonsLine e) = some e := by
  have hline : Text.trim (colonsLine e) = colonsLine e := isTrimmed_colonsLine h.toIsField
  unfold colonsField?
  simp only [hline]
  by_cases hempty : e.2 = []
  · obtain ⟨hcut, hbare⟩ := cut?_colonsLine_of_eq_nil h hempty
    rw [hcut, hbare, Option.bind_some, ← hempty]
    exact h.field?_eq
  · rw [cut?_colonsLine_of_ne_nil h hempty]
    exact h.field?_eq

/-! ## Packed lines -/

theorem isTrimmed_packedPair (h : IsField e) : (packedPair e).IsTrimmed := by
  rw [Text.isTrimmed_iff]
  unfold packedPair
  refine ⟨h.head_not_blank _, ?_⟩
  by_cases hvalue : e.2 = []
  · rw [hvalue]
    intro c hc
    simp at hc
    subst hc
    decide
  · rw [show e.1 ++ ':' :: e.2 = e.1 ++ [':'] ++ e.2 by simp,
      List.getLast?_append_of_ne_nil _ hvalue]
    exact (Text.isTrimmed_iff.1 h.value_trimmed).2

/-- A pair as the reader takes it apart, blanks in front of it aside. -/
theorem packedField?_packedPair (h : Legal .packed e) (blanks : Text)
    (hblanks : ∀ c ∈ blanks, Text.isBlank c) : packedField? (blanks ++ packedPair e) = some e := by
  obtain ⟨-, hcolon, -⟩ := h.free
  have hpair : Text.trim (packedPair e) = packedPair e := isTrimmed_packedPair h.toIsField
  have htrim : Text.trim (blanks ++ packedPair e) = packedPair e := by
    have := Text.trim_append_blank hblanks (b := []) (by simp) (packedPair e)
    rw [List.append_nil] at this
    rw [this, hpair]
  unfold packedField?
  rw [htrim]
  unfold packedPair
  rw [Text.cut?_single hcolon, Option.bind_some, h.field?_eq]

theorem comma_not_mem_packedPair (h : Legal .packed e) : ',' ∉ packedPair e := by
  obtain ⟨hkey, -, hvalue⟩ := h.free
  unfold packedPair
  simp [hkey, hvalue]

/-- Cutting at commas undoes the joining, but for the space behind a comma. -/
theorem pieces_join {p : Text} {ps : List Text} (h : ∀ q ∈ p :: ps, ',' ∉ q) :
    Text.pieces ',' (Text.join [',', ' '] (p :: ps)) = p :: ps.map (' ' :: ·) := by
  induction ps generalizing p with
  | nil => exact Text.pieces_of_not_mem (h p List.mem_cons_self)
  | cons q qs ih =>
    have hq : ∀ x ∈ q :: qs, ',' ∉ x := fun x hx ↦ h x (List.mem_cons_of_mem _ hx)
    have hspace : Text.pieces ',' (' ' :: Text.join [',', ' '] (q :: qs)) =
        (' ' :: q) :: qs.map (' ' :: ·) := by
      rw [Text.pieces, if_neg (by decide), ih hq]
    rw [Text.join_cons (by simp)]
    rw [show p ++ [',', ' '] ++ Text.join [',', ' '] (q :: qs) =
      p ++ ',' :: (' ' :: Text.join [',', ' '] (q :: qs)) by simp]
    rw [Text.pieces_append (h p List.mem_cons_self), hspace, List.map_cons]

/-- The text of a packed line behind its mark. -/
theorem filterMap_pieces {l : List (Text × Text)} (h : ∀ e ∈ l, Legal .packed e) (hne : l ≠ []) :
    (Text.pieces ',' (Text.join [',', ' '] (l.map packedPair))).filterMap packedField? = l := by
  obtain ⟨e, r, rfl⟩ := List.exists_cons_of_ne_nil hne
  rw [List.map_cons, pieces_join]
  · have hfirst : packedField? (packedPair e) = some e :=
      packedField?_packedPair (h e List.mem_cons_self) [] (by simp)
    have hrest : r.filterMap (fun e ↦ packedField? (' ' :: packedPair e)) = r := by
      conv_rhs => rw [← List.filterMap_some (l := r)]
      refine List.filterMap_congr fun e he ↦ ?_
      exact packedField?_packedPair (h e (List.mem_cons_of_mem _ he)) [' ']
        (by simp [Text.isBlank_space])
    rw [List.filterMap_cons_some hfirst, List.map_map, List.filterMap_map]
    simpa [Function.comp_def] using hrest
  · intro q hq
    rw [← List.map_cons] at hq
    obtain ⟨e', he', rfl⟩ := List.mem_map.1 hq
    exact comma_not_mem_packedPair (h e' he')

/-- The packed line of some fields. -/
def packedLine (l : List (Text × Text)) : Text := mark ++ Text.join [',', ' '] (l.map packedPair)

theorem isTrimmed_packedLine {l : List (Text × Text)} (h : ∀ e ∈ l, IsField e) (hne : l ≠ []) :
    (packedLine l).IsTrimmed := by
  obtain ⟨r, e, rfl⟩ := (List.eq_nil_or_concat l).resolve_left hne
  rw [List.concat_eq_append] at h ⊢
  obtain ⟨a, ha⟩ := Text.exists_join_concat [',', ' '] (r.map packedPair) (packedPair e)
  have hpair : packedPair e ≠ [] := by simp [packedPair]
  rw [Text.isTrimmed_iff]
  unfold packedLine
  rw [List.map_append, List.map_singleton, ha, ← List.append_assoc,
    List.getLast?_append_of_ne_nil _ hpair]
  refine ⟨?_, (Text.isTrimmed_iff.1 (isTrimmed_packedPair (h e (by simp)))).2⟩
  intro c hc
  simp [mark] at hc
  subst hc
  decide

/-! ## Tables -/

theorem tableLine_eq (e : Text × Text) :
    tableLine e = '|' :: (' ' :: e.1 ++ [' ', '|', ' '] ++ e.2 ++ [' ']) ++ ['|'] := by
  simp [tableLine]

theorem isRow_tableLine (e : Text × Text) : isRow (tableLine e) = true := by
  rw [tableLine_eq]
  unfold isRow
  rw [List.getLast?_concat]
  simp

theorem isTrimmed_tableLine (e : Text × Text) : (tableLine e).IsTrimmed := by
  rw [tableLine_eq]
  exact Text.IsTrimmed.cons_append (by decide) (by decide)

theorem cells_tableLine (h : Legal .table e) : cells (tableLine e) = [[], e.1, e.2, []] := by
  obtain ⟨hkey, hvalue⟩ := h.free
  have hspaced (s : Text) (hs : s.IsTrimmed) : Text.trim (' ' :: s ++ [' ']) = s := by
    have hblank : ∀ c ∈ [' '], Text.isBlank c := by simp [Text.isBlank_space]
    have := Text.trim_append_blank hblank hblank s
    rw [List.singleton_append] at this
    rw [this, hs]
  have hline : tableLine e =
      [] ++ '|' :: ((' ' :: e.1 ++ [' ']) ++ '|' :: ((' ' :: e.2 ++ [' ']) ++ '|' :: [])) := by
    simp [tableLine]
  unfold cells
  rw [hline, Text.pieces_append (by simp), Text.pieces_append (by simp [hkey]),
    Text.pieces_append (by simp [hvalue])]
  simp only [List.map_cons, hspaced _ h.key_trimmed, hspaced _ h.value_trimmed]
  rfl

/-- Written rows are read up to the first line that is no row. -/
theorem tableEntries_ruled_append {l : List (Text × Text)} (h : ∀ e ∈ l, Legal .table e)
    {c : List Text} (hc : ∀ x ∈ c.head?, isRow (Text.trim x) = false) :
    tableEntries .ruled (l.map tableLine ++ c) = l := by
  induction l with
  | nil =>
    cases c with
    | nil => rfl
    | cons x r =>
      have hx : isRow (Text.trim x) = false := hc x (by simp)
      simp [tableEntries, hx]
  | cons e r ih =>
    rw [List.forall_mem_cons] at h
    have htrim : Text.trim (tableLine e) = tableLine e := isTrimmed_tableLine e
    have hrest := ih h.2
    simp only [List.map_cons, List.cons_append, tableEntries, htrim, isRow_tableLine,
      cells_tableLine h.1, hrest]
    simp [rowField?, h.1.key_ne]

/-- The header of a written table. -/
def tableHead : Text := "| Field | Value |"

/-- The rule under that header. -/
def tableRule : Text := "|-------|-------|"

theorem tableEntries_headed (ls : List Text) :
    tableEntries .outside (tableHead :: tableRule :: ls) = tableEntries .ruled ls := by
  have hhead : Text.trim tableHead = tableHead ∧ isRow tableHead = true ∧
      ¬ (cells tableHead).length < 4 := by decide
  have hrule : Text.trim tableRule = tableRule ∧ isRow tableRule = true ∧
      ¬ (cells tableRule).length < 4 ∧ isRule (cells tableRule) = true := by decide
  simp only [tableEntries, hhead.1, hhead.2.1, hhead.2.2, hrule.1, hrule.2.1, hrule.2.2.1,
    hrule.2.2.2, Bool.not_true, Bool.false_eq_true, if_false, if_true]

theorem byLowerKey_perm (fields : Fields) : (byLowerKey fields).Perm fields.entries := by
  unfold byLowerKey
  refine ((List.mergeSort_perm _ _).map _).trans ?_
  rw [List.map_map]
  exact List.Perm.of_eq (List.map_id _)

/-! ## Written blocks -/

variable {fields : Fields}

theorem legal_byLowerKey {d : Dialect} (h : ∀ e ∈ fields.entries, d.Legal e) :
    ∀ e ∈ byLowerKey fields, d.Legal e :=
  fun e he ↦ h e ((byLowerKey_perm fields).mem_iff.1 he)

/-- A written table is read on its own when no row is right behind it. -/
theorem entries_table_append (h : ∀ e ∈ fields.entries, Legal .table e) {c : List Text}
    (hc : ∀ x ∈ c.head?, isRow (Text.trim x) = false) :
    Dialect.table.entries (Dialect.table.writtenLines fields ++ c) = byLowerKey fields := by
  have hread : tableEntries .outside
      (tableHead :: tableRule :: ((byLowerKey fields).map tableLine ++ c)) = byLowerKey fields := by
    rw [tableEntries_headed, tableEntries_ruled_append (legal_byLowerKey h) hc]
  exact hread

/-- The written lines of legal fields hold these fields. -/
theorem entries_writtenLines {d : Dialect} (hd : d ≠ .fenced)
    (h : ∀ e ∈ fields.entries, d.Legal e) (hne : fields.entries ≠ []) :
    (d.entries (d.writtenLines fields)).Perm fields.entries := by
  cases d with
  | fenced => exact absurd rfl hd
  | colons =>
    unfold entries writtenLines
    rw [List.filterMap_map]
    refine List.Perm.of_eq ?_
    conv_rhs => rw [← List.filterMap_some (l := fields.entries)]
    exact List.filterMap_congr fun e he ↦ colonsField?_colonsLine (h e he)
  | packed =>
    have hline : Text.trim (packedLine fields.entries) = packedLine fields.entries :=
      isTrimmed_packedLine (fun e he ↦ (h e he).toIsField) hne
    have hentries : packedEntries (packedLine fields.entries) = fields.entries := by
      unfold packedEntries
      rw [hline, packedLine, Text.after?_eq_some_iff.2 rfl]
      exact filterMap_pieces h hne
    refine List.Perm.of_eq ?_
    simpa [entries, writtenLines, packedLine] using hentries
  | table =>
    have hread := entries_table_append h (c := []) (by simp)
    rw [List.append_nil] at hread
    rw [hread]
    exact byLowerKey_perm fields

/-- A line written in a line dialect holds one field or all of them, or belongs to a table. -/
theorem forall_mem_writtenLines {d : Dialect} {p : Text → Prop} (hd : d ≠ .fenced)
    (hcolons : d = .colons → ∀ e ∈ fields.entries, p (colonsLine e))
    (hpacked : d = .packed → p (packedLine fields.entries))
    (htable : d = .table → p tableHead ∧ p tableRule ∧ ∀ e ∈ fields.entries, p (tableLine e)) :
    ∀ l ∈ d.writtenLines fields, p l := by
  cases d with
  | fenced => exact absurd rfl hd
  | colons =>
    intro l hl
    obtain ⟨e, he, rfl⟩ := List.mem_map.1 hl
    exact hcolons rfl e he
  | packed =>
    intro l hl
    obtain rfl : l = packedLine fields.entries := List.mem_singleton.1 hl
    exact hpacked rfl
  | table =>
    obtain ⟨hhead, hrule, hrow⟩ := htable rfl
    refine List.forall_mem_cons.2 ⟨hhead, List.forall_mem_cons.2 ⟨hrule, fun l hl ↦ ?_⟩⟩
    obtain ⟨e, he, rfl⟩ := List.mem_map.1 hl
    exact hrow e ((byLowerKey_perm fields).mem_iff.1 he)

theorem newline_not_mem_packedLine (h : ∀ e ∈ fields.entries, IsField e) :
    '\n' ∉ packedLine fields.entries := by
  intro hmem
  rcases List.mem_append.1 hmem with hmem | hmem
  · simp [mark] at hmem
  · rcases Text.mem_join hmem with hmem | ⟨p, hp, hmem⟩
    · simp at hmem
    · obtain ⟨e, he, rfl⟩ := List.mem_map.1 hp
      simp [packedPair, (h e he).key_line, (h e he).value_line] at hmem

/-- Each written line stays the line it is, even with marks of the dialect in it. -/
theorem isLine_of_mem_writtenLines {d : Dialect} (hd : d ≠ .fenced)
    (h : ∀ e ∈ fields.entries, IsField e) (hne : fields.entries ≠ []) :
    ∀ l ∈ d.writtenLines fields, l.IsLine := by
  refine forall_mem_writtenLines hd (fun _ e he ↦ ?_) (fun _ ↦ ?_)
    fun _ ↦ ⟨⟨by decide, by decide⟩, ⟨by decide, by decide⟩, fun e he ↦ ?_⟩
  · exact Text.isLine_of_isTrimmed (isTrimmed_colonsLine (h e he))
      (newline_not_mem_colonsLine (h e he))
  · exact Text.isLine_of_isTrimmed (isTrimmed_packedLine h hne) (newline_not_mem_packedLine h)
  · refine Text.isLine_of_isTrimmed (isTrimmed_tableLine e) ?_
    simp [tableLine, (h e he).key_line, (h e he).value_line]

/-! ## Fields as they are read -/

theorem isField_of_field? {key value : Text} (hkey : '\n' ∉ key) (hvalue : '\n' ∉ value)
    (h : field? key value = some e) : IsField e ∧ e = (Text.trim key, Text.trim value) := by
  obtain ⟨hne, rfl⟩ := field?_eq_some_iff.1 h
  exact ⟨⟨hne, Text.isTrimmed_trim key, fun hmem ↦ hkey (Text.mem_of_mem_trim hmem),
    Text.isTrimmed_trim value, fun hmem ↦ hvalue (Text.mem_of_mem_trim hmem)⟩, rfl⟩

/-- A trimmed line does not end with a blank, so something is left of the value behind a mark. -/
theorem trim_ne_nil_of_mark {a b : Text} (h : (a ++ mark ++ b).IsTrimmed) : Text.trim b ≠ [] := by
  intro hnil
  have hb : b = [] := by
    rw [← h.trimEnd_of_append]
    exact Text.trimEnd_append_blank (Text.trim_eq_nil_iff.1 hnil) []
  rw [hb, List.append_nil] at h
  have hlast := (Text.isTrimmed_iff.1 h).2 ' ' (by simp [mark])
  simp [Text.isBlank_space] at hlast

theorem legal_of_cut?_mark {s key value : Text} (hs : s.IsTrimmed) (hline : '\n' ∉ s)
    (hcut : Text.cut? mark s = some (key, value)) (h : field? key value = some e) :
    Legal .colons e := by
  obtain rfl := Text.eq_of_cut? hcut
  obtain ⟨hfield, rfl⟩ := isField_of_field? (fun hmem ↦ hline (by simp [hmem]))
    (fun hmem ↦ hline (by simp [hmem])) h
  refine ⟨hfield, fun hmark ↦ ?_, fun hempty ↦ absurd hempty (trim_ne_nil_of_mark hs)⟩
  exact Text.not_infix_of_cut? (by simp [mark]) hcut (hmark.trans (Text.trim_isInfix key))

theorem legal_of_bareKey? {s key : Text} (hs : s.IsTrimmed) (hline : '\n' ∉ s)
    (hcut : Text.cut? mark s = none) (hbare : bareKey? s = some key)
    (h : field? key [] = some e) : Legal .colons e := by
  obtain ⟨hhash, rfl⟩ := bareKey?_eq_some_iff.1 hbare
  obtain ⟨hfield, rfl⟩ := isField_of_field? (fun hmem ↦ hline (by simp [hmem])) (by simp) h
  refine ⟨hfield, fun hmark ↦ ?_, fun _ hhead ↦ hhash ?_⟩
  · have hin : mark <:+: key ++ [':', ':'] :=
      (hmark.trans (Text.trim_isInfix key)).trans (List.prefix_append _ _).isInfix
    exact Text.cut?_eq_none_iff.1 hcut hin
  · -- A trimmed line starts as its key does.
    have hkey : Text.trim key = Text.trimEnd key := by rw [Text.trim, hs.trimStart_of_append]
    have hkeyne : Text.trimEnd key ≠ [] := hkey ▸ hfield.key_ne
    have hne : key ≠ [] := by
      rintro rfl
      exact hkeyne rfl
    rw [List.head?_append_of_ne_nil _ hne, ← Text.head?_trimEnd hkeyne, ← hkey]
    exact hhead

theorem legal_of_colonsField? {l : Text} (hl : '\n' ∉ l) (h : colonsField? l = some e) :
    Legal .colons e := by
  have htrimmed := Text.isTrimmed_trim l
  have hline : '\n' ∉ Text.trim l := fun hmem ↦ hl (Text.mem_of_mem_trim hmem)
  rcases colonsField?_eq_some_iff.1 h with ⟨key, value, hcut, hfield⟩ | ⟨hcut, key, hbare, hfield⟩
  · exact legal_of_cut?_mark htrimmed hline hcut hfield
  · exact legal_of_bareKey? htrimmed hline hcut hbare hfield

theorem legal_of_mem_packedEntries {l : Text} (hl : '\n' ∉ l) (h : e ∈ packedEntries l) :
    Legal .packed e := by
  unfold packedEntries at h
  split at h
  · next rest hafter =>
    obtain ⟨pair, hpair, hread⟩ := List.mem_filterMap.1 h
    obtain ⟨hcomma, hsub⟩ := Text.mem_pieces hpair
    have heq := Text.after?_eq_some_iff.1 hafter
    have hrest : '\n' ∉ rest := by
      intro hmem
      refine hl (Text.mem_of_mem_trim (s := l) ?_)
      rw [heq]
      exact List.mem_append_right _ hmem
    unfold packedField? at hread
    obtain ⟨p, hcut, hfield⟩ := Option.bind_eq_some_iff.1 hread
    obtain ⟨key, value⟩ := p
    have hparts := Text.eq_of_cut? hcut
    have hcolon : ':' ∉ key := by
      have := Text.not_infix_of_cut? (by simp) hcut
      exact Text.cut?_single_eq_none.1 (Text.cut?_eq_none_iff.2 this)
    have hmem {c : Char} (hc : c ∈ key ∨ c ∈ value) : c ∈ pair := by
      refine Text.mem_of_mem_trim ?_
      rw [hparts]
      rcases hc with hc | hc <;> simp [hc]
    obtain ⟨hfield, rfl⟩ := isField_of_field? (fun hn ↦ hrest (hsub (hmem (.inl hn))))
      (fun hn ↦ hrest (hsub (hmem (.inr hn)))) hfield
    refine ⟨hfield, ?_, ?_, ?_⟩
    · exact fun hc ↦ hcomma (hmem (.inl (Text.mem_of_mem_trim hc)))
    · exact fun hc ↦ hcolon (Text.mem_of_mem_trim hc)
    · exact fun hc ↦ hcomma (hmem (.inr (Text.mem_of_mem_trim hc)))
  · simp at h

theorem legal_of_rowField? {l : Text} (hl : '\n' ∉ l) (h : rowField? (cells l) = some e) :
    Legal .table e := by
  have hcell : ∀ c ∈ cells l, c.IsTrimmed ∧ '\n' ∉ c ∧ '|' ∉ c := by
    intro c hc
    obtain ⟨p, hp, rfl⟩ := List.mem_map.1 hc
    obtain ⟨hbar, hsub⟩ := Text.mem_pieces hp
    exact ⟨Text.isTrimmed_trim p, fun hn ↦ hl (hsub (Text.mem_of_mem_trim hn)),
      fun hb ↦ hbar (Text.mem_of_mem_trim hb)⟩
  unfold rowField? at h
  split at h
  · next first key value rest hcells =>
    split at h
    · simp at h
    · next hne =>
      obtain rfl := Option.some.inj h
      have hkey := hcell key (by simp [hcells])
      have hvalue := hcell value (by simp [hcells])
      exact ⟨⟨by simpa using hne, hkey.1, hkey.2.1, hvalue.1, hvalue.2.1⟩, hkey.2.2, hvalue.2.2⟩
  · simp at h

theorem legal_of_mem_tableEntries {ls : List Text} (hls : ∀ l ∈ ls, '\n' ∉ l) {state : TableState}
    (h : e ∈ tableEntries state ls) : Legal .table e := by
  induction ls generalizing state with
  | nil => cases state <;> simp [tableEntries] at h
  | cons l r ih =>
    rw [List.forall_mem_cons] at hls
    have hl : '\n' ∉ Text.trim l := fun hmem ↦ hls.1 (Text.mem_of_mem_trim hmem)
    have hrow : e ∈ (rowField? (cells (Text.trim l))).toList → Legal .table e :=
      fun he ↦ legal_of_rowField? hl (by simpa using he)
    have hrest {state : TableState} (he : e ∈ tableEntries state r) : Legal .table e := ih hls.2 he
    cases state <;> simp only [tableEntries] at h <;> split at h
    · exact hrest h
    · split at h <;> exact hrest h
    · simp at h
    · split at h
      · exact hrest h
      · split at h
        · exact hrest h
        · exact (List.mem_append.1 h).elim hrow hrest
    · simp at h
    · split at h
      · exact hrest h
      · exact (List.mem_append.1 h).elim hrow hrest

/-- A line dialect reads legal fields. -/
theorem legal_of_mem_entries {d : Dialect} (hd : d ≠ .fenced) {ls : List Text}
    (hls : ∀ l ∈ ls, '\n' ∉ l) (h : e ∈ d.entries ls) : d.Legal e := by
  cases d with
  | fenced => exact absurd rfl hd
  | colons =>
    obtain ⟨l, hl, he⟩ := List.mem_filterMap.1 h
    exact legal_of_colonsField? (hls l hl) he
  | packed =>
    obtain ⟨l, hl, he⟩ := List.mem_flatMap.1 h
    exact legal_of_mem_packedEntries (hls l hl) he
  | table => exact legal_of_mem_tableEntries hls h

end Markbook.Dialect
