import Markbook.Proofs.Status
import Markbook.Proofs.Text.Octets

/-!
# The Longest Form

The marker of a text is the longest form that begins it (`StatusTable.prefix_of_longestForm?`), so
every other form that begins the text begins the marker.  Only the forms that begin a text count
(`StatusTable.longestForm?_congr`): a text is read like its lead when no form reaches beyond the
lead.

Forms may be empty and may be shared by several statuses.  `StatusTable.IsMarkerOf` says what the
marker of a text is without the search for it, and `StatusTable.marker?_maximal` that the search
finds it in every table.
-/

namespace Markbook

namespace StatusTable

variable {t : StatusTable} {s : Text}

theorem octets_le_of_longer (best : Option (Text × Text)) (e : Text × Text) :
    ∃ e', longer best e = some e' ∧ e.2.octets ≤ e'.2.octets ∧
      ∀ b, best = some b → b.2.octets ≤ e'.2.octets := by
  cases best with
  | none => exact ⟨e, rfl, le_rfl, by simp⟩
  | some b =>
    unfold longer
    simp only
    split
    · next h => exact ⟨e, rfl, le_rfl, by simpa using h.le⟩
    · next h => exact ⟨b, rfl, by omega, by simp⟩

/-- Nothing that was compared is longer. -/
theorem octets_le_of_foldl_longer {l : List (Text × Text)} {best : Option (Text × Text)}
    {e : Text × Text} (h : l.foldl longer best = some e) :
    (∀ b, best = some b → b.2.octets ≤ e.2.octets) ∧ ∀ e' ∈ l, e'.2.octets ≤ e.2.octets := by
  induction l generalizing best with
  | nil =>
    have hbest : best = some e := h
    simp [hbest]
  | cons a r ih =>
    rw [List.foldl_cons] at h
    obtain ⟨hfirst, hrest⟩ := ih h
    obtain ⟨e', he', ha, hbest⟩ := octets_le_of_longer best a
    have hle := hfirst e' he'
    refine ⟨fun b hb ↦ (hbest b hb).trans hle, fun x hx ↦ ?_⟩
    rcases List.mem_cons.1 hx with rfl | hx
    · exact ha.trans hle
    · exact hrest x hx

theorem mem_of_longestForm? {e : Text × Text} (h : t.longestForm? s = some e) :
    e ∈ t.allForms ∧ e.2 ≠ [] ∧ e.2 <+: s := by
  have hmem : e ∈ t.allForms.filter fun e ↦ !e.2.isEmpty && e.2.isPrefixOf s := by
    rcases mem_of_foldl_longer h with h | h
    · simp at h
    · exact h
  rw [List.mem_filter, Bool.and_eq_true, List.isPrefixOf_iff_prefix] at hmem
  exact ⟨hmem.1, by simpa using hmem.2.1, hmem.2.2⟩

/-- Every form that begins a text begins its longest one. -/
theorem prefix_of_longestForm? {e e' : Text × Text} (h : t.longestForm? s = some e)
    (he' : e' ∈ t.allForms) (hne : e'.2 ≠ []) (hp : e'.2 <+: s) : e'.2 <+: e.2 := by
  refine Text.prefix_of_octets_le hp (mem_of_longestForm? h).2.2
    ((octets_le_of_foldl_longer h).2 e' ?_)
  rw [List.mem_filter, Bool.and_eq_true, List.isPrefixOf_iff_prefix]
  exact ⟨he', by simpa using hne, hp⟩

/-! ## Shared forms -/

/-- Among the longest the first one is kept. -/
theorem find?_of_foldl_longer {l : List (Text × Text)} {best : Option (Text × Text)}
    {e : Text × Text} (h : l.foldl longer best = some e) :
    (best.toList ++ l).find? (fun e' ↦ e.2.octets ≤ e'.2.octets) = some e := by
  induction l generalizing best with
  | nil =>
    obtain rfl : best = some e := h
    simp
  | cons a r ih =>
    have hle := (octets_le_of_foldl_longer h).2 a List.mem_cons_self
    rw [List.foldl_cons] at h
    have hfirst := ih h
    cases best with
    | none => exact hfirst
    | some b =>
      unfold longer at hfirst
      simp only at hfirst
      split at hfirst
      · next hlt =>
        -- The longer one takes the place of `b`, which is too short to be found.
        have hb : ¬ e.2.octets ≤ b.2.octets := by omega
        simp only [Option.toList_some, List.singleton_append] at hfirst ⊢
        rw [List.find?_cons_of_neg (by simpa using hb)]
        exact hfirst
      · next hlt =>
        -- `b` stays, so `a` is found only if it is as long, and then `b` is found before it.
        simp only [Option.toList_some, List.singleton_append] at hfirst ⊢
        by_cases hb : e.2.octets ≤ b.2.octets
        · rw [List.find?_cons_of_pos (by simpa using hb)] at hfirst ⊢
          exact hfirst
        · have ha : ¬ e.2.octets ≤ a.2.octets := by omega
          rw [List.find?_cons_of_neg (by simpa using hb)] at hfirst ⊢
          rw [List.find?_cons_of_neg (by simpa using ha)]
          exact hfirst

/-- Of the statuses that share the longest form the first in the table is found. -/
theorem find?_rows_of_longestForm? {e : Text × Text} (h : t.longestForm? s = some e) :
    (t.rows.find? fun row ↦ row.2.contains e.2).map (·.1) = some e.1 := by
  obtain ⟨-, hne, hp⟩ := mem_of_longestForm? h
  have hsame : ∀ e' ∈ t.allForms,
      ((e'.2 ≠ [] ∧ e'.2 <+: s) ∧ e.2.octets ≤ e'.2.octets) ↔ e'.2 = e.2 := by
    intro e' he'
    constructor
    · rintro ⟨⟨hne', hp'⟩, hle⟩
      have hge := Text.octets_le_of_prefix (prefix_of_longestForm? h he' hne' hp')
      exact Text.eq_of_octets_eq hp' hp (Nat.le_antisymm hge hle)
    · intro heq
      rw [heq]
      exact ⟨⟨hne, hp⟩, le_rfl⟩
  have hfirst : t.allForms.find? (fun e' ↦ e'.2 = e.2) = some e := by
    have hfound := find?_of_foldl_longer h
    rw [Option.toList_none, List.nil_append, List.find?_filter] at hfound
    rw [← hfound, ← List.head?_filter, ← List.head?_filter]
    congr 1
    refine List.filter_congr fun e' he' ↦ ?_
    rw [Bool.eq_iff_iff, decide_eq_true_iff, decide_eq_true_iff, ← hsame e' he']
    simp
  rw [find?_allForms] at hfirst
  obtain ⟨row, hrow, heq⟩ := Option.map_eq_some_iff.1 hfirst
  rw [hrow, ← heq]
  rfl

/-! ## The marker of a text -/

/-- The longest form in the table that begins a text, with the first status that lists it and with
what stands behind the form and the blanks after it. -/
structure IsMarkerOf (t : StatusTable) (s : Text) (m : Marker) : Prop where
  form_ne : m.form ≠ []
  longest : ∀ row ∈ t.rows, ∀ form ∈ row.2, form <+: s → form.octets ≤ m.form.octets
  first : (t.rows.find? fun row ↦ row.2.contains m.form).map (·.1) = some m.status
  cut : ∃ blanks, (∀ c ∈ blanks, Text.isBlank c) ∧ s = m.form ++ blanks ++ m.rest
  rest_head : ∀ c ∈ m.rest.head?, Text.isBlank c = false

namespace IsMarkerOf

variable {m m' : Marker}

theorem form_prefix (h : t.IsMarkerOf s m) : m.form <+: s := by
  obtain ⟨blanks, -, hs⟩ := h.cut
  rw [hs, List.append_assoc]
  exact List.prefix_append _ _

theorem exists_row (h : t.IsMarkerOf s m) :
    ∃ row ∈ t.rows, row.1 = m.status ∧ m.form ∈ row.2 := by
  obtain ⟨row, hrow, hname⟩ := Option.map_eq_some_iff.1 h.first
  exact ⟨row, List.mem_of_find?_eq_some hrow, hname, by simpa using List.find?_some hrow⟩

theorem octets_le (h : t.IsMarkerOf s m) (h' : t.IsMarkerOf s m') :
    m.form.octets ≤ m'.form.octets := by
  obtain ⟨row, hrow, -, hform⟩ := h.exists_row
  exact h'.longest row hrow m.form hform h.form_prefix

theorem rest_eq (h : t.IsMarkerOf s m) : m.rest = Text.trimStart (s.drop m.form.length) := by
  obtain ⟨blanks, hblanks, hs⟩ := h.cut
  rw [hs, List.append_assoc, List.drop_left, Text.trimStart_append_blank hblanks,
    Text.trimStart_eq_self_iff.2 h.rest_head]

/-- A text has at most one marker. -/
theorem unique (h : t.IsMarkerOf s m) (h' : t.IsMarkerOf s m') : m = m' := by
  have hform : m.form = m'.form :=
    Text.eq_of_octets_eq h.form_prefix h'.form_prefix
      (Nat.le_antisymm (h.octets_le h') (h'.octets_le h))
  have hstatus : m.status = m'.status := by
    rw [← Option.some_inj, ← h.first, ← h'.first, hform]
  have hrest : m.rest = m'.rest := by rw [h.rest_eq, h'.rest_eq, hform]
  cases m
  cases m'
  simp_all

end IsMarkerOf

theorem isMarkerOf_of_marker? {m : Marker} (h : t.marker? s = some m) : t.IsMarkerOf s m := by
  obtain ⟨e, he, rfl⟩ := Option.map_eq_some_iff.1 h
  obtain ⟨-, hne, hp⟩ := mem_of_longestForm? he
  have hlongest : ∀ row ∈ t.rows, ∀ form ∈ row.2, form <+: s → form.octets ≤ e.2.octets := by
    intro row hrow form hform hbegins
    by_cases hnil : form = []
    · simp [hnil, Text.octets]
    · have hmem : (row.1, form) ∈ t.allForms := mem_allForms_iff.2 ⟨row, hrow, rfl, hform⟩
      exact Text.octets_le_of_prefix (prefix_of_longestForm? he hmem hnil hbegins)
  obtain ⟨blanks, hblanks, hrest⟩ := Text.exists_trimStart (s.drop e.2.length)
  exact {
    form_ne := hne
    longest := hlongest
    first := find?_rows_of_longestForm? he
    cut := by
      refine ⟨blanks, hblanks, ?_⟩
      rw [List.append_assoc, ← hrest]
      obtain ⟨r, rfl⟩ := hp
      rw [List.drop_left]
    rest_head := Text.head?_trimStart _ }

/-- Reading a marker is maximal munch: a text without a marker begins with no form of the table,
empty ones aside, and the marker of any other text is the longest form, under the first status that
lists it.  The forms of the table are those of the last declaration of each name, in the order of
the first declarations. -/
theorem marker?_maximal (t : StatusTable) (s : Text) :
    (t.rows = (t.declared.map (·.1)).eraseDups.filterMap fun name ↦
        t.declared.reverse.find? fun row ↦ row.1 = name) ∧
      (t.marker? s = none ↔ ∀ row ∈ t.rows, ∀ form ∈ row.2, form ≠ [] → ¬ form <+: s) ∧
      ∀ m, t.marker? s = some m ↔ t.IsMarkerOf s m := by
  have hnone : t.marker? s = none ↔
      ∀ row ∈ t.rows, ∀ form ∈ row.2, form ≠ [] → ¬ form <+: s := by
    rw [marker?_eq_none_iff]
    constructor
    · intro h row hrow form hform
      exact h (row.1, form) (mem_allForms_iff.2 ⟨row, hrow, rfl, hform⟩)
    · intro h e he
      obtain ⟨row, hrow, -, hform⟩ := mem_allForms_iff.1 he
      exact h row hrow e.2 hform
  refine ⟨rows_eq t, hnone, fun m ↦ ⟨isMarkerOf_of_marker?, fun hm ↦ ?_⟩⟩
  obtain ⟨row, hrow, -, hform⟩ := hm.exists_row
  cases hfound : t.marker? s with
  | none => exact absurd hm.form_prefix (hnone.1 hfound row hrow m.form hform hm.form_ne)
  | some m' => rw [(isMarkerOf_of_marker? hfound).unique hm]

/-- A name declared again keeps its place, so it stays the first to list a form that is shared. -/
example : (mk [("done", ["é", "ok"]), ("open", ["éé", ""]), ("done", ["", "éé"])]).marker?
    "éé  T1".toList = some ⟨"done", "éé", "T1"⟩ := by decide

/-! ## Leads -/

/-- Only the forms that begin a text count. -/
theorem longestForm?_congr {s' : Text}
    (h : ∀ e ∈ t.allForms, e.2 ≠ [] → (e.2 <+: s ↔ e.2 <+: s')) :
    t.longestForm? s = t.longestForm? s' := by
  unfold longestForm?
  congr 1
  refine List.filter_congr fun e he ↦ ?_
  by_cases hne : e.2 = []
  · simp [hne]
  · congr 1
    rw [Bool.eq_iff_iff, List.isPrefixOf_iff_prefix, List.isPrefixOf_iff_prefix]
    exact h e he hne

/-- No form reaches beyond a lead into the text behind it. -/
theorem longestForm?_append {lead x : Text}
    (h : ∀ e ∈ t.allForms, ∀ g, e.2 = lead ++ g → g <+: x → g = []) :
    t.longestForm? (lead ++ x) = t.longestForm? lead := by
  refine longestForm?_congr fun e he _ ↦ ⟨fun hp ↦ ?_, fun hp ↦ hp.trans (List.prefix_append _ _)⟩
  rcases List.prefix_or_prefix_of_prefix hp (List.prefix_append lead x) with hp' | ⟨g, hg⟩
  · exact hp'
  · rw [← hg, List.prefix_append_right_inj] at hp
    have hnil := h e he g hg.symm hp
    rw [← hg, hnil]
    simp

/-- What stands behind a lead that no form leaves is left of the text behind the marker. -/
theorem marker?_append {lead x : Text}
    (h : ∀ e ∈ t.allForms, ∀ g, e.2 = lead ++ g → g <+: x → g = []) :
    t.marker? (lead ++ x) = (t.longestForm? lead).map fun e ↦
      ⟨e.1, e.2, Text.trimStart (lead.drop e.2.length ++ x)⟩ := by
  unfold marker?
  rw [longestForm?_append h]
  refine Option.map_congr fun e he ↦ ?_
  rw [List.drop_append_of_le_length (mem_of_longestForm? he).2.2.length_le]

end StatusTable

end Markbook
