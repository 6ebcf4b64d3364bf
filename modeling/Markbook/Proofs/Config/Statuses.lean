import Markbook.Config.Basic
import Markbook.Proofs.Heading.Marked

/-!
# Accepted Status Tables

Settings without issues give every status a name of its own and forms that are not empty
(`Config.statusIssues_eq_nil_iff`).  They do not compare the forms of one status with the names and
forms of the others, so what an accepted table says about a status may contradict itself.
`Config.agreement` says for each status when its name and its forms stand for it, and when its
headings are read as the status and the name behind it.
-/

namespace Markbook

namespace StatusTable

variable {t : StatusTable} {s : Text}

/-! ## Tables with one declaration for each name -/

theorem declare_of_not_mem {name : Text} {forms : List Text} {rows : List (Text × List Text)}
    (h : name ∉ rows.map (·.1)) : declare name forms rows = rows ++ [(name, forms)] := by
  induction rows with
  | nil => rfl
  | cons row r ih =>
    rw [List.map_cons, List.mem_cons, not_or] at h
    rw [declare, if_neg (Ne.symm h.1), ih h.2, List.cons_append]

theorem rows_eq_declared (h : (t.declared.map (·.1)).Nodup) : t.rows = t.declared := by
  have hfold : ∀ l rows : List (Text × List Text), ((rows ++ l).map (·.1)).Nodup →
      l.foldl (fun rows row ↦ declare row.1 row.2 rows) rows = rows ++ l := by
    intro l
    induction l with
    | nil => simp
    | cons row r ih =>
      intro rows hnodup
      have hrow : row.1 ∉ rows.map (·.1) := by
        rw [List.map_append, List.nodup_append] at hnodup
        intro hmem
        exact hnodup.2.2 _ hmem row.1 (by simp) rfl
      rw [List.foldl_cons, declare_of_not_mem hrow, ih _ (by simpa using hnodup)]
      simp
  exact hfold t.declared [] h

/-- A status that mentions a text is what the text stands for, unless a later one mentions it. -/
theorem canonical?_eq_iff {a b : List (Text × List Text)} {row : Text × List Text}
    (hdeclared : t.declared = a ++ row :: b) (hnodup : (t.declared.map (·.1)).Nodup)
    (hs : s ∈ row.2 ∨ row.1 = s) :
    t.canonical? s = some row.1 ↔ ∀ row' ∈ b, s ∉ row'.2 ∧ row'.1 ≠ s := by
  let mentions : Text × List Text → Bool := fun row ↦ row.2.contains s || row.1 = s
  have hmentions (row : Text × List Text) : mentions row = true ↔ s ∈ row.2 ∨ row.1 = s := by
    simp [mentions]
  have hcanonical : t.canonical? s = ((b.reverse.find? mentions).or (some row)).map (·.1) := by
    unfold canonical?
    rw [hdeclared, List.reverse_append, List.reverse_cons, List.append_assoc, List.find?_append,
      List.singleton_append, List.find?_cons_of_pos ((hmentions row).2 hs)]
  have hother : ∀ row' ∈ b, row'.1 ≠ row.1 := by
    intro row' hmem heq
    rw [hdeclared, List.map_append, List.map_cons, List.nodup_append, List.nodup_cons] at hnodup
    exact hnodup.2.1.1 (heq ▸ List.mem_map_of_mem hmem)
  rw [hcanonical]
  cases hfind : b.reverse.find? mentions with
  | none =>
    rw [List.find?_eq_none] at hfind
    simp only [Option.none_or, Option.map_some, true_iff]
    intro row' hmem
    have hnot := hfind row' (List.mem_reverse.2 hmem)
    rw [hmentions, not_or] at hnot
    exact hnot
  | some row' =>
    have hmem := List.mem_reverse.1 (List.mem_of_find?_eq_some hfind)
    have hsome := (hmentions row').1 (List.find?_some hfind)
    simp only [Option.some_or, Option.map_some, Option.some.injEq]
    constructor
    · exact fun heq ↦ absurd heq (hother row' hmem)
    · exact fun hall ↦ absurd hsome (not_or.2 (hall row' hmem))

end StatusTable

namespace Config

/-! ## Statuses without issues -/

/-- What the settings demand of one status. -/
structure IsAccepted (row : Text × List Text) : Prop where
  name_ne : Text.trim row.1 ≠ []
  forms_ne : row.2 ≠ []
  form_ne : ∀ form ∈ row.2, form ≠ []

/-- The only issue with two statuses is a name they share. -/
theorem statusIssues_eq_nil_iff {l : List (Text × List Text)} {seen : List Text} :
    statusIssues seen l = [] ↔
      (∀ row ∈ l, IsAccepted row) ∧ (l.map (·.1)).Nodup ∧ ∀ row ∈ l, row.1 ∉ seen := by
  induction l generalizing seen with
  | nil => simp [statusIssues]
  | cons row r ih =>
    obtain ⟨name, forms⟩ := row
    have haccepted : IsAccepted (name, forms) ↔
        Text.trim name ≠ [] ∧ forms ≠ [] ∧ [] ∉ forms :=
      ⟨fun h ↦ ⟨h.name_ne, h.forms_ne, fun hmem ↦ h.form_ne [] hmem rfl⟩,
        fun h ↦ ⟨h.1, h.2.1, fun form hform hnil ↦ h.2.2 (hnil ▸ hform)⟩⟩
    unfold statusIssues
    by_cases hname : Text.trim name = []
    · rw [if_pos (by simpa using hname)]
      simp [haccepted, hname]
    · have hseen : (∀ row ∈ r, row.1 ∉ name :: seen) ↔
          name ∉ r.map (·.1) ∧ ∀ row ∈ r, row.1 ∉ seen := by
        simp only [List.mem_cons, not_or, List.mem_map, not_exists, not_and]
        exact forall₂_and
      have hhere : ((if forms.isEmpty then [StatusIssue.noForm] else []) ++
          (if forms.any List.isEmpty then [StatusIssue.emptyForm] else []) ++
          (if seen.contains name then [StatusIssue.repeated] else [])) = [] ↔
            IsAccepted (name, forms) ∧ name ∉ seen := by
        simp [haccepted, hname, and_assoc]
      rw [if_neg (by simpa using hname), List.append_eq_nil_iff, List.map_eq_nil_iff, hhere, ih,
        hseen, List.forall_mem_cons, List.forall_mem_cons, List.map_cons, List.nodup_cons]
      tauto

variable {c : Config}

theorem declared_statusTable (hne : c.statuses ≠ []) : c.statusTable.declared = c.statuses := by
  unfold statusTable
  rw [if_neg (by simpa using hne)]

theorem isAccepted_of_issues (h : c.issues = []) :
    (∀ row ∈ c.statuses, IsAccepted row) ∧ (c.statuses.map (·.1)).Nodup := by
  unfold issues at h
  rw [List.append_eq_nil_iff, List.append_eq_nil_iff] at h
  obtain ⟨haccepted, hnodup, -⟩ := statusIssues_eq_nil_iff.1 h.1.2
  exact ⟨haccepted, hnodup⟩

/-- Every status of an accepted table is written in some form. -/
theorem exists_marker {t : StatusTable} (hrows : t.rows = t.declared)
    (haccepted : ∀ row ∈ t.declared, IsAccepted row) {row : Text × List Text}
    (hrow : row ∈ t.declared) : ∃ m, Heading.marker? t (some row.1) = some m := by
  obtain ⟨name, hname⟩ := Option.isSome_iff_exists.1 (StatusTable.canonical?_name_isSome hrow)
  obtain ⟨row', hrow', hname'⟩ := StatusTable.exists_declared_of_canonical? hname
  have hcanonical : t.canonical row.1 = name := by simp [StatusTable.canonical, hname]
  obtain ⟨forms, hforms⟩ : ∃ forms, t.forms? name = some forms := by
    unfold StatusTable.forms?
    rw [← Option.isSome_iff_exists, Option.isSome_map, List.find?_isSome, hrows]
    exact ⟨row', hrow', by simpa using hname'⟩
  have hne : forms ≠ [] := by
    obtain ⟨found, hfound, rfl⟩ := Option.map_eq_some_iff.1 hforms
    rw [hrows] at hfound
    exact (haccepted found (List.mem_of_find?_eq_some hfound)).forms_ne
  obtain ⟨m, r, rfl⟩ := List.exists_cons_of_ne_nil hne
  refine ⟨m, ?_⟩
  unfold Heading.marker? StatusTable.written?
  rw [Option.bind_some, hcanonical, hforms]
  rfl

/-! ## What a table says about its statuses -/

/-- The last status that mentions a text decides what it stands for, so the name and the forms of a
status are its own when no later status mentions them.  Its headings are read as the status exactly
when the form they start with tells it. -/
theorem agreement (h : c.issues = []) {a b : List (Text × List Text)} {name : Text}
    {forms : List Text} (hstatuses : c.statuses = a ++ (name, forms) :: b) :
    c.statusTable.rows = c.statuses ∧
      (c.statusTable.canonical? name = some name ↔ ∀ row ∈ b, name ∉ row.2) ∧
      (∀ form ∈ forms, c.statusTable.canonical? form = some name ↔
        ∀ row ∈ b, form ∉ row.2 ∧ row.1 ≠ form) ∧
      ∃ m, Heading.marker? c.statusTable (some name) = some m ∧
        (Heading.HeadsNames c.statusTable name ↔
          Heading.IsLead c.statusTable (Heading.markedLead m) name) := by
  have hdeclared : c.statusTable.declared = c.statuses := declared_statusTable (by simp [hstatuses])
  obtain ⟨haccepted, hnodup⟩ := isAccepted_of_issues h
  rw [← hdeclared] at haccepted hnodup hstatuses
  have hrows := StatusTable.rows_eq_declared hnodup
  have hlater : ∀ row ∈ b, row.1 ≠ name := by
    intro row hmem heq
    rw [hstatuses, List.map_append, List.map_cons, List.nodup_append, List.nodup_cons] at hnodup
    exact hnodup.2.1.1 (List.mem_map.2 ⟨row, hmem, heq⟩)
  have hrow : (name, forms) ∈ c.statusTable.declared := by simp [hstatuses]
  obtain ⟨m, hm⟩ := exists_marker hrows haccepted hrow
  refine ⟨hrows.trans hdeclared, ?_, fun form hform ↦ ?_, m, hm, Heading.headsNames_iff hm⟩
  · rw [StatusTable.canonical?_eq_iff hstatuses hnodup (.inr rfl)]
    exact forall₂_congr fun row hmem ↦ and_iff_left (hlater row hmem)
  · exact StatusTable.canonical?_eq_iff hstatuses hnodup (.inl hform)

/-- Settings with a table of two statuses that have nothing in common. -/
def apart : Config := { standard with statuses := [("open", ["O"]), ("closed", ["X"])] }

/-- A table without common forms agrees with itself. -/
theorem agreement_apart :
    apart.issues = [] ∧ apart.statusTable.canonical? "open".toList = some "open".toList ∧
      apart.statusTable.canonical? ['O'] = some "open".toList ∧
      Heading.HeadsNames apart.statusTable "open" := by
  have hissues : apart.issues = [] := by decide
  obtain ⟨-, hname, hform, m, hm, hheads⟩ := agreement hissues (a := []) rfl
  have hlead : m = ['O'] := by
    have hwritten : Heading.marker? apart.statusTable (some "open".toList) = some ['O'] := by decide
    exact Option.some.inj (hm.symm.trans hwritten)
  subst hlead
  refine ⟨hissues, hname.2 (by decide), (hform ['O'] (by decide)).2 (by decide), hheads.2 ?_⟩
  have hshort : ∀ e ∈ apart.statusTable.allForms, e.2.length = 1 := by decide
  refine ⟨⟨['O'], by decide⟩, fun e he g hg hne ↦ ?_⟩
  have hlong := hshort e he
  rw [hg, List.length_append] at hlong
  have hg := List.length_pos_iff.2 hne
  have hlead : (Heading.markedLead ['O']).length = 2 := by decide
  omega

/-- Settings with a table whose second status lists the name of the first one as a form. -/
def crossed : Config := { standard with statuses := [("open", ["O"]), ("closed", ["X", "open"])] }

/-- The settings are accepted, and `open` stands for `closed`. -/
theorem not_canonical?_crossed :
    crossed.issues = [] ∧ "open".toList ∈ crossed.statusTable.names ∧
      crossed.statusTable.canonical? "open".toList = some "closed".toList := by
  refine ⟨?_, ?_, ?_⟩ <;> decide

end Config

end Markbook
