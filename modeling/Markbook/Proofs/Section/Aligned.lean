import Markbook.Proofs.Outline
import Markbook.Proofs.Section.Renewed

/-!
# Sections of the Reader and of the Writer

Two loops cut a body at its headings: the one that reads entities collects the lines behind a
heading one by one, and the one that rewrites records looks ahead to the next heading.  Both take
the lines up to there (`Section.linesBehind`), so they agree on every section, and a line that is
no heading belongs to the nearest heading above it (`Outline.sections_aligned`).
-/

namespace Markbook

namespace Section

variable {t : StatusTable} {records : List Record} {s : Section} {ls : List Text}

/-- The lines behind the line `i`, up to the next heading. -/
def linesBehind (ls : List Text) (i : Nat) : List Text :=
  (ls.drop (i + 1)).takeWhile (!Heading.isHeading ·)

/-! ## The reader -/

/-- Each heading opens a section with the lines behind it. -/
theorem mem_cutFrom_iff {n : Nat} :
    s ∈ cutFrom n ls ↔ ∃ i l, ls[i]? = some l ∧
      Heading.split? (Text.trim l) = some (s.level, s.text) ∧
      s = ⟨n + i, s.level, l, s.text, linesBehind ls i⟩ := by
  induction ls generalizing n with
  | nil => simp [cutFrom]
  | cons l r ih =>
    rw [← Nat.or_exists_add_one]
    simp only [List.getElem?_cons_zero, List.getElem?_cons_succ, Option.some.injEq, exists_eq_left',
      linesBehind, List.drop_succ_cons, List.drop_zero, Nat.add_zero]
    have ih := ih (n := n + 1)
    simp only [Nat.add_right_comm n 1, Nat.add_assoc] at ih ⊢
    cases hsplit : Heading.split? (Text.trim l) with
    | none =>
      rw [cutFrom, hsplit]
      simp only [reduceCtorEq, false_and, false_or]
      exact ih
    | some p =>
      obtain ⟨level, text⟩ := p
      rw [cutFrom_cons_of_heading n hsplit, List.mem_cons]
      refine or_congr ?_ ih
      simp only [Option.some.injEq, Prod.mk.injEq]
      constructor
      · rintro rfl
        exact ⟨⟨rfl, rfl⟩, rfl⟩
      · rintro ⟨⟨rfl, rfl⟩, hs⟩
        exact hs

/-! ## The writer -/

theorem isHeading_of_recordNamed? {l : Text} {p : Nat × Record}
    (h : recordNamed? t records l = some p) : Heading.isHeading l = true := by
  obtain ⟨q, hnamed, -⟩ := Option.bind_eq_some_iff.1 h
  exact Heading.isHeading_of_named? hnamed

/-- The heading of each record is rewritten with the lines behind it.  The lines that are skipped
have no headings. -/
theorem renewed_mem_ofLines_iff {skipped n line level : Nat} {r : Record} {section_ : List Text}
    (h : skipped ≤ (ls.takeWhile (!Heading.isHeading ·)).length) :
    .renewed line level r section_ ∈ Portion.ofLines t records skipped n ls ↔
      ∃ i l, ls[i]? = some l ∧ recordNamed? t records l = some (level, r) ∧ line = n + i ∧
        section_ = linesBehind ls i := by
  induction ls generalizing skipped n with
  | nil => simp [Portion.ofLines]
  | cons l ls ih =>
    rw [← Nat.or_exists_add_one]
    simp only [List.getElem?_cons_zero, List.getElem?_cons_succ, Option.some.injEq, exists_eq_left',
      linesBehind, List.drop_succ_cons, List.drop_zero, Nat.add_zero]
    have ih {skipped : Nat} (h : skipped ≤ (ls.takeWhile (!Heading.isHeading ·)).length) :=
      ih (n := n + 1) h
    simp only [Nat.add_right_comm n 1, Nat.add_assoc, linesBehind] at ih ⊢
    cases hrecord : recordNamed? t records l with
    | some q =>
      obtain ⟨level', r'⟩ := q
      have hheading := isHeading_of_recordNamed? hrecord
      rw [List.takeWhile_cons_of_neg (by simp [hheading])] at h
      obtain rfl : skipped = 0 := Nat.le_zero.1 h
      rw [Portion.ofLines, hrecord, List.mem_cons, ih (Nat.le_refl _)]
      refine or_congr_left ?_
      simp only [Portion.renewed.injEq, Option.some.injEq, Prod.mk.injEq]
      constructor
      · rintro ⟨rfl, rfl, rfl, rfl⟩
        exact ⟨⟨rfl, rfl⟩, rfl, rfl⟩
      · rintro ⟨⟨rfl, rfl⟩, rfl, rfl⟩
        exact ⟨rfl, rfl, rfl, rfl⟩
    | none =>
      simp only [reduceCtorEq, false_and, false_or]
      cases skipped with
      | zero =>
        rw [Portion.ofLines, hrecord, List.mem_cons, ih (Nat.zero_le _)]
        simp
      | succ skipped =>
        rw [Portion.ofLines]
        refine ih ?_
        cases hline : Heading.isHeading l with
        | true => simp [hline] at h
        | false => simpa [hline] using h

/-! ## Lines and their headings -/

/-- Is the line `i` in front of the line `j` with no heading behind it up to there? -/
structure IsUnder (ls : List Text) (i j : Nat) : Prop where
  lt : i < j
  lines : ∀ k, i < k → k ≤ j → ∃ l, ls[k]? = some l ∧ Heading.isHeading l = false

/-- Is the nearest heading above the line `j` one with a name? -/
def IsUnderNamed (t : StatusTable) (ls : List Text) (j : Nat) : Prop :=
  ∃ i l level n, ls[i]? = some l ∧ Heading.named? t l = some (level, n) ∧ n ≠ [] ∧ IsUnder ls i j

theorem lt_length_takeWhile_iff {α : Type} {p : α → Bool} {l : List α} {k : Nat} :
    k < (l.takeWhile p).length ↔ ∀ k' ≤ k, ∃ x, l[k']? = some x ∧ p x = true := by
  induction l generalizing k with
  | nil => simpa using ⟨0, Nat.zero_le k⟩
  | cons a r ih =>
    cases ha : p a with
    | false =>
      rw [List.takeWhile_cons_of_neg (by simp [ha])]
      refine iff_of_false (Nat.not_lt_zero k) fun h ↦ ?_
      obtain ⟨x, hx, hp⟩ := h 0 (Nat.zero_le k)
      rw [← Option.some.inj hx, ha] at hp
      exact Bool.false_ne_true hp
    | true =>
      rw [List.takeWhile_cons_of_pos ha, List.length_cons]
      cases k with
      | zero =>
        refine iff_of_true (Nat.succ_pos _) fun k' hk' ↦ ?_
        rw [Nat.le_zero.1 hk']
        exact ⟨a, rfl, ha⟩
      | succ k =>
        rw [Nat.add_lt_add_iff_right, ih]
        constructor
        · intro h k' hk'
          cases k' with
          | zero => exact ⟨a, rfl, ha⟩
          | succ k' => exact h k' (Nat.le_of_succ_le_succ hk')
        · intro h k' hk'
          exact h (k' + 1) (Nat.succ_le_succ hk')

theorem isUnder_iff {i j : Nat} :
    IsUnder ls i j ↔ i + 1 ≤ j ∧ j < i + 1 + (linesBehind ls i).length := by
  have hlength : i + 1 ≤ j → (j < i + 1 + (linesBehind ls i).length ↔
      ∀ k, i < k → k ≤ j → ∃ l, ls[k]? = some l ∧ Heading.isHeading l = false) := by
    intro hle
    have hlt : j < i + 1 + (linesBehind ls i).length ↔ j - (i + 1) < (linesBehind ls i).length := by
      omega
    unfold linesBehind at hlt ⊢
    rw [hlt, lt_length_takeWhile_iff]
    simp only [List.getElem?_drop, Bool.not_eq_true']
    constructor
    · intro h k hik hkj
      have hk := h (k - (i + 1)) (by omega)
      rwa [Nat.add_sub_cancel' hik] at hk
    · intro h k hk
      exact h (i + 1 + k) (by omega) (by omega)
  constructor
  · rintro ⟨hlt, hlines⟩
    exact ⟨hlt, (hlength hlt).2 hlines⟩
  · rintro ⟨hle, hlt⟩
    exact ⟨hle, (hlength hle).1 hlt⟩

/-- There is no other heading between a line and the one it is under. -/
theorem IsUnder.le {i i' j : Nat} {l : Text} (h : IsUnder ls i j) (h' : i' < j)
    (hl : ls[i']? = some l) (hheading : Heading.isHeading l = true) : i' ≤ i := by
  by_contra hlt
  obtain ⟨l', hl', hline⟩ := h.lines i' (Nat.lt_of_not_le hlt) h'.le
  rw [Option.some.inj (hl.symm.trans hl'), hline] at hheading
  exact Bool.false_ne_true hheading

theorem lines_cutFrom_ascending (n : Nat) (ls : List Text) :
    (cutFrom n ls).Pairwise fun s s' ↦ s.line < s'.line := by
  induction ls generalizing n with
  | nil => exact .nil
  | cons l r ih =>
    rw [cutFrom]
    split
    · refine List.pairwise_cons.2 ⟨fun s hs ↦ ?_, ih (n + 1)⟩
      obtain ⟨i, _, -, -, heq⟩ := mem_cutFrom_iff.1 hs
      rw [heq]
      simp only
      omega
    · exact ih (n + 1)

end Section

/-- Does the line with the index `j` belong to the body of an entity?  The lines of the body are
those behind the heading. -/
def Entity.Holds (e : Entity) (j : Nat) : Prop := e.line ≤ j ∧ j < e.line + e.body.count '\n'

namespace Outline

open Section

variable {m : Markers} {t : StatusTable} {body : Text} {e : Entity}

/-- The entity of the line with the index `i`, if that is a heading with a name. -/
def entityAt? (m : Markers) (t : StatusTable) (ls : List Text) (i : Nat) : Option Entity :=
  ls[i]?.bind fun l ↦ (Heading.split? (Text.trim l)).bind fun p ↦
    Section.entity? m t ⟨i + 1, p.1, l, p.2, linesBehind ls i⟩

theorem mem_entities_iff :
    e ∈ entities m t body ↔ ∃ i, entityAt? m t (Text.lines body) i = some e := by
  rw [entities_eq]
  unfold entitiesOf cut entityAt?
  simp only [List.mem_filterMap, mem_cutFrom_iff, Option.bind_eq_some_iff]
  constructor
  · rintro ⟨s, ⟨i, l, hl, hsplit, hs⟩, he⟩
    rw [hs, Nat.add_comm] at he
    exact ⟨i, l, hl, _, hsplit, he⟩
  · rintro ⟨i, l, hl, ⟨level, text⟩, hsplit, he⟩
    rw [Nat.add_comm] at he
    exact ⟨_, ⟨i, l, hl, hsplit, rfl⟩, he⟩

/-- The entity of a heading has its level, its name and the lines behind it. -/
theorem exists_of_entityAt? {ls : List Text} {i : Nat} (h : entityAt? m t ls i = some e) :
    ∃ l, ls[i]? = some l ∧ Heading.named? t l = some (e.level, e.name) ∧ e.name ≠ [] ∧
      e.line = i + 1 ∧ e.body = (linesBehind ls i).flatMap (· ++ ['\n']) := by
  unfold entityAt? Section.entity? at h
  simp only [Option.bind_eq_some_iff, Option.ite_none_left_eq_some, Option.some.injEq,
    List.isEmpty_iff] at h
  obtain ⟨l, hl, p, hsplit, hne, rfl⟩ := h
  refine ⟨l, hl, ?_, hne, rfl, rfl⟩
  rw [Heading.named?_eq, hsplit]
  rfl

/-- Each heading with a name has an entity. -/
theorem exists_entityAt? {ls : List Text} {i level : Nat} {l n : Text} (hl : ls[i]? = some l)
    (hnamed : Heading.named? t l = some (level, n)) (hne : n ≠ []) (m : Markers) :
    ∃ e, entityAt? m t ls i = some e ∧ e.level = level ∧ e.name = n := by
  rw [Heading.named?_eq, Option.map_eq_some_iff] at hnamed
  obtain ⟨p, hsplit, heq⟩ := hnamed
  obtain ⟨rfl, rfl⟩ := Prod.mk.inj heq
  refine ⟨Entity.ofSection m t (Heading.ofText t p.2) p.1 (i + 1)
    ((linesBehind ls i).flatMap (· ++ ['\n'])), ?_, rfl, rfl⟩
  unfold entityAt? Section.entity?
  simp only [hl, Option.bind_some, hsplit, List.isEmpty_iff, if_neg hne]
  rfl

theorem count_body {i : Nat} (h : entityAt? m t (Text.lines body) i = some e) :
    e.body.count '\n' = (linesBehind (Text.lines body) i).length := by
  obtain ⟨-, -, -, -, -, hbody⟩ := exists_of_entityAt? h
  rw [hbody]
  refine Text.count_terminated fun l hl ↦ Text.newline_not_mem_of_mem_lines (s := body) ?_
  exact List.mem_of_mem_drop ((List.takeWhile_sublist _).subset hl)

theorem holds_iff {i j : Nat} (h : entityAt? m t (Text.lines body) i = some e) :
    e.Holds j ↔ IsUnder (Text.lines body) i j := by
  obtain ⟨-, -, -, -, hline, -⟩ := exists_of_entityAt? h
  unfold Entity.Holds
  rw [hline, count_body h, isUnder_iff]

theorem lines_ascending (m : Markers) (t : StatusTable) (body : Text) :
    ((entities m t body).map (·.line)).Pairwise (· < ·) := by
  have hline {s : Section} {e : Entity} (h : Section.entity? m t s = some e) : e.line = s.line := by
    unfold Section.entity? at h
    simp only [Option.ite_none_left_eq_some, Option.some.injEq] at h
    rw [← h.2]
    rfl
  rw [entities_eq, List.pairwise_map]
  unfold entitiesOf cut
  rw [List.pairwise_filterMap]
  refine (lines_cutFrom_ascending 1 (Text.lines body)).imp fun {s s'} hlt e he e' he' ↦ ?_
  rw [hline he, hline he']
  exact hlt

/-- A line is in the body of the entity whose heading is the nearest one above it. -/
theorem existsUnique_holds {j : Nat} (h : IsUnderNamed t (Text.lines body) j) (m : Markers) :
    ∃! e, e ∈ entities m t body ∧ e.Holds j := by
  obtain ⟨i, l, level, n, hl, hnamed, hne, hunder⟩ := h
  obtain ⟨e, he, -, -⟩ := exists_entityAt? hl hnamed hne m
  refine ⟨e, ⟨mem_entities_iff.2 ⟨i, he⟩, (holds_iff he).2 hunder⟩, ?_⟩
  rintro e' ⟨hmem, hholds⟩
  obtain ⟨i', he'⟩ := mem_entities_iff.1 hmem
  obtain ⟨l', hl', hnamed', -⟩ := exists_of_entityAt? he'
  have hunder' := (holds_iff he').1 hholds
  -- Neither of the two headings stands between the other and the line.
  have hsame : i' = i := by
    apply Nat.le_antisymm
    · exact hunder.le hunder'.lt hl' (Heading.isHeading_of_named? hnamed')
    · exact hunder'.le hunder.lt hl (Heading.isHeading_of_named? hnamed)
  rw [hsame, he] at he'
  exact (Option.some.inj he').symm

/-- A line under no heading with a name is in the body of no entity. -/
theorem not_holds {j : Nat} (h : ¬ IsUnderNamed t (Text.lines body) j)
    (he : e ∈ entities m t body) :
    ¬ e.Holds j := by
  intro hholds
  obtain ⟨i, hi⟩ := mem_entities_iff.1 he
  obtain ⟨l, hl, hnamed, hne, -⟩ := exists_of_entityAt? hi
  exact h ⟨i, l, e.level, e.name, hl, hnamed, hne, (holds_iff hi).1 hholds⟩

/-- The lines that are rewritten for a record make up the body of its entity. -/
theorem exists_renewed {records : List Record} {r : Record} (he : e ∈ entities m t body)
    (hr : (records.find? fun r ↦ r.name = e.name) = some r) :
    ∃ ls, .renewed e.line e.level r ls ∈ Portion.ofLines t records 0 1 (Text.lines body) ∧
      e.body = ls.flatMap (· ++ ['\n']) := by
  obtain ⟨i, hi⟩ := mem_entities_iff.1 he
  obtain ⟨l, hl, hnamed, -, hline, hbody⟩ := exists_of_entityAt? hi
  refine ⟨linesBehind (Text.lines body) i,
    (renewed_mem_ofLines_iff (Nat.zero_le _)).2 ⟨i, l, hl, ?_, ?_, rfl⟩, hbody⟩
  · unfold recordNamed?
    rw [hnamed]
    simp only [Option.bind_some, hr, Option.map_some]
  · rw [hline, Nat.add_comm]

/-- What is rewritten for a record with a name is the section of an entity. -/
theorem exists_of_renewed {records : List Record} {line level : Nat} {r : Record} {ls : List Text}
    (h : .renewed line level r ls ∈ Portion.ofLines t records 0 1 (Text.lines body))
    (hne : r.name ≠ []) (m : Markers) :
    ∃ e ∈ entities m t body, e.line = line ∧ e.level = level ∧ e.name = r.name ∧
      e.body = ls.flatMap (· ++ ['\n']) := by
  obtain ⟨i, l, hl, hrecord, rfl, rfl⟩ := (renewed_mem_ofLines_iff (Nat.zero_le _)).1 h
  obtain ⟨⟨level', n⟩, hnamed, hfound⟩ := Option.bind_eq_some_iff.1 hrecord
  obtain ⟨r', hfind, heq⟩ := Option.map_eq_some_iff.1 hfound
  obtain ⟨rfl, rfl⟩ := Prod.mk.inj heq
  have hname : r'.name = n := by simpa using List.find?_some hfind
  rw [hname] at hne
  obtain ⟨e, he, hlevel, hename⟩ := exists_entityAt? hl hnamed hne m
  obtain ⟨-, -, -, -, hline, hbody⟩ := exists_of_entityAt? he
  exact ⟨e, mem_entities_iff.2 ⟨i, he⟩, hline.trans (Nat.add_comm i 1), hlevel,
    hename.trans hname.symm, hbody⟩

/-- The body of an entity is the lines behind its heading. -/
theorem body_eq_of_mem (he : e ∈ entities m t body) :
    e.body = (((Text.lines body).drop e.line).take (e.body.count '\n')).flatMap (· ++ ['\n']) := by
  obtain ⟨i, hi⟩ := mem_entities_iff.1 he
  obtain ⟨-, -, -, -, hline, hbody⟩ := exists_of_entityAt? hi
  have hprefix : linesBehind (Text.lines body) i <+: (Text.lines body).drop (i + 1) :=
    List.takeWhile_prefix _
  rw [count_body hi, hline, ← List.prefix_iff_eq_take.1 hprefix]
  exact hbody

/-- The reader and the writer cut a body into the same sections.  The reader has an entity for each
heading with a name, with its level; the writer takes the lines of its body for the section of its
record, and takes none for a record with a name but those of an entity.  A line is in the body of
one entity when the nearest heading above it has a name, and else in none. -/
theorem sections_aligned (m : Markers) (t : StatusTable) (body : Text) :
    Tree.preorderAll (trees m t body) = entities m t body ∧
    (∀ i level n, (∃ e ∈ entities m t body, e.line = i + 1 ∧ e.level = level ∧ e.name = n) ↔
      n ≠ [] ∧ ∃ l, (Text.lines body)[i]? = some l ∧ Heading.named? t l = some (level, n)) ∧
    ((entities m t body).map (·.line)).Pairwise (· < ·) ∧
    (∀ records, ∀ e ∈ entities m t body, ∀ r, (records.find? fun r ↦ r.name = e.name) = some r →
      ∃ ls, .renewed e.line e.level r ls ∈ Portion.ofLines t records 0 1 (Text.lines body) ∧
        e.body = ls.flatMap (· ++ ['\n'])) ∧
    (∀ records line level r ls,
      .renewed line level r ls ∈ Portion.ofLines t records 0 1 (Text.lines body) → r.name ≠ [] →
      ∃ e ∈ entities m t body, e.line = line ∧ e.level = level ∧ e.name = r.name ∧
        e.body = ls.flatMap (· ++ ['\n'])) ∧
    (∀ e ∈ entities m t body,
      e.body = (((Text.lines body).drop e.line).take (e.body.count '\n')).flatMap (· ++ ['\n'])) ∧
    ∀ j, (IsUnderNamed t (Text.lines body) j → ∃! e, e ∈ entities m t body ∧ e.Holds j) ∧
      (¬ IsUnderNamed t (Text.lines body) j → ∀ e ∈ entities m t body, ¬ e.Holds j) := by
  refine ⟨preorderAll_trees m t body, fun i level n ↦ ⟨?_, ?_⟩, lines_ascending m t body,
    fun records e he r hr ↦ exists_renewed he hr,
    fun records line level r ls h hne ↦ exists_of_renewed h hne m, fun e he ↦ body_eq_of_mem he,
    fun j ↦ ⟨fun h ↦ existsUnique_holds h m, fun h e he ↦ not_holds h he⟩⟩
  · rintro ⟨e, he, hi, rfl, rfl⟩
    obtain ⟨i', hi'⟩ := mem_entities_iff.1 he
    obtain ⟨l, hl, hnamed, hne, hline, -⟩ := exists_of_entityAt? hi'
    obtain rfl : i' = i := Nat.succ.inj (hline.symm.trans hi)
    exact ⟨hne, l, hl, hnamed⟩
  · rintro ⟨hne, l, hl, hnamed⟩
    obtain ⟨e, he, hlevel, hname⟩ := exists_entityAt? hl hnamed hne m
    obtain ⟨-, -, -, -, hline, -⟩ := exists_of_entityAt? he
    exact ⟨e, mem_entities_iff.2 ⟨i, he⟩, hline, hlevel, hname⟩

/-- A body with a heading that is a status form and nothing else. -/
def nameless : Text := "# A\nx\n## DONE\ny\n"

/-- The line under the first heading belongs to its entity, the one under the other heading to
none. -/
theorem sections_aligned_nameless :
    (∃! e, e ∈ entities .none_ .builtIn nameless ∧ e.Holds 1) ∧
      ∀ e ∈ entities .none_ .builtIn nameless, ¬ e.Holds 3 := by
  obtain ⟨-, -, -, -, -, -, hheld⟩ := sections_aligned .none_ .builtIn nameless
  refine ⟨(hheld 1).1
      ⟨0, "# A", 1, "A", rfl, by decide +kernel, by decide, by decide, fun k hk hle ↦ ?_⟩,
    (hheld 3).2 ?_⟩
  · obtain rfl : k = 1 := by omega
    exact ⟨"x", rfl, by decide⟩
  · rintro ⟨i, l, level, n, hl, hnamed, hne, hunder⟩
    have hline : (Text.lines nameless)[2]? = some "## DONE".toList := rfl
    have hle := hunder.le (by decide) hline (by decide)
    have hlt := hunder.lt
    obtain rfl : i = 2 := by omega
    obtain rfl := Option.some.inj (hline.symm.trans hl)
    have hnone : Heading.named? .builtIn "## DONE" = some (2, []) := by decide +kernel
    rw [hnone] at hnamed
    exact hne (Prod.mk.inj (Option.some.inj hnamed)).2.symm

end Outline

end Markbook
