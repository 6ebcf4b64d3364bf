import Markbook.Proofs.Section.Renewed

/-!
# The First Named Section

A file of one entity has its first named section as the heading of the entity, and all lines behind
that heading as its section (`Outline.single?_of_leads`).  Rewriting such a file for the record of
the entity changes the heading and the lines of the one section, and the later sections of the same
name (`Outline.single?_rewriteBody`).
-/

namespace Markbook

/-- The first section of a body that has a name, with the sections in front of it and behind it. -/
structure Section.Leads (t : StatusTable) (body : Text) (pre : List Section) (s : Section)
    (later : List Section) : Prop where
  cut_eq : cut body = pre ++ s :: later
  unnamed : ∀ p ∈ pre, p.name t = []
  named : s.name t ≠ []

namespace Section.Leads

variable {t : StatusTable} {body : Text} {pre later : List Section} {s p : Section}

theorem mem (h : Leads t body pre s later) : s ∈ cut body := by
  rw [h.cut_eq]
  exact List.mem_append_right _ List.mem_cons_self

theorem mem_of_mem_pre (h : Leads t body pre s later) (hp : p ∈ pre) : p ∈ cut body := by
  rw [h.cut_eq]
  exact List.mem_append_left _ hp

theorem mem_of_mem_later (h : Leads t body pre s later) (hp : p ∈ later) : p ∈ cut body := by
  rw [h.cut_eq]
  exact List.mem_append_right _ (List.mem_cons_of_mem _ hp)

theorem body_ne_nil (h : Leads t body pre s later) : body ≠ [] := body_ne_nil_of_mem_cut h.mem

/-- The lines behind the heading of the first named section. -/
theorem newline_not_mem (h : Leads t body pre s later) :
    ∀ l ∈ s.lines ++ later.flatMap asLines, '\n' ∉ l := by
  intro l hl
  rcases List.mem_append.1 hl with hl | hl
  · exact newline_not_mem_of_mem_section h.mem hl
  · obtain ⟨p, hp, hl⟩ := List.mem_flatMap.1 hl
    exact newline_not_mem_of_mem_asLines (h.mem_of_mem_later hp) hl

end Section.Leads

namespace Outline

/-- Lines without a heading that has a name. -/
def IsUnnamed (t : StatusTable) (ls : List Text) : Prop :=
  ∀ l ∈ ls, ∀ level text, Heading.split? (Text.trim l) = some (level, text) →
    (Heading.ofText t text).name = []

variable {m : Markers} {t : StatusTable} {a ls : List Text} {body : Text} {ss : List Section}

/-! ## Lines in front of a name -/

theorem IsUnnamed.append (ha : IsUnnamed t a) (hls : IsUnnamed t ls) : IsUnnamed t (a ++ ls) :=
  fun l hl ↦ (List.mem_append.1 hl).elim (ha l) (hls l)

theorem IsUnnamed.map_chomp (h : IsUnnamed t ls) : IsUnnamed t (ls.map Text.chomp) := by
  intro l hl level text hsplit
  obtain ⟨l', hl', rfl⟩ := List.mem_map.1 hl
  rw [Text.trim_chomp] at hsplit
  exact h l' hl' level text hsplit

theorem isUnnamed_of_lines (h : ∀ l ∈ ls, Heading.isHeading l = false) : IsUnnamed t ls := by
  intro l hl level text hsplit
  rw [Heading.isHeading_eq_false_iff.1 (h l hl)] at hsplit
  simp at hsplit

theorem isUnnamed_of_sections (h : ∀ s ∈ ss, s.IsCut) (hname : ∀ s ∈ ss, s.name t = []) :
    IsUnnamed t (ss.flatMap Section.asLines) := by
  intro l hl level text hsplit
  obtain ⟨s, hs, hl⟩ := List.mem_flatMap.1 hl
  rcases List.mem_cons.1 hl with rfl | hl
  · rw [(h s hs).heading, Option.some.injEq, Prod.mk.injEq] at hsplit
    rw [← hsplit.2]
    exact hname s hs
  · exact isUnnamed_of_lines (h s hs).lines l hl level text hsplit

theorem firstEntity?_append (h : IsUnnamed t a) (m : Markers) (n : Nat) (ls : List Text) :
    firstEntity? m t n (a ++ ls) = firstEntity? m t (n + a.length) ls := by
  induction a generalizing n with
  | nil => rfl
  | cons l r ih =>
    have hr : IsUnnamed t r := fun l' hl' ↦ h l' (List.mem_cons_of_mem _ hl')
    have hnext :=
      calc
        firstEntity? m t (n + 1) (r ++ ls) = firstEntity? m t (n + 1 + r.length) ls := ih hr (n + 1)
        _ = firstEntity? m t (n + (l :: r).length) ls := by
          rw [List.length_cons, Nat.add_right_comm, Nat.add_assoc]
    rw [List.cons_append, firstEntity?]
    split
    · next level text hsplit =>
      have hname := h l List.mem_cons_self level text hsplit
      simp only [hname, List.isEmpty_nil, if_true]
      exact hnext
    · exact hnext

theorem firstEntity?_of_isUnnamed (h : IsUnnamed t ls) (m : Markers) (n : Nat) :
    firstEntity? m t n ls = none := by
  have happend := firstEntity?_append h m n []
  rw [List.append_nil] at happend
  rw [happend]
  rfl

theorem firstEntity?_cons {l text : Text} {level : Nat}
    (h : Heading.split? (Text.trim l) = some (level, text))
    (hne : (Heading.ofText t text).name ≠ []) (m : Markers) (n : Nat) (r : List Text) :
    firstEntity? m t n (l :: r) =
      some (Entity.ofSection m t (Heading.ofText t text) level n (Text.unlines r)) := by
  rw [firstEntity?, h]
  simp only
  rw [if_neg (by simpa using hne)]

/-! ## Sections of a file -/

variable {pre later : List Section} {s : Section}

/-- The lines in front of the first name. -/
theorem isUnnamed_lead (h : Section.Leads t body pre s later) :
    IsUnnamed t (Section.lead body ++ pre.flatMap Section.asLines) :=
  IsUnnamed.append (isUnnamed_of_lines fun _ hl ↦ Section.isHeading_of_mem_lead hl)
    (isUnnamed_of_sections (fun _ hp ↦ Section.isCut_of_mem_cut (h.mem_of_mem_pre hp)) h.unnamed)

/-- The entity of a file has everything behind its heading as its section. -/
theorem single?_of_leads (h : Section.Leads t body pre s later) (m : Markers) :
    ∃ line, single? m t body = some (Entity.ofSection m t (Heading.ofText t s.text) s.level line
      (Text.unlines (s.lines ++ later.flatMap Section.asLines))) := by
  have hlines :=
    calc
      Text.lines body = Section.lead body ++ (Section.cut body).flatMap Section.asLines :=
        Section.lines_eq_lead_append_cut body
      _ = (Section.lead body ++ pre.flatMap Section.asLines) ++
          (s.asLines ++ later.flatMap Section.asLines) := by
        rw [h.cut_eq, List.flatMap_append, List.flatMap_cons, List.append_assoc]
      _ = (Section.lead body ++ pre.flatMap Section.asLines) ++
          s.heading :: (s.lines ++ later.flatMap Section.asLines) := rfl
  unfold single?
  rw [hlines, firstEntity?_append (isUnnamed_lead h),
    firstEntity?_cons (Section.isCut_of_mem_cut h.mem).heading h.named]
  exact ⟨_, rfl⟩

theorem exists_leads_of_single? {e : Entity} (h : single? m t body = some e) :
    ∃ pre s later line, Section.Leads t body pre s later ∧
      e = Entity.ofSection m t (Heading.ofText t s.text) s.level line
        (Text.unlines (s.lines ++ later.flatMap Section.asLines)) := by
  cases hfind : (Section.cut body).find? fun s ↦ s.name t ≠ [] with
  | some s =>
    obtain ⟨hne, pre, later, hcut, hpre⟩ := List.find?_eq_some_iff_append.1 hfind
    have hleads : Section.Leads t body pre s later :=
      ⟨hcut, fun p hp ↦ by simpa using hpre p hp, by simpa using hne⟩
    obtain ⟨line, hline⟩ := single?_of_leads hleads m
    rw [hline, Option.some.injEq] at h
    exact ⟨pre, s, later, line, hleads, h.symm⟩
  | none =>
    exfalso
    rw [List.find?_eq_none] at hfind
    have hlines : IsUnnamed t (Text.lines body) := by
      rw [Section.lines_eq_lead_append_cut]
      refine IsUnnamed.append (isUnnamed_of_lines fun _ hl ↦ Section.isHeading_of_mem_lead hl) ?_
      exact isUnnamed_of_sections (fun s hs ↦ Section.isCut_of_mem_cut hs)
        fun s hs ↦ by simpa using hfind s hs
    unfold single? at h
    rw [firstEntity?_of_isUnnamed hlines] at h
    simp at h

/-! ## Rewriting a file -/

variable {r : Record}

section Rewritten

variable (h : Section.Leads t body pre s later) (hname : s.name t = r.name)
  (hheading : Heading.IsLine t r.status r.name r.title)
  (hblock : ∀ l ∈ Section.blockLines r.dialect (r.writtenFields t), '\n' ∉ l)

include hheading hblock in
theorem newline_not_mem_rewritten {p : Section} (hp : p ∈ Section.cut body) :
    ∀ l ∈ Section.rewrittenLines t [r] p, '\n' ∉ l := by
  intro l hl
  refine Section.newline_not_mem_rewrittenLines hp (fun level r' hr' ↦ ?_) hl
  rw [Section.eq_of_recordOf?_singleton (Section.isCut_of_mem_cut hp) hr']
  exact ⟨hheading, hblock⟩

include h hname hheading hblock in
/-- Only the first named section and later ones of its name are rewritten. -/
theorem lines_rewriteBody_of_leads :
    Text.lines (rewriteBody t [r] body) =
      (Section.lead body ++ pre.flatMap Section.asLines).map Text.chomp ++
        Text.chomp (Heading.write t s.level r.status r.name r.title) ::
          (Section.refilled r.dialect (r.writtenFields t) s.lines ++
            later.flatMap (Section.rewrittenLines t [r])).map Text.chomp := by
  have hfront : pre.flatMap (Section.rewrittenLines t [r]) = pre.flatMap Section.asLines := by
    refine List.flatMap_congr fun p hp ↦ Section.rewrittenLines_of_name_ne
      (Section.isCut_of_mem_cut (h.mem_of_mem_pre hp)) ?_
    rw [h.unnamed p hp, ← hname]
    exact h.named.symm
  calc
    Text.lines (rewriteBody t [r] body) =
        (Section.lead body ++ (Section.cut body).flatMap (Section.rewrittenLines t [r])).map
          Text.chomp :=
      Section.lines_rewriteBody h.body_ne_nil fun p hp ↦
        newline_not_mem_rewritten hheading hblock hp
    _ = (Section.lead body ++ (pre.flatMap Section.asLines ++
          (Section.rewrittenLines t [r] s ++ later.flatMap (Section.rewrittenLines t [r])))).map
            Text.chomp := by
      rw [h.cut_eq, List.flatMap_append, hfront, List.flatMap_cons]
    _ = _ := by
      rw [Section.rewrittenLines_of_name_eq (Section.isCut_of_mem_cut h.mem) hname]
      simp

include h hname hheading hblock in
/-- The entity of a file that was rewritten for its record.  It has everything behind the new
heading as its section, the later sections too. -/
theorem single?_rewriteBody
    (hnamed :
      (Heading.ofText t (Text.trim (Heading.writtenText t r.status r.name r.title))).name ≠ [])
    (m : Markers) :
    ∃ line, single? m t (rewriteBody t [r] body) =
      some (Entity.ofSection m t
        (Heading.ofText t (Text.trim (Heading.writtenText t r.status r.name r.title))) s.level line
        (Text.unlines ((Section.refilled r.dialect (r.writtenFields t) s.lines ++
          later.flatMap (Section.rewrittenLines t [r])).map Text.chomp))) := by
  obtain ⟨h1, h6⟩ := (Section.isCut_of_mem_cut h.mem).level_pos
  have hsplit : Heading.split? (Text.trim (Text.chomp
      (Heading.write t s.level r.status r.name r.title))) =
        some (s.level, Text.trim (Heading.writtenText t r.status r.name r.title)) := by
    rw [Text.trim_chomp]
    exact Heading.split?_write h1 h6 hheading
  unfold single?
  rw [lines_rewriteBody_of_leads h hname hheading hblock,
    firstEntity?_append (isUnnamed_lead h).map_chomp, firstEntity?_cons hsplit hnamed]
  exact ⟨_, rfl⟩

end Rewritten

end Outline

end Markbook
