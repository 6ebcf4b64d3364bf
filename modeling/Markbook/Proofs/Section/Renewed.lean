import Markbook.Proofs.Section.Held
import Markbook.Store.Rewrite

/-!
# Rewritten Sections

The lines of a rewritten body are those of its sections, rewritten one by one
(`Section.rewriteBody_eq_unlines`).  Rewriting a body and reading it again gives the sections of
the body, each `renewed`: with the heading and the block of its record, or as it was
(`Section.unnumbered_cut_rewriteBody`).  That takes records whose headings are lines and whose
blocks have no heading (`Record.Fits`).
-/

namespace Markbook

/-- A record whose heading is a line and whose block stays inside of a section. -/
structure Record.Fits (t : StatusTable) (r : Record) : Prop where
  heading : Heading.IsLine t r.status r.name r.title
  block : ∀ l ∈ Section.blockLines r.dialect (r.writtenFields t),
    '\n' ∉ l ∧ Heading.isHeading l = false

theorem Record.Fits.isLines {t : StatusTable} {r : Record} (h : r.Fits t) :
    Heading.IsLine t r.status r.name r.title ∧
      ∀ l ∈ Section.blockLines r.dialect (r.writtenFields t), '\n' ∉ l :=
  ⟨h.heading, fun l hl ↦ (h.block l hl).1⟩

namespace Section

/-- The record that the heading of a section names. -/
def recordOf? (t : StatusTable) (records : List Record) (s : Section) : Option (Nat × Record) :=
  recordNamed? t records s.heading

/-- The lines of a section, rewritten if it belongs to one of the records. -/
def rewritten (t : StatusTable) (records : List Record) (s : Section) : List Text :=
  match recordOf? t records s with
  | some (level, r) =>
    Heading.write t level r.status r.name r.title ::
      withFields (r.writtenFields t) r.dialect s.lines
  | none => s.heading :: s.lines

variable {t : StatusTable} {records : List Record} {s : Section} {body : Text}

/-- The name in the heading of a section. -/
def name (t : StatusTable) (s : Section) : Text := (Heading.ofText t s.text).name

theorem recordOf?_eq (h : s.IsCut) (t : StatusTable) (records : List Record) :
    recordOf? t records s =
      (records.find? fun r ↦ r.name = s.name t).map fun r ↦ (s.level, r) := by
  unfold recordOf? recordNamed?
  rw [Heading.named?_eq, h.heading]
  rfl

theorem name_of_recordOf? (h : s.IsCut) {level : Nat} {r : Record}
    (hr : recordOf? t records s = some (level, r)) :
    level = s.level ∧ r.name = s.name t ∧ r ∈ records := by
  rw [recordOf?_eq h] at hr
  obtain ⟨r', hfind, heq⟩ := Option.map_eq_some_iff.1 hr
  simp only [Prod.mk.injEq] at heq
  obtain ⟨rfl, rfl⟩ := heq
  exact ⟨rfl, by simpa using List.find?_some hfind, List.mem_of_find?_eq_some hfind⟩

theorem recordOf?_singleton (hs : s.IsCut) (t : StatusTable) (r : Record) :
    recordOf? t [r] s = if s.name t = r.name then some (s.level, r) else none := by
  rw [recordOf?_eq hs, List.find?_singleton]
  split
  · next h => rw [if_pos (of_decide_eq_true h).symm, Option.map_some]
  · next h => rw [if_neg fun heq ↦ h (by simp [heq]), Option.map_none]

theorem eq_of_recordOf?_singleton (hs : s.IsCut) {level : Nat} {r r' : Record}
    (hr : recordOf? t [r] s = some (level, r')) : r' = r := by
  have hmem := (name_of_recordOf? hs hr).2.2
  rwa [List.mem_singleton] at hmem

/-- The record of a section is the only one to look at. -/
theorem fits_of_recordOf?_eq {level : Nat} {r : Record}
    (hr : recordOf? t records s = some (level, r))
    (h : r.Fits t) : ∀ level r, recordOf? t records s = some (level, r) → r.Fits t := by
  intro level' r' hr'
  rw [hr] at hr'
  simp only [Option.some.injEq, Prod.mk.injEq] at hr'
  exact hr'.2 ▸ h

/-! ## One section -/

/-- The lines of a rewritten section, those of the block one by one. -/
def rewrittenLines (t : StatusTable) (records : List Record) (s : Section) : List Text :=
  match recordOf? t records s with
  | some (level, r) =>
    Heading.write t level r.status r.name r.title ::
      refilled r.dialect (r.writtenFields t) s.lines
  | none => s.asLines

theorem rewrittenLines_of_none (h : recordOf? t records s = none) :
    rewrittenLines t records s = s.asLines := by
  unfold rewrittenLines
  rw [h]

theorem rewrittenLines_of_recordOf? {level : Nat} {r : Record}
    (h : recordOf? t records s = some (level, r)) :
    rewrittenLines t records s =
      Heading.write t level r.status r.name r.title ::
        refilled r.dialect (r.writtenFields t) s.lines := by
  unfold rewrittenLines
  rw [h]

/-- A section of another name stays as it is. -/
theorem rewrittenLines_of_name_ne {r : Record} (hs : s.IsCut) (h : s.name t ≠ r.name) :
    rewrittenLines t [r] s = s.asLines := by
  refine rewrittenLines_of_none ?_
  rw [recordOf?_singleton hs, if_neg h]

theorem rewrittenLines_of_name_eq {r : Record} (hs : s.IsCut) (h : s.name t = r.name) :
    rewrittenLines t [r] s =
      Heading.write t s.level r.status r.name r.title ::
        refilled r.dialect (r.writtenFields t) s.lines := by
  refine rewrittenLines_of_recordOf? ?_
  rw [recordOf?_singleton hs, if_pos h]

/-- A section as it is when it has been rewritten and read again. -/
def renewed (t : StatusTable) (records : List Record) (s : Section) : Section :=
  match recordOf? t records s with
  | some (level, r) =>
    { s with
      heading := Text.chomp (Heading.write t level r.status r.name r.title)
      text := Text.trim (Heading.writtenText t r.status r.name r.title)
      lines := (refilled r.dialect (r.writtenFields t) s.lines).map Text.chomp }
  | none => { s with heading := Text.chomp s.heading, lines := s.lines.map Text.chomp }

theorem asLines_renewed (t : StatusTable) (records : List Record) (s : Section) :
    (renewed t records s).asLines = (rewrittenLines t records s).map Text.chomp := by
  unfold renewed rewrittenLines
  split <;> rfl

theorem level_renewed (t : StatusTable) (records : List Record) (s : Section) :
    (renewed t records s).level = s.level := by
  unfold renewed
  split <;> rfl

theorem mem_refilled {d : Dialect} {fields : Fields} {ls : List Text} {l : Text}
    (h : l ∈ refilled d fields ls) : l ∈ ls ∨ l ∈ blockLines d fields := by
  unfold refilled at h
  simp only [List.mem_append] at h
  rcases h with (h | h) | h
  · exact .inl (Dialect.mem_of_mem_ahead h)
  · exact .inr h
  · exact .inl (Dialect.mem_of_mem_behind h)

theorem isCut_renewed (hs : s.IsCut)
    (h : ∀ level r, recordOf? t records s = some (level, r) → r.Fits t) :
    (renewed t records s).IsCut := by
  unfold renewed
  cases hr : recordOf? t records s with
  | some p =>
    obtain ⟨level, r⟩ := p
    have hfits := h level r hr
    obtain ⟨rfl, -, -⟩ := name_of_recordOf? hs hr
    obtain ⟨h1, h6⟩ := hs.level_pos
    refine ⟨?_, fun l hl ↦ ?_⟩
    · change Heading.split? (Text.trim (Text.chomp _)) = _
      rw [Text.trim_chomp]
      exact Heading.split?_write h1 h6 hfits.heading
    · obtain ⟨l', hl', rfl⟩ := List.mem_map.1 hl
      rw [Heading.isHeading_chomp]
      rcases mem_refilled hl' with hl' | hl'
      · exact hs.lines l' hl'
      · exact (hfits.block l' hl').2
  | none =>
    refine ⟨?_, fun l hl ↦ ?_⟩
    · change Heading.split? (Text.trim (Text.chomp _)) = _
      rw [Text.trim_chomp]
      exact hs.heading
    · obtain ⟨l', hl', rfl⟩ := List.mem_map.1 hl
      rw [Heading.isHeading_chomp]
      exact hs.lines l' hl'

theorem newline_not_mem_rewrittenLines (hs : s ∈ cut body)
    (h : ∀ level r, recordOf? t records s = some (level, r) →
      Heading.IsLine t r.status r.name r.title ∧
        ∀ l ∈ blockLines r.dialect (r.writtenFields t), '\n' ∉ l) {l : Text}
    (hl : l ∈ rewrittenLines t records s) : '\n' ∉ l := by
  unfold rewrittenLines at hl
  cases hr : recordOf? t records s with
  | some p =>
    obtain ⟨level, r⟩ := p
    obtain ⟨hheading, hblock⟩ := h level r hr
    rw [hr] at hl
    rcases List.mem_cons.1 hl with rfl | hl
    · exact Heading.newline_not_mem_write level hheading
    · rcases mem_refilled hl with hl | hl
      · exact newline_not_mem_of_mem_section hs hl
      · exact hblock l hl
  | none =>
    rw [hr] at hl
    exact newline_not_mem_of_mem_asLines hs hl

/-! ## The whole body -/

theorem writtenLines_ne_nil {d : Dialect} {fields : Fields} (h : fields.isEmpty = false) :
    d.writtenLines fields ≠ [] := by
  have hne := Dialect.entries_ne_nil h
  cases d <;> simp [Dialect.writtenLines, hne]

/-- A block that is written as one text has the lines of the block. -/
theorem rewritten_flatMap (t : StatusTable) (records : List Record) (s : Section) :
    (rewritten t records s).flatMap (· ++ ['\n']) =
      (rewrittenLines t records s).flatMap (· ++ ['\n']) := by
  unfold rewritten rewrittenLines
  cases recordOf? t records s with
  | none => rfl
  | some p =>
    obtain ⟨level, r⟩ := p
    have hblock : (if (r.writtenFields t).isEmpty then []
        else [r.dialect.write (r.writtenFields t)]).flatMap (· ++ ['\n']) =
          (blockLines r.dialect (r.writtenFields t)).flatMap (· ++ ['\n']) := by
      unfold blockLines
      cases hempty : (r.writtenFields t).isEmpty with
      | true => rfl
      | false =>
        have hterminated := Text.unlines_terminated (writtenLines_ne_nil (d := r.dialect) hempty)
        simpa [Dialect.write] using hterminated
    simp only [List.flatMap_cons, withFields_eq, refilled, List.flatMap_append, hblock]

/-- The lines of a rewritten body are those in front of the first heading and those of its
sections. -/
theorem written_ofLines (t : StatusTable) (records : List Record) {skipped : Nat} (n : Nat)
    {ls : List Text} (h : skipped ≤ (ls.takeWhile (!Heading.isHeading ·)).length) :
    (Portion.ofLines t records skipped n ls).flatMap (Portion.written t) =
      (ls.takeWhile (!Heading.isHeading ·)).drop skipped ++
        (cutFrom n ls).flatMap (rewritten t records) := by
  induction ls generalizing skipped n with
  | nil => simp [Portion.ofLines, cutFrom]
  | cons l r ih =>
    cases hsplit : Heading.split? (Text.trim l) with
    | some p =>
      obtain ⟨level, text⟩ := p
      have hheading := Heading.isHeading_of_split? hsplit
      rw [List.takeWhile_cons_of_neg (by simp [hheading])] at h ⊢
      obtain rfl : skipped = 0 := Nat.le_zero.1 h
      rw [Portion.ofLines, cutFrom_cons_of_heading n hsplit, List.flatMap_cons, rewritten,
        recordOf?]
      cases recordNamed? t records l with
      | none => simp [Portion.written, ih (n + 1) (Nat.zero_le _)]
      | some q => simp [Portion.written, ih (n + 1) (Nat.le_refl _)]
    | none =>
      have hline : Heading.isHeading l = false := Heading.isHeading_eq_false_iff.2 hsplit
      have hcut : cutFrom n (l :: r) = cutFrom (n + 1) r := by rw [cutFrom, hsplit]
      rw [List.takeWhile_cons_of_pos (by simp [hline])] at h ⊢
      rw [hcut]
      cases skipped with
      | zero =>
        have hnone : recordNamed? t records l = none := by
          unfold recordNamed?
          rw [Heading.named?_eq, hsplit]
          rfl
        rw [Portion.ofLines, hnone]
        simp [Portion.written, ih (n + 1) (Nat.zero_le _)]
      | succ skipped =>
        rw [Portion.ofLines, List.drop_succ_cons]
        exact ih (n + 1) (by simpa using h)

/-- Rewriting a body rewrites its sections one by one. -/
theorem rewriteBody_eq_unlines (t : StatusTable) (records : List Record) (body : Text) :
    rewriteBody t records body =
      Text.unlines (lead body ++ (cut body).flatMap (rewritten t records)) ++ ['\n'] := by
  unfold rewriteBody
  rw [written_ofLines t records 1 (Nat.zero_le _)]
  rfl

/-- A rewritten body is its pieces, each with a line feed. -/
theorem rewriteBody_eq_flatMap (hne : body ≠ []) (t : StatusTable) (records : List Record) :
    rewriteBody t records body =
      (lead body ++ (cut body).flatMap (rewritten t records)).flatMap (· ++ ['\n']) := by
  have hpieces : lead body ++ (cut body).flatMap (rewritten t records) ≠ [] := by
    intro hnil
    rw [List.append_eq_nil_iff, List.flatMap_eq_nil_iff] at hnil
    have hlines := lines_eq_lead_append_cut body
    rw [hnil.1, List.nil_append] at hlines
    have hcut : cut body = [] := by
      rw [List.eq_nil_iff_forall_not_mem]
      intro s hs
      have := hnil.2 s hs
      unfold rewritten at this
      split at this <;> simp at this
    rw [hcut] at hlines
    exact hne (Text.lines_eq_nil_iff.1 hlines)
  rw [rewriteBody_eq_unlines, Text.unlines_terminated hpieces]

theorem rewriteBody_eq (hne : body ≠ []) (t : StatusTable) (records : List Record) :
    rewriteBody t records body =
      (lead body ++ (cut body).flatMap (rewrittenLines t records)).flatMap (· ++ ['\n']) := by
  rw [rewriteBody_eq_flatMap hne, List.flatMap_append, List.flatMap_append, List.flatMap_assoc,
    List.flatMap_assoc]
  congr 2
  funext s
  exact rewritten_flatMap t records s

/-- The lines of a rewritten body, when none of its pieces holds a line feed. -/
theorem lines_rewriteBody (hne : body ≠ [])
    (h : ∀ s ∈ cut body, ∀ l ∈ rewrittenLines t records s, '\n' ∉ l) :
    Text.lines (rewriteBody t records body) =
      (lead body ++ (cut body).flatMap (rewrittenLines t records)).map Text.chomp := by
  rw [rewriteBody_eq hne, Text.lines_terminated]
  intro l hl
  rcases List.mem_append.1 hl with hl | hl
  · exact newline_not_mem_of_mem_lead hl
  · obtain ⟨s, hs, hl⟩ := List.mem_flatMap.1 hl
    exact h s hs l hl

theorem lines_rewriteBody_of_fits (hne : body ≠ [])
    (h : ∀ s ∈ cut body, ∀ level r, recordOf? t records s = some (level, r) → r.Fits t) :
    Text.lines (rewriteBody t records body) =
      (lead body).map Text.chomp ++ ((cut body).map (renewed t records)).flatMap asLines := by
  rw [lines_rewriteBody hne, List.map_append, List.map_flatMap, List.flatMap_map]
  · congr 2
    funext s
    exact (asLines_renewed t records s).symm
  · exact fun s hs l hl ↦ newline_not_mem_rewrittenLines hs
      (fun level r hr ↦ (h s hs level r hr).isLines) hl

theorem isHeading_lead_chomp {l : Text} (h : l ∈ (lead body).map Text.chomp) :
    Heading.isHeading l = false := by
  obtain ⟨l', hl', rfl⟩ := List.mem_map.1 h
  rw [Heading.isHeading_chomp]
  exact isHeading_of_mem_lead hl'

/-- The sections of a rewritten body. -/
theorem unnumbered_cut_rewriteBody
    (h : ∀ s ∈ cut body, ∀ level r, recordOf? t records s = some (level, r) → r.Fits t) :
    (cut (rewriteBody t records body)).map unnumbered =
      ((cut body).map (renewed t records)).map unnumbered := by
  by_cases hne : body = []
  · subst hne
    rfl
  · refine unnumbered_cut (lines_rewriteBody_of_fits hne h) (fun l hl ↦ isHeading_lead_chomp hl) ?_
    intro s' hs'
    obtain ⟨s, hs, rfl⟩ := List.mem_map.1 hs'
    exact isCut_renewed (isCut_of_mem_cut hs) (h s hs)

end Section

end Markbook
