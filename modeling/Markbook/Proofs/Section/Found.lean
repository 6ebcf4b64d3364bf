import Markbook.Proofs.Section.Appended
import Markbook.Proofs.Section.Renewed

/-!
# Finding a Section Again

A section whose record fits is found again in the rewritten body, as it was renewed, whatever
becomes of the sections around it (`Section.exists_mem_cut_rewriteBody`): the block of another
section may have headings of its own, but the heading that follows a section always ends it.
-/

namespace Markbook

/-- The lines in front of a line feed and those behind it are read apart. -/
theorem Text.lines_append_line (a w : Text) :
    lines (a ++ '\n' :: w) = lines (a ++ ['\n']) ++ lines w := by
  induction a using line_induction with
  | nil => exact lines_append (l := []) (by simp) w
  | last l hne hl =>
    rw [lines_append hl, lines_append hl]
    rfl
  | line l s hl ih =>
    rw [List.append_assoc, List.cons_append, lines_append hl, ih, List.append_assoc,
      List.cons_append, lines_append hl, List.cons_append]

/-- Pieces with a line feed behind each are read piece by piece. -/
theorem Text.lines_pieces (ps : List Text) :
    lines (ps.flatMap (· ++ ['\n'])) = ps.flatMap fun p ↦ lines (p ++ ['\n']) := by
  induction ps with
  | nil => rfl
  | cons p r ih =>
    rw [List.flatMap_cons, List.append_assoc, List.singleton_append, lines_append_line, ih,
      List.flatMap_cons]

namespace Section

variable {t : StatusTable} {records : List Record} {s : Section} {body : Text}

/-- A section is cut out of other lines when those behind it start with a heading. -/
theorem exists_mem_cutFrom (hs : s.IsCut) (n : Nat) (a : List Text) {ls : List Text}
    (hls : ∀ l ∈ ls.head?, Heading.isHeading l) :
    ∃ s' ∈ cutFrom n (a ++ (s.asLines ++ ls)), s'.unnumbered = s.unnumbered := by
  have htake : (s.lines ++ ls).takeWhile (!Heading.isHeading ·) = s.lines := by
    rw [List.takeWhile_append_of_pos fun l hl ↦ by simp [hs.lines l hl]]
    cases ls with
    | nil => rw [List.takeWhile_nil, List.append_nil]
    | cons l r => rw [List.takeWhile_cons_of_neg (by simp [hls l rfl]), List.append_nil]
  refine ⟨{ s with line := n + a.length }, ?_, rfl⟩
  change _ ∈ cutFrom n (a ++ s.heading :: (s.lines ++ ls))
  rw [cutFrom_append_heading hs.isHeading, cutFrom_cons_of_heading _ hs.heading, htake]
  exact List.mem_append_right _ List.mem_cons_self

/-- A rewritten section starts with a heading. -/
theorem exists_rewrittenLines (hs : s ∈ cut body)
    (h : ∀ level r, recordOf? t records s = some (level, r) →
      Heading.IsLine t r.status r.name r.title) :
    ∃ l ls, rewrittenLines t records s = l :: ls ∧ '\n' ∉ l ∧ Heading.isHeading l := by
  have hcut := isCut_of_mem_cut hs
  cases hr : recordOf? t records s with
  | none =>
    exact ⟨s.heading, s.lines, rewrittenLines_of_none hr,
      newline_not_mem_of_mem_asLines hs List.mem_cons_self, hcut.isHeading⟩
  | some p =>
    obtain ⟨level, r⟩ := p
    have hline := h level r hr
    obtain ⟨rfl, -, -⟩ := name_of_recordOf? hcut hr
    obtain ⟨h1, h6⟩ := hcut.level_pos
    exact ⟨_, _, rewrittenLines_of_recordOf? hr, Heading.newline_not_mem_write _ hline,
      Heading.isHeading_of_split? (Heading.split?_write h1 h6 hline)⟩

/-- The lines behind a rewritten section start with the next heading. -/
theorem isHeading_head_rewrittenLines {ss : List Section} (hss : ∀ s ∈ ss, s ∈ cut body)
    (h : ∀ s ∈ ss, ∀ level r, recordOf? t records s = some (level, r) →
      Heading.IsLine t r.status r.name r.title) :
    ∀ l ∈ ((ss.flatMap (rewrittenLines t records)).flatMap fun p ↦ Text.lines (p ++ ['\n'])).head?,
      Heading.isHeading l := by
  cases ss with
  | nil => simp
  | cons s r =>
    rw [List.forall_mem_cons] at hss h
    obtain ⟨l, ls, heq, hnew, hheading⟩ := exists_rewrittenLines hss.1 h.1
    rw [List.flatMap_cons, heq, List.cons_append, List.flatMap_cons, Text.lines_append hnew]
    simpa [Heading.isHeading_chomp] using hheading

/-- Whatever becomes of the sections around it, a section that fits is found again in the rewritten
body. -/
theorem exists_mem_cut_rewriteBody (hs : s ∈ cut body)
    (hlines : ∀ s ∈ cut body, ∀ level r, recordOf? t records s = some (level, r) →
      Heading.IsLine t r.status r.name r.title)
    (hfits : ∀ level r, recordOf? t records s = some (level, r) → r.Fits t) :
    ∃ s' ∈ cut (rewriteBody t records body), s'.unnumbered = (renewed t records s).unnumbered := by
  obtain ⟨a, b, hcut⟩ := List.append_of_mem hs
  have hown : (rewrittenLines t records s).flatMap (fun p ↦ Text.lines (p ++ ['\n'])) =
      (renewed t records s).asLines := by
    have hnew : ∀ l ∈ rewrittenLines t records s, '\n' ∉ l := fun l hl ↦
      newline_not_mem_rewrittenLines hs (fun level r hr ↦ (hfits level r hr).isLines) hl
    rw [← Text.lines_pieces, Text.lines_terminated hnew, ← asLines_renewed]
  have hpieces : lead body ++ (cut body).flatMap (rewrittenLines t records) =
      lead body ++ a.flatMap (rewrittenLines t records) ++
        (rewrittenLines t records s ++ b.flatMap (rewrittenLines t records)) := by
    rw [hcut, List.flatMap_append, List.flatMap_cons, List.append_assoc]
  have hb : ∀ s' ∈ b, s' ∈ cut body := fun s' hs' ↦ by
    rw [hcut]
    exact List.mem_append_right _ (List.mem_cons_of_mem _ hs')
  unfold cut
  rw [rewriteBody_eq (body_ne_nil_of_mem_cut hs), Text.lines_pieces, hpieces, List.flatMap_append,
    List.flatMap_append, List.flatMap_append, hown]
  exact exists_mem_cutFrom (isCut_renewed (isCut_of_mem_cut hs) hfits) 1 _
    (isHeading_head_rewrittenLines hb fun s' hs' ↦ hlines s' (hb s' hs'))

end Section

end Markbook
