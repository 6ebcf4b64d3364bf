import Markbook.Outline
import Markbook.Proofs.Heading
import Markbook.Proofs.Text.Lines

/-!
# Cutting at Headings

The lines of a body are those in front of the first heading, then each heading with the lines of
its section (`Section.lead_append_cutFrom`).  Cutting gives sections back when they stand in such
an order, their line numbers aside (`Section.unnumbered_cutFrom`).  The entities that an outline
collects line by line are those of its sections (`Outline.entities_eq`).
-/

namespace Markbook

/-- A heading line with the lines of its section. -/
structure Section where
  /-- Line number in the body, from 1. -/
  line : Nat
  level : Nat
  /-- The heading line as written. -/
  heading : Text
  /-- Text behind the hashes. -/
  text : Text
  lines : List Text
deriving DecidableEq, Repr

namespace Section

/-- The lines of a section, each with its line feed. -/
def body (s : Section) : Text := s.lines.flatMap (· ++ ['\n'])

/-- Cuts numbered lines at headings. -/
def cutFrom : Nat → List Text → List Section
  | _, [] => []
  | n, l :: r =>
    match Heading.split? (Text.trim l) with
    | some (level, text) =>
      ⟨n, level, l, text, r.takeWhile (!Heading.isHeading ·)⟩ :: cutFrom (n + 1) r
    | none => cutFrom (n + 1) r

/-- The sections of a body in document order. -/
def cut (body : Text) : List Section := cutFrom 1 (Text.lines body)

/-- The lines of a body in front of its first heading. -/
def lead (body : Text) : List Text := (Text.lines body).takeWhile (!Heading.isHeading ·)

/-- The entity of a section, when its heading has a name. -/
def entity? (m : Markers) (t : StatusTable) (s : Section) : Option Entity :=
  let h := Heading.ofText t s.text
  if h.name.isEmpty then none else some (Entity.ofSection m t h s.level s.line s.body)

/-- The heading of a section and its lines. -/
def asLines (s : Section) : List Text := s.heading :: s.lines

/-- A section without its place in the body. -/
def unnumbered (s : Section) : Section := { s with line := 0 }

/-- The heading of a section is one, and none of its lines is. -/
structure IsCut (s : Section) : Prop where
  heading : Heading.split? (Text.trim s.heading) = some (s.level, s.text)
  lines : ∀ l ∈ s.lines, Heading.isHeading l = false

variable {s : Section} {ss : List Section}

theorem IsCut.isHeading (h : s.IsCut) : Heading.isHeading s.heading = true :=
  Heading.isHeading_of_split? h.heading

theorem IsCut.level_pos (h : s.IsCut) : 1 ≤ s.level ∧ s.level ≤ 6 := by
  obtain ⟨-, h1, h6, -, -⟩ := Heading.split?_eq_some_iff.1 h.heading
  exact ⟨h1, h6⟩

theorem IsCut.text_trimmed (h : s.IsCut) : s.text.IsTrimmed := by
  obtain ⟨-, -, -, htext, -⟩ := Heading.split?_eq_some_iff.1 h.heading
  rw [htext]
  exact Text.isTrimmed_trim _

theorem IsCut.text_part (h : s.IsCut) : s.text <:+: s.heading := by
  obtain ⟨-, -, -, htext, -⟩ := Heading.split?_eq_some_iff.1 h.heading
  rw [htext]
  exact ((Text.trim_isInfix _).trans (List.drop_suffix _ _).isInfix).trans (Text.trim_isInfix _)

/-! ## From lines to sections -/

theorem cutFrom_cons_of_heading (n : Nat) {l text : Text} {level : Nat}
    (h : Heading.split? (Text.trim l) = some (level, text)) (r : List Text) :
    cutFrom n (l :: r) =
      ⟨n, level, l, text, r.takeWhile (!Heading.isHeading ·)⟩ :: cutFrom (n + 1) r := by
  rw [cutFrom, h]

theorem cutFrom_append_of_lines (n : Nat) {a : List Text}
    (ha : ∀ l ∈ a, Heading.isHeading l = false) (ls : List Text) :
    cutFrom n (a ++ ls) = cutFrom (n + a.length) ls := by
  induction a generalizing n with
  | nil => rfl
  | cons l r ih =>
    rw [List.forall_mem_cons] at ha
    rw [List.cons_append, cutFrom, Heading.isHeading_eq_false_iff.1 ha.1]
    simp only
    rw [ih (n + 1) ha.2, List.length_cons, Nat.add_right_comm, Nat.add_assoc]

theorem isCut_of_mem_cutFrom {n : Nat} {ls : List Text} (h : s ∈ cutFrom n ls) : s.IsCut := by
  induction ls generalizing n with
  | nil => simp [cutFrom] at h
  | cons l r ih =>
    unfold cutFrom at h
    split at h
    · next level text hsplit =>
      rcases List.mem_cons.1 h with rfl | h
      · exact ⟨hsplit, fun l hl ↦ by simpa using List.mem_takeWhile_imp hl⟩
      · exact ih h
    · exact ih h

theorem lead_append_cutFrom (n : Nat) (ls : List Text) :
    ls = ls.takeWhile (!Heading.isHeading ·) ++ (cutFrom n ls).flatMap asLines := by
  induction ls generalizing n with
  | nil => rfl
  | cons l r ih =>
    cases hsplit : Heading.split? (Text.trim l) with
    | some p =>
      have hheading := Heading.isHeading_of_split? hsplit
      rw [cutFrom_cons_of_heading n hsplit, List.takeWhile_cons_of_neg (by simp [hheading]),
        List.nil_append, List.flatMap_cons]
      change l :: r = l :: (r.takeWhile _ ++ _)
      rw [← ih (n + 1)]
    | none =>
      have hline : Heading.isHeading l = false := Heading.isHeading_eq_false_iff.2 hsplit
      rw [List.takeWhile_cons_of_pos (by simp [hline]), cutFrom, hsplit, List.cons_append,
        ← ih (n + 1)]

theorem lines_eq_lead_append_cut (body : Text) :
    Text.lines body = lead body ++ (cut body).flatMap asLines :=
  lead_append_cutFrom 1 (Text.lines body)

theorem isCut_of_mem_cut {body : Text} (h : s ∈ cut body) : s.IsCut := isCut_of_mem_cutFrom h

theorem body_ne_nil_of_mem_cut {body : Text} (h : s ∈ cut body) : body ≠ [] := by
  rintro rfl
  simp [cut, cutFrom, Text.lines] at h

theorem isHeading_of_mem_lead {body l : Text} (h : l ∈ lead body) :
    Heading.isHeading l = false := by
  simpa using List.mem_takeWhile_imp h

theorem newline_not_mem_of_mem_lead {body l : Text} (h : l ∈ lead body) : '\n' ∉ l := by
  refine Text.newline_not_mem_of_mem_lines (s := body) ?_
  rw [lines_eq_lead_append_cut]
  exact List.mem_append_left _ h

theorem newline_not_mem_of_mem_asLines {body l : Text} (hs : s ∈ cut body) (h : l ∈ s.asLines) :
    '\n' ∉ l := by
  refine Text.newline_not_mem_of_mem_lines (s := body) ?_
  rw [lines_eq_lead_append_cut]
  exact List.mem_append_right _ (List.mem_flatMap.2 ⟨s, hs, h⟩)

theorem newline_not_mem_of_mem_section {body l : Text} (hs : s ∈ cut body) (h : l ∈ s.lines) :
    '\n' ∉ l :=
  newline_not_mem_of_mem_asLines hs (List.mem_cons_of_mem _ h)

/-! ## From sections to entities -/

theorem OpenHeading.body_eq (o : OpenHeading) : o.body = o.lines.flatMap (· ++ ['\n']) := by
  unfold OpenHeading.body
  split
  · next h => rw [List.isEmpty_iff.1 h, List.flatMap_nil]
  · next h => exact Text.unlines_terminated fun hnil ↦ h (List.isEmpty_iff.2 hnil)

/-- The heading of a section opens it, and its lines complete it. -/
theorem entity?_eq (m : Markers) (t : StatusTable) (s : Section) :
    entity? m t s = (OpenHeading.ofText? t s.level s.line s.text).map fun o ↦
      OpenHeading.close m t { o with lines := o.lines ++ s.lines } := by
  unfold entity? OpenHeading.ofText?
  simp only
  split
  · rfl
  · rw [Option.map_some, OpenHeading.close, OpenHeading.body_eq]
    rfl

/-- A section that is open gives its entity with the lines up to the next heading. -/
theorem collect_eq (m : Markers) (t : StatusTable) (open_ : Option OpenHeading) (n : Nat)
    (ls : List Text) :
    Outline.collect m t open_ n ls =
      (open_.map fun o ↦ OpenHeading.close m t
        { o with lines := o.lines ++ ls.takeWhile (!Heading.isHeading ·) }).toList ++
        (cutFrom n ls).filterMap (entity? m t) := by
  induction ls generalizing open_ n with
  | nil => simp [Outline.collect, cutFrom]
  | cons l r ih =>
    rw [Outline.collect]
    cases hsplit : Heading.split? (Text.trim l) with
    | none =>
      have hline : Heading.isHeading l = false := Heading.isHeading_eq_false_iff.2 hsplit
      rw [List.takeWhile_cons_of_pos (by simp [hline]), cutFrom, hsplit]
      simp only
      rw [ih, Option.map_map]
      simp [Function.comp_def, OpenHeading.push]
    | some p =>
      obtain ⟨level, text⟩ := p
      have hheading := Heading.isHeading_of_split? hsplit
      have hopen := entity?_eq m t ⟨n, level, l, text, r.takeWhile (!Heading.isHeading ·)⟩
      rw [List.takeWhile_cons_of_neg (by simp [hheading]), cutFrom_cons_of_heading n hsplit]
      simp only
      rw [ih, ← hopen, List.filterMap_cons]
      simp only [List.append_nil]
      congr 1
      cases entity? m t ⟨n, level, l, text, r.takeWhile (!Heading.isHeading ·)⟩ <;> rfl

end Section

namespace Outline

/-- The entities of some sections. -/
def entitiesOf (m : Markers) (t : StatusTable) (ss : List Section) : List Entity :=
  ss.filterMap (Section.entity? m t)

/-- The entities of an outline are those of its sections. -/
theorem entities_eq (m : Markers) (t : StatusTable) (body : Text) :
    entities m t body = entitiesOf m t (Section.cut body) :=
  Section.collect_eq m t none 1 (Text.lines body)

end Outline

namespace Section

variable {s : Section} {ss : List Section}

/-! ## From sections to lines -/

theorem takeWhile_append_sections {a : List Text} (ha : ∀ l ∈ a, Heading.isHeading l = false)
    (h : ∀ s ∈ ss, s.IsCut) :
    (a ++ ss.flatMap asLines).takeWhile (!Heading.isHeading ·) = a := by
  rw [List.takeWhile_append_of_pos fun l hl ↦ by simp [ha l hl]]
  cases ss with
  | nil => simp
  | cons s r =>
    have hs := (h s List.mem_cons_self).isHeading
    simp [asLines, hs]

/-- Sections in a row are cut apart again. -/
theorem unnumbered_cutFrom (h : ∀ s ∈ ss, s.IsCut) (n : Nat) {a : List Text}
    (ha : ∀ l ∈ a, Heading.isHeading l = false) :
    (cutFrom n (a ++ ss.flatMap asLines)).map unnumbered = ss.map unnumbered := by
  rw [cutFrom_append_of_lines n ha]
  generalize n + a.length = n
  induction ss generalizing n with
  | nil => rfl
  | cons s r ih =>
    rw [List.forall_mem_cons] at h
    have hcons : (s :: r).flatMap asLines = s.heading :: (s.lines ++ r.flatMap asLines) := by
      rw [List.flatMap_cons]
      rfl
    rw [hcons, cutFrom_cons_of_heading n h.1.heading, takeWhile_append_sections h.1.lines h.2,
      cutFrom_append_of_lines _ h.1.lines, List.map_cons, ih h.2, List.map_cons]
    rfl

theorem unnumbered_cut {body : Text} {a : List Text}
    (hlines : Text.lines body = a ++ ss.flatMap asLines)
    (ha : ∀ l ∈ a, Heading.isHeading l = false) (h : ∀ s ∈ ss, s.IsCut) :
    (cut body).map unnumbered = ss.map unnumbered := by
  unfold cut
  rw [hlines]
  exact unnumbered_cutFrom h 1 ha

end Section

end Markbook
