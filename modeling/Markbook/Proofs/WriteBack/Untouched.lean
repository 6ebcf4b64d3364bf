import Markbook.Proofs.Text.Copied
import Markbook.Proofs.WriteBack.Reread

/-!
# Untouched Text

A body is the text in front of its first heading and then the text of each section.  Rewriting
writes the sections of the records anew and copies every other part line by line, so such a part
stays the same text exactly when each of its lines ends in a line feed alone.  The preamble is not
copied by lines and always stays; a body that is empty gets a line feed.
-/

namespace Markbook

namespace Section

variable {t : StatusTable} {records : List Record} {s : Section} {body : Text}

/-- A section with another spelling of its lines. -/
def respelled (f : Text → Text) (s : Section) : Section :=
  { s with heading := f s.heading, lines := s.lines.map f }

/-- The sections of a body, their lines together with what ends them. -/
def rawCut (body : Text) : List Section := cutFrom 1 (Text.rawLines body)

/-- The text of a body in front of its first heading. -/
def rawLead (body : Text) : Text :=
  ((Text.rawLines body).takeWhile (!Heading.isHeading ·)).flatten

/-- The text of a section whose lines are raw. -/
def raw (s : Section) : Text := s.asLines.flatten

/-! ## The parts of a body -/

/-- Only the trimmed lines decide where a text is cut. -/
theorem cutFrom_map {f : Text → Text} (hf : ∀ l, Text.trim (f l) = Text.trim l) (n : Nat)
    (ls : List Text) : cutFrom n (ls.map f) = (cutFrom n ls).map (respelled f) := by
  have hheading (l : Text) : Heading.isHeading (f l) = Heading.isHeading l :=
    Heading.isHeading_congr (hf l)
  induction ls generalizing n with
  | nil => rfl
  | cons l r ih =>
    rw [List.map_cons, cutFrom, cutFrom, hf]
    cases Heading.split? (Text.trim l) with
    | none => exact ih (n + 1)
    | some p =>
      simp only [List.map_cons, ih, respelled, List.takeWhile_map, Function.comp_def, hheading]

theorem cut_eq_rawCut (body : Text) : cut body = (rawCut body).map (respelled Text.bare) := by
  unfold cut rawCut
  rw [Text.lines_eq_map_bare, cutFrom_map Text.trim_bare]

theorem asLines_respelled (f : Text → Text) (s : Section) :
    (respelled f s).asLines = s.asLines.map f := rfl

theorem rawLines_eq (body : Text) :
    Text.rawLines body =
      (Text.rawLines body).takeWhile (!Heading.isHeading ·) ++ (rawCut body).flatMap asLines :=
  lead_append_cutFrom 1 _

/-- A body is the text in front of its first heading and the texts of its sections. -/
theorem rawLead_append_rawCut (body : Text) :
    rawLead body ++ (rawCut body).flatMap raw = body := by
  conv_rhs => rw [← Text.flatten_rawLines body, rawLines_eq, List.flatten_append]
  congr 1
  rw [List.flatMap_def, List.flatMap_def, List.flatten_flatten, List.map_map]
  rfl

theorem lines_rawLead (body : Text) : Text.lines (rawLead body) = lead body := by
  have hrows : Text.rawLines (rawLead body) =
      (Text.rawLines body).takeWhile (!Heading.isHeading ·) :=
    Text.rawLines_flatten_of_infix (List.takeWhile_prefix _).isInfix
  have hbare (l : Text) : Heading.isHeading (Text.bare l) = Heading.isHeading l :=
    Heading.isHeading_congr (Text.trim_bare l)
  unfold lead
  rw [Text.lines_eq_map_bare, hrows, Text.lines_eq_map_bare, List.takeWhile_map]
  simp only [Function.comp_def, hbare]

theorem lines_raw (hs : s ∈ rawCut body) :
    Text.lines s.raw = (respelled Text.bare s).asLines := by
  have hpart : s.asLines <:+: Text.rawLines body := by
    obtain ⟨a, b, hcut⟩ := List.append_of_mem hs
    rw [rawLines_eq, hcut, List.flatMap_append, List.flatMap_cons]
    refine ⟨(Text.rawLines body).takeWhile (!Heading.isHeading ·) ++ a.flatMap asLines,
      b.flatMap asLines, ?_⟩
    simp
  unfold raw
  rw [Text.lines_eq_map_bare, Text.rawLines_flatten_of_infix hpart, asLines_respelled]

/-! ## What becomes of them -/

theorem recordOf?_respelled (t : StatusTable) (records : List Record) {f : Text → Text}
    (hf : ∀ l, Text.trim (f l) = Text.trim l) (s : Section) :
    recordOf? t records (respelled f s) = recordOf? t records s := by
  unfold recordOf? recordNamed? Heading.named? respelled
  rw [hf]

/-- The text of a section whose lines are raw, when it has been rewritten. -/
def rewrittenText (t : StatusTable) (records : List Record) (s : Section) : Text :=
  if (recordOf? t records s).isSome then
    (rewritten t records (respelled Text.bare s)).flatMap (· ++ ['\n'])
  else Text.copied s.raw

theorem rewritten_respelled (hs : s ∈ rawCut body) (t : StatusTable) (records : List Record) :
    (rewritten t records (respelled Text.bare s)).flatMap (· ++ ['\n']) =
      rewrittenText t records s := by
  have hrecord := recordOf?_respelled t records Text.trim_bare s
  unfold rewrittenText
  split
  · rfl
  · next h =>
    rw [Option.not_isSome_iff_eq_none] at h
    rw [h] at hrecord
    unfold rewritten Text.copied
    rw [hrecord, lines_raw hs]
    rfl

theorem rewriteBody_eq_copied (hne : body ≠ []) (t : StatusTable) (records : List Record) :
    rewriteBody t records body =
      Text.copied (rawLead body) ++ (rawCut body).flatMap (rewrittenText t records) := by
  rw [rewriteBody_eq hne, List.flatMap_append, ← lines_rawLead, List.flatMap_assoc, cut_eq_rawCut,
    List.flatMap_map]
  congr 1
  refine List.flatMap_congr fun s hs ↦ ?_
  rw [← rewritten_respelled hs, rewritten_flatMap]

theorem rewriteBody_nil (t : StatusTable) (records : List Record) :
    rewriteBody t records [] = ['\n'] := rfl

/-- Without a section of the records the whole body is copied. -/
theorem rewriteBody_of_recordOf?_eq_none (hne : body ≠ [])
    (h : ∀ s ∈ rawCut body, recordOf? t records s = none) :
    rewriteBody t records body = Text.copied body := by
  have hnone : ∀ s ∈ cut body, rewrittenLines t records s = s.asLines := by
    intro s hs
    rw [cut_eq_rawCut] at hs
    obtain ⟨s', hs', rfl⟩ := List.mem_map.1 hs
    unfold rewrittenLines
    rw [recordOf?_respelled t records Text.trim_bare, h s' hs']
  rw [rewriteBody_eq hne, List.flatMap_congr hnone, ← lines_eq_lead_append_cut]
  rfl

end Section

open Section in
/-- Every part of a document outside the rewritten sections is copied line by line, and so stays the
same text exactly when its lines end in line feeds alone; a document without such sections stays the
same when its whole body is like that, and not empty. -/
theorem rewrite_untouched (t : StatusTable) (records : List Record) (content : Text) :
    let lead := Preamble.leadOf content
    let body := Preamble.bodyOf content
    content = lead ++ rawLead body ++ (rawCut body).flatMap raw ∧
    rewrite t records content =
      lead ++ Text.copied (rawLead body) ++ (rawCut body).flatMap (rewrittenText t records) ++
        (if body = [] then ['\n'] else []) ∧
    (∀ part, Text.copied part = part ↔ part.IsFed) ∧
    ((∀ s ∈ rawCut body, recordOf? t records s = none) →
      (rewrite t records content = content ↔ body ≠ [] ∧ body.IsFed)) := by
  intro lead body
  have hcontent : lead ++ body = content := Preamble.leadOf_append_bodyOf content
  have hrewrite : rewrite t records content = lead ++ rewriteBody t records body :=
    rewrite_eq_append t records content
  refine ⟨?_, ?_, fun part ↦ Text.copied_eq_self_iff, fun hnone ↦ ?_⟩
  · rw [List.append_assoc, rawLead_append_rawCut, hcontent]
  · rw [hrewrite]
    by_cases hne : body = []
    · rw [if_pos hne, hne, rewriteBody_nil]
      simp [rawLead, rawCut, cutFrom, Text.rawLines, Text.copied, Text.lines]
    · rw [if_neg hne, rewriteBody_eq_copied hne]
      simp
  · rw [hrewrite]
    conv_lhs => rw [← hcontent, List.append_right_inj]
    by_cases hne : body = []
    · simp [hne, rewriteBody_nil]
    · rw [rewriteBody_of_recordOf?_eq_none hne hnone, Text.copied_eq_self_iff]
      simp [hne]

/-- Carriage returns are lost even when there is no section to rewrite. -/
theorem not_rewrite_untouched_returns :
    rewrite .builtIn [] ("# Intro\r\nText\r\n" : String) ≠ ("# Intro\r\nText\r\n" : String).toList ∧
      rewrite .builtIn [] ("# Intro\r\nText\r\n" : String) = ("# Intro\nText\n" : String) := by
  decide +kernel

end Markbook
