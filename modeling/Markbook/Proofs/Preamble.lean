import Markbook.Preamble
import Markbook.Proofs.Text.Cut
import Markbook.Proofs.Text.Octets
import Markbook.Proofs.Text.Trim

/-!
# Preambles That Stay

A document has a preamble exactly when it is made of the parts of one
(`Preamble.split?_eq_some_iff`). None of the parts but the body depends on the body, so a preamble
is found again, with the same text, in front of any other body, as long as its last line is
complete (`Preamble.split?_lead_append`).  A body that is not empty starts behind a complete line.
-/

namespace Markbook.Preamble

/-- The parts of a document around the text of its preamble: blanks, the opening fence, a line feed
that is left out only when the text goes on in the line, the text, the closing fence with the rest
of its line, and a line feed that is left out only at the end of the document. -/
structure Parts (content : Text) (p : Preamble) (blanks nl line ending : Text) : Prop where
  blank : ∀ c ∈ blanks, Text.isBlank c
  fed : nl = ['\n'] ∨ nl = [] ∧ (p.text ++ ['\n']).head? ≠ some '\n'
  unfenced : ¬ '\n' :: fence <:+: p.text
  newline_not_mem : '\n' ∉ line
  ended : ending = ['\n'] ∨ ending = [] ∧ p.body = []
  lead_eq : p.lead = blanks ++ fence ++ nl ++ p.text ++ '\n' :: fence ++ line ++ ending
  content_eq : content = p.lead ++ p.body

variable {content : Text} {p : Preamble} {blanks nl line ending : Text}

theorem head?_append_fence (text r : Text) :
    (text ++ '\n' :: fence ++ r).head? = (text ++ ['\n']).head? := by
  cases text <;> rfl

/-! ## From the parts to the preamble -/

theorem opened?_of_parts {r : Text} (hblank : ∀ c ∈ blanks, Text.isBlank c)
    (hfed : nl = ['\n'] ∨ nl = [] ∧ r.head? ≠ some '\n') :
    opened? (blanks ++ fence ++ nl ++ r) = some ((blanks ++ fence ++ nl).octets, r) := by
  have hstart : Text.trimStart (blanks ++ fence ++ nl ++ r) = fence ++ (nl ++ r) := by
    rw [List.append_assoc, List.append_assoc, Text.trimStart_append_blank hblank,
      Text.trimStart_eq_self_iff]
    intro c hc
    obtain rfl : '-' = c := by simpa [fence] using hc
    decide
  have hblanks :
      (blanks ++ fence ++ nl ++ r).octets - (fence ++ (nl ++ r)).octets = blanks.octets := by
    rw [List.append_assoc, List.append_assoc, Text.octets_append blanks, Nat.add_sub_cancel]
  have hfence : fence.octets = 3 := by decide
  unfold opened?
  simp only [hstart, hblanks, Text.after?_eq_some_iff.2 rfl, Option.map_some]
  rw [Text.octets_append, Text.octets_append, hfence]
  rcases hfed with rfl | ⟨rfl, hhead⟩
  · rw [Text.after?_eq_some_iff.2 rfl]
    rfl
  · have hnone : Text.after? ['\n'] r = none := by
      cases r with
      | nil => rfl
      | cons c s =>
        have hc : '\n' ≠ c := fun h ↦ hhead (by rw [← h, List.head?_cons])
        simp [Text.after?, hc]
    rw [List.nil_append, hnone]
    rfl

theorem closed_of_parts {text body : Text} (hline : '\n' ∉ line)
    (hended : ending = ['\n'] ∨ ending = [] ∧ body = []) :
    closed (text ++ '\n' :: fence ++ (line ++ ending ++ body)) text (line ++ ending ++ body) =
      (text ++ '\n' :: fence ++ line ++ ending).octets := by
  have hfence : Text.octets ('\n' :: fence) = 4 := by decide
  unfold closed
  rcases hended with rfl | ⟨rfl, rfl⟩
  · have hfeed : Text.octets ['\n'] = 1 := by decide
    rw [List.append_assoc, List.singleton_append, Text.cut?_single hline]
    simp only [Text.octets_append, hfence, hfeed]
  · rw [List.append_nil, List.append_nil, Text.cut?_single_eq_none.2 hline]
    simp

/-- The parts in front of the body are counted right. -/
theorem Parts.measured? (h : Parts content p blanks nl line ending) :
    measured? content = some (p.text, p.offset) := by
  obtain ⟨lead, text, body⟩ := p
  obtain ⟨hblank, hfed, hunfenced, hline, hended, hlead, hcontent⟩ := h
  simp only at hfed hunfenced hended hlead hcontent
  have hopened : opened? content = some ((blanks ++ fence ++ nl).octets,
      text ++ '\n' :: fence ++ (line ++ ending ++ body)) := by
    have hparts : content =
        blanks ++ fence ++ nl ++ (text ++ '\n' :: fence ++ (line ++ ending ++ body)) := by
      rw [hcontent, hlead]
      simp
    rw [← head?_append_fence text (line ++ ending ++ body)] at hfed
    rw [hparts]
    exact opened?_of_parts hblank hfed
  have hcut := Text.cut?_append (by decide) hunfenced (line ++ ending ++ body)
  have hoctets : lead.octets =
      (blanks ++ fence ++ nl).octets + (text ++ '\n' :: fence ++ line ++ ending).octets := calc
    lead.octets = (blanks ++ fence ++ nl ++ (text ++ '\n' :: fence ++ line ++ ending)).octets := by
      rw [hlead]
      simp
    _ = _ := Text.octets_append _ _
  unfold Preamble.measured? offset
  simp only [hopened, hcut, closed_of_parts hline hended, hoctets, Option.bind_eq_bind,
    Option.bind_some, pure]

theorem Parts.split? (h : Parts content p blanks nl line ending) : split? content = some p := by
  have hbody := Text.cutAt?_octets_append p.lead p.body
  rw [← h.content_eq] at hbody
  unfold Preamble.split?
  simp only [h.measured?, offset, hbody, Option.bind_eq_bind, Option.bind_some, pure]

/-! ## From a document to its parts -/

theorem exists_of_opened? {start : Nat} {r : Text} (h : opened? content = some (start, r)) :
    ∃ blanks nl, (∀ c ∈ blanks, Text.isBlank c) ∧ content = blanks ++ fence ++ nl ++ r ∧
      (nl = ['\n'] ∨ nl = [] ∧ r.head? ≠ some '\n') := by
  unfold opened? at h
  obtain ⟨r', hr', heq⟩ := Option.map_eq_some_iff.1 h
  obtain ⟨blanks, hblanks, hcontent⟩ := Text.exists_trimStart content
  rw [Text.after?_eq_some_iff.1 hr', ← List.append_assoc] at hcontent
  cases hfeed : Text.after? ['\n'] r' with
  | some behind =>
    rw [hfeed] at heq
    obtain ⟨-, rfl⟩ := Prod.mk.inj heq
    refine ⟨blanks, ['\n'], hblanks, ?_, .inl rfl⟩
    rw [hcontent, Text.after?_eq_some_iff.1 hfeed, List.append_assoc (blanks ++ fence)]
  | none =>
    rw [hfeed] at heq
    obtain ⟨-, rfl⟩ := Prod.mk.inj heq
    refine ⟨blanks, [], hblanks, by rw [hcontent, List.append_nil], .inr ⟨rfl, fun hhead ↦ ?_⟩⟩
    obtain ⟨s, rfl⟩ := List.head?_eq_some_iff.1 hhead
    simp [Text.after?] at hfeed

theorem exists_line (closing : Text) :
    ∃ line ending body, '\n' ∉ line ∧ (ending = ['\n'] ∨ ending = [] ∧ body = []) ∧
      closing = line ++ ending ++ body := by
  cases h : Text.cut? ['\n'] closing with
  | none => exact ⟨closing, [], [], Text.cut?_single_eq_none.1 h, .inr ⟨rfl, rfl⟩, by simp⟩
  | some q =>
    have hline := Text.not_infix_of_cut? (a := q.1) (b := q.2) (by simp) h
    exact ⟨q.1, ['\n'], q.2, Text.cut?_single_eq_none.1 (Text.cut?_eq_none_iff.2 hline), .inl rfl,
      Text.eq_of_cut? (a := q.1) (b := q.2) h⟩

/-- A document with an opening and a closing fence has the parts of a preamble. -/
theorem exists_parts_of_cut? {start : Nat} {r text closing : Text}
    (hopened : opened? content = some (start, r))
    (hcut : Text.cut? ('\n' :: fence) r = some (text, closing)) :
    ∃ p blanks nl line ending, Parts content p blanks nl line ending := by
  obtain ⟨blanks, nl, hblank, hcontent, hfed⟩ := exists_of_opened? hopened
  obtain ⟨line, ending, body, hline, hended, rfl⟩ := exists_line closing
  have hr := Text.eq_of_cut? hcut
  rw [hr, head?_append_fence] at hfed
  refine ⟨⟨blanks ++ fence ++ nl ++ text ++ '\n' :: fence ++ line ++ ending, text, body⟩, blanks,
    nl, line, ending, hblank, hfed, Text.not_infix_of_cut? (by simp) hcut, hline, hended, rfl, ?_⟩
  rw [hcontent, hr]
  simp

theorem exists_parts (h : split? content = some p) :
    ∃ blanks nl line ending, Parts content p blanks nl line ending := by
  have hsplit := h
  unfold split? measured? at h
  simp only [Option.bind_eq_bind, Option.bind_eq_some_iff] at h
  obtain ⟨-, ⟨⟨start, r⟩, hopened, ⟨text, closing⟩, hcut, -⟩, -⟩ := h
  obtain ⟨p', blanks, nl, line, ending, hparts⟩ := exists_parts_of_cut? hopened hcut
  obtain rfl : p' = p := Option.some.inj (hparts.split?.symm.trans hsplit)
  exact ⟨blanks, nl, line, ending, hparts⟩

/-- A document has a preamble exactly when it is made of the parts of one. -/
theorem split?_eq_some_iff :
    split? content = some p ↔ ∃ blanks nl line ending, Parts content p blanks nl line ending :=
  ⟨exists_parts, fun ⟨_, _, _, _, h⟩ ↦ h.split?⟩

theorem ne_nil_of_split? (h : split? content = some p) : content ≠ [] := by
  rintro rfl
  have hnone : split? [] = none := by decide
  rw [hnone] at h
  simp at h

theorem lead_append_body (h : split? content = some p) : content = p.lead ++ p.body := by
  obtain ⟨_, _, _, _, hparts⟩ := exists_parts h
  exact hparts.content_eq

/-- The text of a document in front of its body. -/
def leadOf (content : Text) : Text := ((split? content).map lead).getD []

/-- The body of a document, which is all of it when it has no preamble. -/
def bodyOf (content : Text) : Text := ((split? content).map body).getD content

theorem leadOf_append_bodyOf (content : Text) : leadOf content ++ bodyOf content = content := by
  unfold leadOf bodyOf
  cases h : split? content with
  | none => rfl
  | some p => exact (lead_append_body h).symm

/-! ## Other bodies -/

/-- Only a line feed at the end of the lead ends the line of the closing fence. -/
theorem Parts.ending_eq (h : Parts content p blanks nl line ending)
    (hlead : p.lead.getLast? = some '\n') : ending = ['\n'] := by
  refine h.ended.resolve_right fun ⟨hending, _⟩ ↦ ?_
  have hcat : p.lead = (blanks ++ fence ++ nl ++ p.text ++ ['\n']) ++ (fence ++ line) := by
    rw [h.lead_eq, hending]
    simp
  rw [hcat, List.getLast?_append_of_ne_nil _ (by simp [fence])] at hlead
  have hmem := List.mem_of_getLast? hlead
  simp [fence, h.newline_not_mem] at hmem

theorem lead_getLast?_of_body_ne_nil (h : split? content = some p) (hne : p.body ≠ []) :
    p.lead.getLast? = some '\n' := by
  obtain ⟨blanks, nl, line, ending, hparts⟩ := exists_parts h
  obtain rfl := hparts.ended.resolve_right fun ⟨_, hnil⟩ ↦ hne hnil
  rw [hparts.lead_eq, List.getLast?_concat]

/-- The preamble of a document stays in front of any other body. -/
theorem split?_lead_append (h : split? content = some p) (hlead : p.lead.getLast? = some '\n')
    (b : Text) : split? (p.lead ++ b) = some ⟨p.lead, p.text, b⟩ := by
  obtain ⟨blanks, nl, line, ending, hparts⟩ := exists_parts h
  have hended := hparts.ending_eq hlead
  have hnew : Parts (p.lead ++ b) ⟨p.lead, p.text, b⟩ blanks nl line ending :=
    ⟨hparts.blank, hparts.fed, hparts.unfenced, hparts.newline_not_mem, .inl hended, hparts.lead_eq,
      rfl⟩
  exact hnew.split?

/-- A line feed at the end completes the line of the closing fence. -/
theorem split?_complete (h : split? content = some p) (hlead : p.lead.getLast? ≠ some '\n')
    (b : Text) :
    p.body = [] ∧ split? (content ++ '\n' :: b) = some ⟨content ++ ['\n'], p.text, b⟩ := by
  obtain ⟨blanks, nl, line, ending, hparts⟩ := exists_parts h
  obtain ⟨rfl, hbody⟩ : ending = [] ∧ p.body = [] := by
    refine hparts.ended.resolve_left fun hended ↦ hlead ?_
    rw [hparts.lead_eq, hended, List.getLast?_concat]
  have hcontent : content = blanks ++ fence ++ nl ++ p.text ++ '\n' :: fence ++ line := by
    rw [hparts.content_eq, hbody, hparts.lead_eq, List.append_nil, List.append_nil]
  have hnew : Parts (content ++ '\n' :: b) ⟨content ++ ['\n'], p.text, b⟩ blanks nl line ['\n'] :=
    ⟨hparts.blank, hparts.fed, hparts.unfenced, hparts.newline_not_mem, .inl rfl, by rw [hcontent],
      by simp⟩
  exact ⟨hbody, hnew.split?⟩

end Markbook.Preamble
