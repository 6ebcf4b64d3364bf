import Markbook.Proofs.Store.Created

/-!
# Preambles to the Octet

The offset of a body is counted part by part: the blanks in front, the opening fence, its line
feed, the text, and the line of the closing fence.  It is the number of octets in front of the
body, and without a closing fence there is no preamble (`Preamble.split?_exact`).  Rewriting a
document and writing an entity to its end only change the body, so the preamble stays.
-/

namespace Markbook.Preamble

variable {content content' : Text} {p : Preamble} {blanks nl line ending : Text}

/-- The parts in front of the body make up its offset. -/
theorem Parts.offset_eq (h : Parts content p blanks nl line ending) :
    p.offset =
      blanks.octets + 3 + nl.octets + p.text.octets + 4 + line.octets + ending.octets := by
  have hopening : fence.octets = 3 := by decide
  have hclosing : Text.octets ('\n' :: fence) = 4 := by decide
  unfold offset
  rw [h.lead_eq]
  simp only [Text.octets_append, hopening, hclosing]

/-- A document whose opening fence is closed has a preamble. -/
theorem not_infix_of_split?_eq_none (h : split? content = none) {r : Text}
    (hr : Text.trimStart content = fence ++ r) :
    ¬ '\n' :: fence <:+: (Text.after? ['\n'] r).getD r := by
  rw [← Text.cut?_eq_none_iff, Option.eq_none_iff_forall_ne_some]
  rintro ⟨text, closing⟩ hcut
  obtain ⟨start, hopened⟩ :
      ∃ start, opened? content = some (start, (Text.after? ['\n'] r).getD r) := by
    unfold opened?
    simp only [hr, Text.after?_eq_some_iff.2 rfl, Option.map_some]
    cases Text.after? ['\n'] r with
    | none => exact ⟨_, rfl⟩
    | some behind => exact ⟨_, rfl⟩
  obtain ⟨p, blanks, nl, line, ending, hparts⟩ := exists_parts_of_cut? hopened hcut
  rw [hparts.split?] at h
  simp at h

/-- The preamble of a text and what it says of the document are those of another. -/
structure StaysIn (p : Preamble) (content content' : Text) : Prop where
  split : ∃ b, split? content' = some ⟨p.lead, p.text, b⟩
  markers : (markedPreamble? content').map (·.1) = (markedPreamble? content).map (·.1)

theorem markedPreamble?_of_split? (h : split? content = some p) :
    (markedPreamble? content).map (·.1) = Markers.read? p.text := by
  unfold markedPreamble?
  simp only [h, Option.bind_eq_bind, Option.bind_some]
  cases Markers.read? p.text <;> rfl

theorem staysIn_of_split? (h : split? content = some p) {b : Text}
    (h' : split? content' = some ⟨p.lead, p.text, b⟩) : p.StaysIn content content' where
  split := ⟨b, h'⟩
  markers := calc
    (markedPreamble? content').map (·.1) = Markers.read? p.text := by
      rw [markedPreamble?_of_split? h']
    _ = (markedPreamble? content).map (·.1) := (markedPreamble?_of_split? h).symm

theorem staysIn_rewrite (h : split? content = some p) (hlead : p.lead.getLast? = some '\n')
    (t : StatusTable) (records : List Record) : p.StaysIn content (rewrite t records content) := by
  rw [rewrite_eq h]
  exact staysIn_of_split? h (split?_lead_append h hlead _)

/-- An entity can be written to the end of a document with a preamble, which stays. -/
theorem exists_create_staysIn (h : split? content = some p) (hlead : p.lead.getLast? = some '\n')
    {d : Disk} {path : Path} (hread : d.read path = .ok content) (s : Store) (name title : Text)
    (fields : Fields) (level : Nat) (dialect : Dialect) (now : Int) :
    ∃ s' d' content', s.create d name title fields path level dialect now = .ok (s', d') ∧
      d'.read path = .ok content' ∧ p.StaysIn content content' := by
  obtain ⟨s', d', hcreate, -, hread'⟩ :=
    Store.exists_create hread (ne_nil_of_split? h) s name title fields level dialect now
  obtain ⟨lead, hsplit, heq⟩ := exists_split?_completed h
    (Entity.written s.table dialect level name title fields)
  rw [heq hlead] at hsplit
  exact ⟨s', d', _, hcreate, hread', staysIn_of_split? h hsplit⟩

/-- A preamble is made of its parts, which add up to the offset that is counted for the body: there
the text is cut, between two characters.  A document has no preamble only without an opening fence,
or without a closing one behind it.  When the line of the closing fence is complete, the preamble
stays in front of any other body; so it stays when the document is rewritten, and when an entity is
written to its end. -/
theorem split?_exact (content : Text) :
    (∀ p, split? content = some p →
      (∃ blanks nl line ending, Parts content p blanks nl line ending ∧
        p.offset =
          blanks.octets + 3 + nl.octets + p.text.octets + 4 + line.octets + ending.octets) ∧
      measured? content = some (p.text, p.offset) ∧
      Text.cutAt? p.offset content = some (p.lead, p.body) ∧
      (⟨p.offset⟩ : String.Pos.Raw).IsValid (String.ofList content) ∧
      (p.lead.getLast? = some '\n' →
        (∀ b, split? (p.lead ++ b) = some ⟨p.lead, p.text, b⟩) ∧
        (∀ t records, p.StaysIn content (rewrite t records content)) ∧
        ∀ (s : Store) d path name title fields level dialect now, d.read path = .ok content →
          ∃ s' d' content', s.create d name title fields path level dialect now = .ok (s', d') ∧
            d'.read path = .ok content' ∧ p.StaysIn content content')) ∧
    (split? content = none → ∀ r, Text.trimStart content = fence ++ r →
      ¬ '\n' :: fence <:+: (Text.after? ['\n'] r).getD r) := by
  refine ⟨fun p h ↦ ⟨?_, ?_, ?_, ?_,
      fun hlead ↦ ⟨split?_lead_append h hlead, staysIn_rewrite h hlead, ?_⟩⟩,
    fun h r hr ↦ not_infix_of_split?_eq_none h hr⟩
  · obtain ⟨blanks, nl, line, ending, hparts⟩ := exists_parts h
    exact ⟨blanks, nl, line, ending, hparts, hparts.offset_eq⟩
  · obtain ⟨blanks, nl, line, ending, hparts⟩ := exists_parts h
    exact hparts.measured?
  · rw [lead_append_body h]
    exact Text.cutAt?_octets_append p.lead p.body
  · rw [lead_append_body h]
    exact Text.isValid_octets p.lead p.body
  · intro s d path name title fields level dialect now hread
    exact exists_create_staysIn h hlead hread s name title fields level dialect now

/-- A document with characters of several octets and a carriage return behind the closing fence. -/
def wide : Text := "\u3000---\n# é\n---\r\nX"

/-- Its preamble ends behind seventeen octets, and stays in front of further fences. -/
theorem split?_exact_wide :
    ∃ p, split? wide = some p ∧ p.text = "# é".toList ∧ p.offset = 17 ∧
      (⟨17⟩ : String.Pos.Raw).IsValid (String.ofList wide) ∧
      split? (p.lead ++ "---\n\n---\n".toList) = some ⟨p.lead, p.text, "---\n\n---\n"⟩ := by
  have hsplit : split? wide = some ⟨"\u3000---\n# é\n---\r\n", "# é", "X"⟩ := by decide +kernel
  obtain ⟨-, -, -, hvalid, hstays⟩ := (split?_exact wide).1 _ hsplit
  exact ⟨_, hsplit, rfl, by decide +kernel, hvalid, (hstays (by decide)).1 _⟩

end Markbook.Preamble
