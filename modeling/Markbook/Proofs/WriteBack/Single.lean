import Markbook.Proofs.WriteBack.Rereads

/-!
# Records of a Single Section

The record of a name that occurs once says what one heading and the section under it say
(`Record.IsFrom`).  The section holds whatever is written for the record, so in a line dialect the
block is legal, also with a new field whose key and value are words (`Record.IsFrom.legal_assign`).
A section of an outline then rereads when block and lines behind it give the dialect away
(`Section.rereads_of_isFrom`).
-/

namespace Markbook

open Dialect

/-- A record that says what a heading text and the section under it say, with a status that the
table either does not know or has a form for. -/
structure Record.IsFrom (m : Markers) (t : StatusTable) (text body : Text) (r : Record) : Prop where
  record : ∃ path time level line children, r =
    { Record.ofEntity (Entity.ofSection m t (Heading.ofText t text) level line body) path time with
      children := children }
  settled : t.IsSettled r.status

namespace Record.IsFrom

variable {m : Markers} {t : StatusTable} {text body : Text} {r : Record} {key value k v : Text}

theorem marks_type (h : r.IsFrom m t text body) :
    r.Marks t ∧ r.type = (r.inlineType.map (·.2)).getD (m.type.getD []) := by
  obtain ⟨⟨path, time, level, line, children, rfl⟩, hsettled⟩ := h
  obtain ⟨htype, hstatus, hstays⟩ :=
    Record.marks_ofEntity path time (Section.canonical?_of_heading t text) hsettled
  exact ⟨⟨htype, hstatus, hstays⟩, Record.type_ofEntity path time⟩

theorem dialect_eq (h : r.IsFrom m t text body) : Entity.dialectOf m body = r.dialect := by
  obtain ⟨⟨path, time, level, line, children, rfl⟩, -⟩ := h
  rfl

/-- The section holds the fields of its record, its type and a status that is written as a field. -/
theorem given (h : r.IsFrom m t text body)
    (hv : r.fields.get? k = some v ∨ r.inlineType = some (k, v) ∨ r.writtenStatus t = some (k, v)) :
    (Entity.given m body).get? k = some v := by
  obtain ⟨⟨path, time, level, line, children, hrecord⟩, hsettled⟩ := h
  rw [hrecord] at hsettled
  have hfields : r.fields =
      (Entity.ofSection m t (Heading.ofText t text) level line body).fields := by
    rw [hrecord]
    rfl
  have hinline : r.inlineType =
      (Record.ofEntity (Entity.ofSection m t (Heading.ofText t text) level line body) path
        time).inlineType := by
    rw [hrecord]
  have hwritten : r.writtenStatus t =
      (Record.ofEntity (Entity.ofSection m t (Heading.ofText t text) level line body) path
        time).writtenStatus t := by
    rw [hrecord]
    rfl
  rw [hfields, hinline, hwritten] at hv
  rcases hv with hfield | htype | hstatus
  · exact Record.given_of_fields hfield
  · exact Record.given_of_inlineType path time htype
  · exact Record.given_of_writtenStatus path time (Section.canonical?_of_heading t text) hsettled
      hstatus

/-- What the section holds in a line dialect is legal there. -/
theorem legal (h : r.IsFrom m t text body) (hd : r.dialect ≠ .fenced)
    (hv : r.fields.get? k = some v ∨ r.inlineType = some (k, v) ∨ r.writtenStatus t = some (k, v)) :
    r.dialect.Legal (k, v) :=
  Section.legal_of_given hd h.dialect_eq (h.given hv)

/-! ## A new field -/

/-- What is written with a new field is the field or was written before. -/
theorem get?_writtenFields_assign (h : r.IsFrom m t text body)
    (hstatus : Entity.isStatusKey key = false) (hmark : Record.isMarkKey key = false) (now : Int)
    (hv : ((Store.assign t key value now r).writtenFields t).get? k = some v) :
    (k = key ∧ v = value) ∨ r.fields.get? k = some v ∨ r.inlineType = some (k, v) ∨
      r.writtenStatus t = some (k, v) := by
  have hcases := Record.get?_writtenFields (h.marks_type.1.assign hstatus hmark t value now) hv
  rw [Record.assign_eq hstatus] at hcases
  change (r.fields.insert key value).get? k = some v ∨ r.inlineType = some (k, v) ∨
    r.writtenStatus t = some (k, v) at hcases
  rcases hcases with hfield | hold
  · rw [TextMap.get?_insert] at hfield
    split at hfield
    · next hk => exact .inl ⟨hk, (Option.some.inj hfield).symm⟩
    · exact .inr (.inl hfield)
  · exact .inr (.inr hold)

/-- With a new field that is a word the record still writes only what is legal in its line
dialect. -/
theorem legal_assign (h : r.IsFrom m t text body) (hd : r.dialect ≠ .fenced)
    (hkey : Text.isWord key) (hvalue : Text.isWord value) (hstatus : Entity.isStatusKey key = false)
    (hmark : Record.isMarkKey key = false) (now : Int)
    (hv : ((Store.assign t key value now r).writtenFields t).get? k = some v) :
    r.dialect.Legal (k, v) := by
  rcases h.get?_writtenFields_assign hstatus hmark now hv with ⟨rfl, rfl⟩ | hold
  · exact legal_of_isWord hkey hvalue
  · exact h.legal hd hold

/-- The new field is written. -/
theorem get?_assign (h : r.IsFrom m t text body) (hstatus : Entity.isStatusKey key = false)
    (hmark : Record.isMarkKey key = false) (value : Text) (now : Int) :
    ((Store.assign t key value now r).writtenFields t).get? key = some value := by
  rw [Record.get?_writtenFields_of_ne (h.marks_type.1.assign hstatus hmark t value now) hmark,
    Record.assign_eq hstatus]
  exact TextMap.get?_insert_self _ _ _

end Record.IsFrom

namespace Section

variable {m : Markers} {t : StatusTable} {s : Section} {body : Text} {r : Record}
  {key value k v : Text}

/-- A block with a word as a key gives its dialect away. -/
theorem told?_block_of_isWord {d : Dialect} {fields : Fields} (hkey : Text.isWord key)
    (hget : fields.get? key = some value) (hlegal : d ≠ .fenced → ∀ e ∈ fields.entries, d.Legal e)
    (ls : List Text) : told? (blockLines d fields ++ ls) = some d := by
  have hempty : fields.isEmpty = false := by
    rw [← Bool.not_eq_true, TextMap.isEmpty_iff]
    rintro rfl
    simp at hget
  have hblock : told? (d.writtenLines fields) = some d := by
    by_cases hd : d = .fenced
    · rw [hd]
      exact told?_fenced fields
    · exact told?_writtenLines_of_isWord (hlegal hd) hkey hget
  rw [blockLines_of_not_isEmpty hempty, told?_append, hblock, Option.some_or]

/-! ## Sections of an outline -/

theorem isFrom_of_single {t₀ : StatusTable} {doc : Document} {time : Int}
    (hlayout : doc.markers.effectiveLayout = .outline)
    (ht : t = doc.markers.statusTable?.getD t₀) (hne : s.name t ≠ [])
    (hsingle : named t (s.name t) (cut doc.body) = [s])
    (hr : ((Store.empty t₀).load doc time).get? (s.name t) = some r)
    (hsettled : t.IsSettled r.status) :
    r.IsFrom doc.markers t s.text s.body := by
  obtain ⟨children, hrecord⟩ := get?_load_of_single hlayout ht hsingle hne hr
  exact ⟨⟨_, _, _, _, children, hrecord⟩, hsettled⟩

/-- What a section of an outline holds makes no heading. -/
theorem isHeading_of_isFrom (h : r.IsFrom m t s.text s.body) (hs : s ∈ cut body)
    (hv : r.fields.get? k = some v ∨ r.inlineType = some (k, v) ∨ r.writtenStatus t = some (k, v))
    (hc : r.dialect = .colons) : Heading.isHeading (colonsLine (k, v)) = false := by
  refine isHeading_of_given hs ?_ (h.given hv)
  rw [h.dialect_eq, hc]

theorem block_of_isFrom (h : r.IsFrom m t s.text s.body) (hs : s ∈ cut body)
    (hd : r.dialect ≠ .fenced) :
    ∀ l ∈ blockLines r.dialect (r.writtenFields t), '\n' ∉ l ∧ Heading.isHeading l = false :=
  block_of_legal hd fun _ _ hv ↦
    have hcases := Record.get?_writtenFields h.marks_type.1 hv
    ⟨h.legal hd hcases, isHeading_of_isFrom h hs hcases⟩

theorem rereads_of_isFrom (h : r.IsFrom m t s.text s.body) (hs : s ∈ cut body)
    (hfence : r.dialect = .fenced → s.AdmitsFence (r.writtenFields t))
    (htold : (told? (blockLines r.dialect (r.writtenFields t) ++
      behind r.dialect s.lines)).getD .colons = r.dialect) : s.Rereads m t r :=
  rereads_of_dialectOf hs h.marks_type.1 h.marks_type.2 h.dialect_eq
    (fun hd _ _ hv ↦ h.legal hd (Record.get?_writtenFields h.marks_type.1 hv)) hfence htold

end Section

end Markbook
