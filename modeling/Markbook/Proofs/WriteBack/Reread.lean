import Markbook.Proofs.Preamble
import Markbook.Proofs.Section.Renewed
import Markbook.Proofs.Store.Load
import Markbook.Proofs.Store.Record

/-!
# Reading a Rewritten Document

A rewritten document is a document with the same markers (`Document.read?_rewrite`), and its
entities are those of its renewed sections (`Outline.entities_rewriteBody`).  The entity of a
renewed section says what its record says when the section holds the written fields
(`Section.entity?_renewed`).
-/

namespace Markbook

/-! ## Documents -/

theorem Document.read?_eq_some_iff {path : Path} {content : Text} {doc : Document} :
    Document.read? path content = some doc ↔
      ∃ p m, Preamble.split? content = some p ∧ Markers.read? p.text = some m ∧
        doc = ⟨path, m, p.body, p.offset⟩ := by
  unfold Document.read? markedPreamble?
  simp only [Option.bind_eq_bind, Option.map_eq_some_iff, Option.bind_eq_some_iff, Prod.exists]
  constructor
  · rintro ⟨m, p, ⟨p', hp, m', hm, heq⟩, rfl⟩
    simp only [Option.pure_def, Option.some.injEq, Prod.mk.injEq] at heq
    obtain ⟨rfl, rfl⟩ := heq
    exact ⟨p', m', hp, hm, rfl⟩
  · rintro ⟨p, m, hp, hm, rfl⟩
    exact ⟨m, p, ⟨p, hp, m, hm, rfl⟩, rfl⟩

theorem Document.path_of_read? {path : Path} {content : Text} {doc : Document}
    (h : Document.read? path content = some doc) : doc.path = path := by
  obtain ⟨p, m, -, -, rfl⟩ := Document.read?_eq_some_iff.1 h
  rfl

theorem rewrite_eq {content : Text} {p : Preamble} (h : Preamble.split? content = some p)
    (t : StatusTable) (records : List Record) :
    rewrite t records content = p.lead ++ rewriteBody t records p.body := by
  unfold rewrite
  rw [h]

theorem rewrite_eq_append (t : StatusTable) (records : List Record) (content : Text) :
    rewrite t records content =
      Preamble.leadOf content ++ rewriteBody t records (Preamble.bodyOf content) := by
  unfold Preamble.leadOf Preamble.bodyOf
  cases h : Preamble.split? content with
  | none =>
    unfold rewrite
    rw [h]
    rfl
  | some p => exact rewrite_eq h t records

/-- Rewriting a document behind a complete preamble gives a document with the same markers. -/
theorem Document.read?_rewrite_of_split? {path : Path} {content : Text} {p : Preamble} {m : Markers}
    (hsplit : Preamble.split? content = some p) (hlead : p.lead.getLast? = some '\n')
    (hmarkers : Markers.read? p.text = some m) (t : StatusTable) (records : List Record) :
    Document.read? path (rewrite t records content) =
      some ⟨path, m, rewriteBody t records p.body, p.offset⟩ := by
  rw [rewrite_eq hsplit, Document.read?_eq_some_iff]
  exact ⟨_, m, Preamble.split?_lead_append hsplit hlead _, hmarkers, rfl⟩

theorem Document.read?_rewrite {path : Path} {content : Text} {doc : Document}
    (h : Document.read? path content = some doc) (hne : doc.body ≠ []) (t : StatusTable)
    (records : List Record) :
    Document.read? path (rewrite t records content) =
      some { doc with body := rewriteBody t records doc.body } := by
  obtain ⟨p, m, hsplit, hmarkers, rfl⟩ := Document.read?_eq_some_iff.1 h
  exact Document.read?_rewrite_of_split? hsplit
    (Preamble.lead_getLast?_of_body_ne_nil hsplit hne) hmarkers t records

/-- The lead of a plan, a document of tasks. -/
def Document.planLead : Text := "---\ndocket-type: task\n---\n"

def Document.plan (body : Text) : Document :=
  ⟨"plan.md", ⟨some "task", none, none, none, none⟩, body, 26⟩

/-- A plan with an owner. -/
def Document.owned : Text := "## Plan\nOwner:: amy\nStatus:: done\n"

/-- The lead of a plan that is a file of one task. -/
def Document.filedLead : Text := "---\ndocket-type: task\ndocket-layout: file\n---\n"

def Document.filed (body : Text) : Document :=
  ⟨"plan.md", ⟨some "task", some .file, none, none, none⟩, body, 46⟩

theorem Document.read?_plan (body : Text) :
    Document.read? "plan.md" (planLead ++ body) = some (plan body) := by
  have hsplit : Preamble.split? planLead = some ⟨planLead, "docket-type: task", []⟩ := by
    decide +kernel
  have hmarkers :
      Markers.read? "docket-type: task" = some ⟨some "task", none, none, none, none⟩ := by
    decide +kernel
  exact Document.read?_eq_some_iff.2
    ⟨_, _, Preamble.split?_lead_append hsplit (by decide) body, hmarkers, rfl⟩

theorem Document.read?_filed (body : Text) :
    Document.read? "plan.md" (filedLead ++ body) = some (filed body) := by
  have hsplit : Preamble.split? filedLead =
      some ⟨filedLead, "docket-type: task\ndocket-layout: file", []⟩ := by
    decide +kernel
  have hmarkers : Markers.read? "docket-type: task\ndocket-layout: file" =
      some ⟨some "task", some .file, none, none, none⟩ := by
    decide +kernel
  exact Document.read?_eq_some_iff.2
    ⟨_, _, Preamble.split?_lead_append hsplit (by decide) body, hmarkers, rfl⟩

/-! ## Entities -/

namespace Entity

/-- An entity without its place in the body. -/
def unnumbered (e : Entity) : Entity := { e with line := 0 }

end Entity

namespace Section

variable {m : Markers} {t : StatusTable} {records : List Record} {s s' : Section} {body : Text}

/-- The place of a section changes nothing in its entity but the place of the entity. -/
theorem entity?_of_unnumbered_eq (h : s.unnumbered = s'.unnumbered) (m : Markers)
    (t : StatusTable) :
    s'.entity? m t = (s.entity? m t).map fun e ↦ { e with line := s'.line } := by
  cases s
  cases s'
  simp only [unnumbered, Section.mk.injEq, true_and] at h
  obtain ⟨rfl, rfl, rfl, rfl⟩ := h
  unfold entity?
  simp only
  split <;> rfl

theorem entity?_unnumbered (s : Section) (m : Markers) (t : StatusTable) :
    (s.entity? m t).map Entity.unnumbered = (s.unnumbered.entity? m t).map Entity.unnumbered := by
  have hplace : s.unnumbered = s.unnumbered.unnumbered := rfl
  rw [entity?_of_unnumbered_eq hplace, Option.map_map]
  rfl

theorem name_entity? {e : Entity} (h : s.entity? m t = some e) :
    e.name = s.name t ∧ e.level = s.level ∧ e.name ≠ [] := by
  unfold entity? at h
  simp only at h
  split at h
  · simp at h
  · next hne =>
    obtain rfl := Option.some.inj h
    have hname : (Heading.ofText t s.text).name ≠ [] := by simpa using hne
    exact ⟨rfl, rfl, hname⟩

theorem entity?_eq_none_iff : s.entity? m t = none ↔ s.name t = [] := by
  unfold entity? name
  simp

/-- The entity of a section, when its heading has a name. -/
theorem entity?_of_name_ne (h : s.name t ≠ []) :
    s.entity? m t =
      some (Entity.ofSection m t (Heading.ofText t s.text) s.level s.line s.body) := by
  unfold entity?
  simp only
  rw [if_neg]
  rw [List.isEmpty_iff]
  exact h

theorem renewed_of_recordOf? {level : Nat} {r : Record}
    (hr : recordOf? t records s = some (level, r)) :
    renewed t records s =
      { s with
        heading := Text.chomp (Heading.write t level r.status r.name r.title)
        text := Text.trim (Heading.writtenText t r.status r.name r.title)
        lines := (refilled r.dialect (r.writtenFields t) s.lines).map Text.chomp } := by
  unfold renewed
  rw [hr]

theorem newline_not_mem_renewed (hs : s ∈ cut body)
    (h : ∀ level r, recordOf? t records s = some (level, r) → r.Fits t) :
    ∀ l ∈ (renewed t records s).lines, '\n' ∉ l := by
  intro l hl
  have hmem : l ∈ (rewrittenLines t records s).map Text.chomp := by
    rw [← asLines_renewed]
    exact List.mem_cons_of_mem _ hl
  obtain ⟨l', hl', rfl⟩ := List.mem_map.1 hmem
  exact fun hn ↦ newline_not_mem_rewrittenLines hs (fun level r hr ↦ (h level r hr).isLines) hl'
    (Text.mem_of_mem_chomp hn)

/-- The entity of a renewed section has the heading of its record; and it says what the record says
when the section holds the written fields. -/
theorem entity?_renewed (hs : s ∈ cut body) {level : Nat} {r : Record}
    (hr : recordOf? t records s = some (level, r)) (hne : r.name ≠ []) (hfits : r.Fits t)
    (hheading : Heading.ReadsBack t r.status r.name r.title) (m : Markers) :
    ∃ e, (renewed t records s).entity? m t = some e ∧
      e.name = r.name ∧ e.title = r.title ∧ e.level = s.level ∧
      e.dialect = Entity.dialectOf m (renewed t records s).body ∧
      (r.Marks t → held (renewed t records s).lines = r.writtenFields t →
        e.type = (r.inlineType.map (·.2)).getD (m.type.getD []) ∧ e.status = r.status ∧
          e.fields = r.fields) := by
  have hall := fits_of_recordOf?_eq hr hfits
  have hname : (renewed t records s).name t = r.name := by
    rw [renewed_of_recordOf? hr]
    exact hheading.name_eq
  have hne : (renewed t records s).name t ≠ [] := hname ▸ hne
  have htext :
      (renewed t records s).text = Text.trim (Heading.writtenText t r.status r.name r.title) := by
    rw [renewed_of_recordOf? hr]
  refine ⟨_, entity?_of_name_ne hne, ?_, ?_, ?_, ?_, fun hmarks hheld ↦ ?_⟩
  · rw [Entity.ofSection_name]
    exact hname
  · rw [Entity.ofSection_title, htext]
    exact hheading.title_eq
  · rw [Entity.ofSection_level, level_renewed]
  · rw [Entity.ofSection_dialect]
  · refine Record.ofSection_of_given hmarks ?_ ?_ _ _
    · rw [htext]
      exact hheading.status_eq
    · rw [← hheld]
      exact given_body m (newline_not_mem_renewed hs hall)

end Section

namespace Outline

variable {m : Markers} {t : StatusTable} {records : List Record} {body : Text}

theorem unnumbered_entitiesOf (m : Markers) (t : StatusTable) (ss : List Section) :
    (entitiesOf m t ss).map Entity.unnumbered =
      (ss.map Section.unnumbered).filterMap fun s ↦ (s.entity? m t).map Entity.unnumbered := by
  unfold entitiesOf
  rw [List.map_filterMap, List.filterMap_map]
  congr 1
  funext s
  exact Section.entity?_unnumbered s m t

/-- The entities of a rewritten body are those of the renewed sections, their places aside. -/
theorem entities_rewriteBody
    (h : ∀ s ∈ Section.cut body, ∀ level r,
      Section.recordOf? t records s = some (level, r) → r.Fits t) :
    (entities m t (rewriteBody t records body)).map Entity.unnumbered =
      (entitiesOf m t ((Section.cut body).map (Section.renewed t records))).map
        Entity.unnumbered := by
  rw [entities_eq, unnumbered_entitiesOf, unnumbered_entitiesOf,
    Section.unnumbered_cut_rewriteBody h]

end Outline

end Markbook
