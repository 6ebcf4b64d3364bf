import Markbook.Proofs.WriteBack.Reread

/-!
# Write-Back in a Line Dialect

A merged record that is written into a document in one of the three line dialects is read back from
every section of its name, as long as the lines ahead of the block give no dialect away.  Where they
do, the section is read in that dialect instead (`rewrite_reread`).
-/

namespace Markbook

open Dialect Section

namespace Record

/-- A merged record that the built-in table and a line dialect can hold: marks of the format occur
neither in its heading nor in its fields, and the keys of type and status are free. -/
structure IsWritable (r : Record) : Prop where
  heading : Heading.IsWritable r.name r.title
  status : r.status = none ∨ (∃ s ∈ StatusTable.builtIn.names, r.status = some s) ∨
    ∃ s, s ≠ [] ∧ StatusTable.builtIn.canonical? s = none ∧ r.status = some s
  unmarked : (∀ s, r.status = some s → StatusTable.builtIn.canonical? s = none) →
    ∀ e ∈ StatusTable.builtIn.allForms, ¬ e.2 <+: r.name
  free : ∀ w ∈ ["Type", "type", "Status", "status"], r.fields.get? w.toList = none
  inlineType : ∀ k v, r.inlineType = some (k, v) →
    (k = "Type".toList ∨ k = "type".toList) ∧ v ≠ []
  statusKey : ∀ k, r.statusKey = some k → k = "Status".toList ∨ k = "status".toList
  dialect : r.dialect ≠ .fenced
  written : (r.writtenFields .builtIn).isEmpty = false
  legal : ∀ e ∈ (r.writtenFields .builtIn).entries, r.dialect.Legal e
  keys : r.dialect = .colons → ∀ e ∈ (r.writtenFields .builtIn).entries,
    isKeyLike e.1 ∧ e.1.head? ≠ some '#'

variable {r : Record}

theorem canonical?_of_unmarked (hform : Heading.marker? .builtIn r.status = none) :
    ∀ s, r.status = some s → StatusTable.builtIn.canonical? s = none := by
  intro s hs
  rw [hs] at hform
  exact StatusTable.isSettled_builtIn (some s) s rfl hform

theorem IsWritable.readsBack (h : r.IsWritable) :
    Heading.ReadsBack .builtIn r.status r.name r.title := by
  refine (Heading.isApart_builtIn h.heading.toIsPlain (fun s hs ↦ ?_) fun hform e he _ ↦
    h.unmarked (canonical?_of_unmarked hform) e he).readsBack h.heading
  rcases h.status with hnone | ⟨n, hn, heq⟩ | ⟨u, -, hu, heq⟩
  · rw [hnone] at hs
    simp at hs
  · rw [hs, Option.some.injEq] at heq
    rw [heq]
    exact StatusTable.canonical_of_mem_names_builtIn hn
  · rw [hs, Option.some.injEq] at heq
    rw [heq]
    exact StatusTable.canonical_of_canonical?_eq_none hu

theorem IsWritable.marks (h : r.IsWritable) : r.Marks .builtIn := by
  refine ⟨?_, fun hform ↦ ?_, fun hform s hs ↦ ?_⟩
  · cases hi : r.inlineType with
    | none => exact ⟨h.free "Type" (by simp), h.free "type" (by simp)⟩
    | some p =>
      obtain ⟨hk, hv⟩ := h.inlineType p.1 p.2 hi
      rcases hk with hk | hk
      · exact ⟨hv, hk ▸ h.free "Type" (by simp), .inl hk⟩
      · exact ⟨hv, hk ▸ h.free "type" (by simp), .inr ⟨hk, h.free "Type" (by simp)⟩⟩
  · have hunknown := canonical?_of_unmarked hform
    unfold shownStatus
    rcases h.status with hnone | ⟨n, hn, heq⟩ | ⟨u, hne, -, heq⟩
    · rw [hnone]
      exact ⟨h.free "Status" (by simp), h.free "status" (by simp)⟩
    · obtain ⟨row, hrow, rfl⟩ := StatusTable.exists_declared_of_mem_names hn
      have hknown := StatusTable.canonical?_name_isSome hrow
      rw [hunknown _ heq] at hknown
      simp at hknown
    · rw [heq]
      have hkey : r.statusKey.getD "Status" = "Status".toList ∨
          r.statusKey.getD "Status" = "status".toList := by
        cases hk : r.statusKey with
        | none => exact .inl rfl
        | some k => exact h.statusKey k hk
      rcases hkey with hk | hk
      · exact ⟨hne, (congrArg r.fields.get? hk).trans (h.free "Status" (by simp)), .inl hk⟩
      · exact ⟨hne, (congrArg r.fields.get? hk).trans (h.free "status" (by simp)),
          .inr ⟨hk, h.free "Status" (by simp)⟩⟩
  · exact StatusTable.canonical_of_canonical?_eq_none (canonical?_of_unmarked hform s hs)

theorem IsWritable.block (h : r.IsWritable) :
    blockLines r.dialect (r.writtenFields .builtIn) =
      r.dialect.writtenLines (r.writtenFields .builtIn) :=
  blockLines_of_not_isEmpty h.written

theorem IsWritable.fits (h : r.IsWritable) : r.Fits .builtIn := by
  have hne := entries_ne_nil h.written
  refine ⟨h.heading.isLine StatusTable.hasLines_builtIn, fun l hl ↦ ?_⟩
  rw [h.block] at hl
  have hfields : ∀ e ∈ (r.writtenFields .builtIn).entries, IsField e :=
    fun e he ↦ (h.legal e he).toIsField
  refine ⟨(isLine_of_mem_writtenLines h.dialect hfields hne l hl).1, ?_⟩
  refine isHeading_of_mem_writtenLines h.dialect hfields hne (fun hd e he ↦ ?_) l hl
  apply Heading.isHeading_of_head?
  rw [head?_colonsLine (hfields e he)]
  exact (h.keys hd e he).2

/-- The block of a writable record gives its dialect away. -/
theorem IsWritable.told?_block (h : r.IsWritable) (ls : List Text) :
    told? (blockLines r.dialect (r.writtenFields .builtIn) ++ ls) = some r.dialect := by
  rw [told?_append, h.block, told?_writtenLines_of_keyLike h.legal (entries_ne_nil h.written)
    fun hd e he ↦ (h.keys hd e he).1]
  rfl

end Record

/-- The section of a writable record is read in the dialect of the record exactly when nothing ahead
of the block gives another one away. -/
theorem told?_refilled_eq_iff {d : Dialect} (hd : d ≠ .fenced) {fields : Fields} {ls : List Text}
    (h : told? (blockLines d fields ++ behind d ls) = some d) :
    told? (refilled d fields ls) = some d ↔ told? (ahead d ls) = none := by
  have happend : told? (refilled d fields ls) = (told? (ahead d ls)).or (some d) := by
    unfold refilled
    rw [List.append_assoc, told?_append, h]
  rw [happend]
  cases hahead : told? (ahead d ls) with
  | none => simp
  | some d' =>
    simp only [Option.some_or, Option.some.injEq, reduceCtorEq, iff_false]
    rintro rfl
    obtain ⟨l, hl, hc⟩ := claims_of_told? hahead
    rw [claims_ahead hd hl] at hc
    simp at hc

/-- Write-back of a record in a line dialect.  Each section of its name is a section of the document
afterwards, with the record's name and title in its heading.  It is read in the record's dialect
exactly when nothing ahead of the field lines gives another dialect away; and then type, status and
fields are read as the record has them. -/
theorem rewrite_reread {content : Text} {p : Preamble} {m : Markers} {r : Record}
    (hsplit : Preamble.split? content = some p) (hlead : p.lead.getLast? = some '\n')
    (hmarkers : Markers.read? p.text = some m) (hlayout : m.effectiveLayout = .outline)
    (hstatuses : m.statuses = none) (hr : r.IsWritable) (path : Path) :
    ∃ doc, Document.read? path (rewrite .builtIn [r] content) = some doc ∧ doc.markers = m ∧
      (cut doc.body).length = (cut p.body).length ∧
      ∀ (i : Nat) (s : Section) (level : Nat), (cut p.body)[i]? = some s →
        Heading.named? .builtIn s.heading = some (level, r.name) →
        ∃ (s' : Section) (e : Entity), (cut doc.body)[i]? = some s' ∧
          s'.entity? m .builtIn = some e ∧
          e ∈ (Store.empty .builtIn).taken doc ∧
          e.name = r.name ∧ e.title = r.title ∧ e.level = level ∧
          (e.dialect = r.dialect ↔ told? (ahead r.dialect s.lines) = none) ∧
          (told? (ahead r.dialect s.lines) = none →
            e.type = (r.inlineType.map (·.2)).getD (m.type.getD []) ∧ e.status = r.status ∧
              e.fields = r.fields) := by
  have hfits : ∀ s ∈ cut p.body, ∀ level r',
      recordOf? .builtIn [r] s = some (level, r') → r'.Fits .builtIn := by
    intro s hs level r' hr'
    have hmem := (name_of_recordOf? (isCut_of_mem_cut hs) hr').2.2
    rw [List.mem_singleton] at hmem
    rw [hmem]
    exact hr.fits
  have hcut := unnumbered_cut_rewriteBody hfits
  refine ⟨_, Document.read?_rewrite_of_split? hsplit hlead hmarkers .builtIn [r], rfl, ?_, ?_⟩
  · simpa using congrArg List.length hcut
  · intro i s level hi hnamed
    have hs : s ∈ cut p.body := List.mem_of_getElem? hi
    have hrecord : recordOf? .builtIn [r] s = some (level, r) := by
      unfold recordOf? recordNamed?
      rw [hnamed]
      simp
    obtain rfl : level = s.level := (name_of_recordOf? (isCut_of_mem_cut hs) hrecord).1
    obtain ⟨s', hi', hsame⟩ : ∃ s', (cut (rewriteBody .builtIn [r] p.body))[i]? = some s' ∧
        s'.unnumbered = (renewed .builtIn [r] s).unnumbered := by
      have := congrArg (·[i]?) hcut
      simpa [hi] using this
    obtain ⟨e, he, hname, htitle, hlevel, hdialect, hvalues⟩ :=
      entity?_renewed hs hrecord hr.heading.name_ne hr.fits hr.readsBack m
    have he' : s'.entity? m .builtIn = some { e with line := s'.line } := by
      rw [entity?_of_unnumbered_eq hsame.symm, he]
      rfl
    have hlines : (renewed .builtIn [r] s).lines =
        (refilled r.dialect (r.writtenFields .builtIn) s.lines).map Text.chomp := by
      rw [renewed_of_recordOf? hrecord]
    have htold := hr.told?_block (behind r.dialect s.lines)
    refine ⟨s', _, hi', he', ?_, hname, htitle, hlevel, ?_, fun hahead ↦ ?_⟩
    · rw [Store.taken_outline hlayout]
      unfold Markers.statusTable?
      rw [hstatuses, Outline.entities_eq]
      exact List.mem_filterMap.2 ⟨s', List.mem_of_getElem? hi', he'⟩
    · change e.dialect = r.dialect ↔ _
      rw [← told?_refilled_eq_iff hr.dialect htold, hdialect]
      have htoldRenewed : told? (renewed .builtIn [r] s).lines =
          told? (refilled r.dialect (r.writtenFields .builtIn) s.lines) := by
        rw [hlines, told?_map Text.trim_chomp]
      obtain ⟨d', hd'⟩ : ∃ d', told? (refilled r.dialect (r.writtenFields .builtIn) s.lines) =
          some d' := by
        unfold refilled
        rw [List.append_assoc, told?_append, htold]
        cases told? (ahead r.dialect s.lines) <;> simp
      rw [dialectOf_of_told? m (newline_not_mem_renewed hs (hfits s hs)) (htoldRenewed.trans hd'),
        hd', Option.some.injEq]
    · refine hvalues hr.marks ?_
      rw [hlines]
      refine held_refilled hahead (survives_of_legal hr.dialect hr.legal) ?_
      rw [htold]
      rfl

/-- A record with one field, as a store keeps it for a section of its own. -/
def amy : Record where
  name := "Plan"
  title := "Plan"
  type := "task"
  status := some "complete"
  fields := TextMap.ofList [("Owner", "amy")]
  sources := TextMap.empty
  primary := "plan.md"
  dialect := .colons
  children := []
  seenIn := ["plan.md"]
  inlineType := none
  statusKey := none

theorem isWritable_amy : amy.IsWritable where
  heading := ⟨⟨by decide, by decide, by decide, by decide, by decide, by decide⟩, by decide⟩
  status := .inr (.inl ⟨"complete", by decide, rfl⟩)
  unmarked := by decide
  free := by decide
  inlineType := by simp [amy]
  statusKey := by simp [amy]
  dialect := by decide
  written := by decide
  legal := by decide
  keys := by decide

/-- The section keeps its prose and gets the record's status, owner and nothing else. -/
theorem rewrite_reread_amy :
    ∃ doc, Document.read? "plan.md"
        (rewrite .builtIn [amy]
          "---\ndocket-type: task\n---\n## Plan\nSome prose.\nOwner:: bob\nDue:: May\n".toList) =
        some doc ∧
      ∃ (s : Section) (e : Entity), (cut doc.body)[0]? = some s ∧
        s.entity? doc.markers .builtIn = some e ∧
        e.status = amy.status ∧ e.fields = amy.fields := by
  have hsplit : Preamble.split?
      "---\ndocket-type: task\n---\n## Plan\nSome prose.\nOwner:: bob\nDue:: May\n".toList =
        some ⟨"---\ndocket-type: task\n---\n", "docket-type: task",
          "## Plan\nSome prose.\nOwner:: bob\nDue:: May\n"⟩ := by
    decide +kernel
  obtain ⟨doc, hdoc, hm, -, hsections⟩ := rewrite_reread hsplit
    (m := ⟨some "task", none, none, none, none⟩)
    (by decide) (by decide +kernel) (by decide) rfl isWritable_amy "plan.md"
  obtain ⟨s, e, hs, he, -, -, -, -, -, hvalues⟩ := hsections 0
    ⟨1, 2, "## Plan", "Plan", ["Some prose.", "Owner:: bob", "Due:: May"]⟩ 2 (by decide +kernel)
    (by decide +kernel)
  obtain ⟨-, hstatus, hfields⟩ := hvalues (by decide +kernel)
  exact ⟨doc, hdoc, s, e, hs, hm ▸ he, hstatus, hfields⟩

end Markbook
