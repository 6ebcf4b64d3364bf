import Markbook.Proofs.Disk
import Markbook.Proofs.WriteBack.Loaded
import Markbook.Store.Files

/-!
# Sections That Reread

A section rereads for a record when it holds what the record says once its block is written
(`Section.Rereads`); with a heading that is read back it then says the same as the record
(`Section.Stays`).  For a section of a line dialect whose name occurs once that is automatic, as
long as the new block and the lines behind it give the dialect away; a fenced block has to be read
back by itself, from a section whose first fence is closed (`Section.AdmitsFence`).
-/

namespace Markbook

open Dialect

namespace Section

/-- A section that, with the block of a record, holds what the record says. -/
structure Rereads (m : Markers) (t : StatusTable) (r : Record) (s : Section) : Prop where
  marks : r.Marks t
  type_eq : r.type = (r.inlineType.map (·.2)).getD (m.type.getD [])
  held_eq : held ((refilled r.dialect (r.writtenFields t) s.lines).map Text.chomp) =
    r.writtenFields t

/-- A section that takes a fenced block: no fence and no other dialect is ahead of the block, and
the block is read back by itself. -/
structure AdmitsFence (fields : Fields) (s : Section) : Prop where
  ahead : told? (ahead .fenced s.lines) = none
  survives : Dialect.fenced.Survives fields

/-- A section that, rewritten and read again, says of its entity what the record of its name
says. -/
def Stays (m : Markers) (t : StatusTable) (records : List Record) (s : Section) : Prop :=
  ∀ level r, recordOf? t records s = some (level, r) →
    ∃ e, (renewed t records s).entity? m t = some e ∧ e.view = { r.view with children := [] }

variable {m : Markers} {t : StatusTable} {s : Section} {body : Text} {r : Record}

/-- The block of legal fields has no heading, when no key makes one. -/
theorem block_of_legal (hd : r.dialect ≠ .fenced)
    (hlegal : ∀ k v, (r.writtenFields t).get? k = some v → r.dialect.Legal (k, v) ∧
      (r.dialect = .colons → Heading.isHeading (colonsLine (k, v)) = false)) :
    ∀ l ∈ blockLines r.dialect (r.writtenFields t), '\n' ∉ l ∧ Heading.isHeading l = false := by
  have hentries : ∀ e ∈ (r.writtenFields t).entries, r.dialect.Legal e ∧
      (r.dialect = .colons → Heading.isHeading (colonsLine e) = false) :=
    fun e he ↦ hlegal e.1 e.2 (TextMap.mem_entries_iff.1 he)
  have hall : ∀ e ∈ (r.writtenFields t).entries, IsField e := fun e he ↦ (hentries e he).1.toIsField
  intro l hl
  cases hempty : (r.writtenFields t).isEmpty with
  | true => simp [blockLines, hempty] at hl
  | false =>
    have hne := entries_ne_nil hempty
    rw [blockLines_of_not_isEmpty hempty] at hl
    exact ⟨(isLine_of_mem_writtenLines hd hall hne l hl).1,
      isHeading_of_mem_writtenLines hd hall hne (fun hc e he ↦ (hentries e he).2 hc) l hl⟩

/-- A section rereads when its dialect can hold what is written for the record. -/
theorem rereads_of_dialectOf (hs : s ∈ cut body) (hmarks : r.Marks t)
    (htype : r.type = (r.inlineType.map (·.2)).getD (m.type.getD []))
    (hdialect : Entity.dialectOf m s.body = r.dialect)
    (hlegal : r.dialect ≠ .fenced →
      ∀ k v, (r.writtenFields t).get? k = some v → r.dialect.Legal (k, v))
    (hfence : r.dialect = .fenced → s.AdmitsFence (r.writtenFields t))
    (htold : (told? (blockLines r.dialect (r.writtenFields t) ++
      behind r.dialect s.lines)).getD .colons = r.dialect) : s.Rereads m t r := by
  refine ⟨hmarks, htype, ?_⟩
  by_cases hd : r.dialect = .fenced
  · have hadmits := hfence hd
    rw [hd] at htold ⊢
    exact held_refilled hadmits.ahead hadmits.survives htold
  · have hall : ∀ e ∈ (r.writtenFields t).entries, r.dialect.Legal e :=
      fun e he ↦ hlegal hd e.1 e.2 (TextMap.mem_entries_iff.1 he)
    exact held_refilled (told?_ahead_of_dialectOf hd hs hdialect) (survives_of_legal hd hall) htold

/-- The entity of a rewritten section that rereads says what the record says. -/
theorem Rereads.entity? {records : List Record} (h : s.Rereads m t r) (hs : s ∈ cut body)
    {level : Nat}
    (hr : recordOf? t records s = some (level, r)) (hne : r.name ≠ []) (hfits : r.Fits t)
    (hheading : Heading.ReadsBack t r.status r.name r.title) :
    ∃ e, (renewed t records s).entity? m t = some e ∧ e.view = { r.view with children := [] } := by
  obtain ⟨e, he, hname, htitle, -, -, hvalues⟩ := entity?_renewed hs hr hne hfits hheading m
  have hlines : (renewed t records s).lines =
      (refilled r.dialect (r.writtenFields t) s.lines).map Text.chomp := by
    rw [renewed_of_recordOf? hr]
  obtain ⟨htype, hstatus, hfields⟩ := hvalues h.marks (by rw [hlines]; exact h.held_eq)
  refine ⟨e, he, ?_⟩
  unfold Entity.view Record.view
  rw [hname, htitle, htype, hstatus, hfields, ← h.type_eq]

/-- A section that stays keeps its name. -/
theorem Stays.name_eq {records : List Record} (h : s.Stays m t records) (hs : s.IsCut) :
    (renewed t records s).name t = s.name t := by
  cases hr : recordOf? t records s with
  | none =>
    unfold renewed
    rw [hr]
    rfl
  | some p =>
    obtain ⟨e, he, hview⟩ := h p.1 p.2 hr
    have hname : e.name = p.2.name := congrArg View.name hview
    rw [← (name_entity? he).1, hname, (name_of_recordOf? hs hr).2.1]

end Section

/-! ## The entities of a rewritten body -/

namespace Outline

variable {m : Markers} {t : StatusTable} {records : List Record} {body : Text}

theorem levels_names_entitiesOf (m : Markers) (t : StatusTable) (ss : List Section) :
    (entitiesOf m t ss).map (fun e ↦ (e.level, e.name)) =
      (ss.map fun s ↦ (s.level, s.name t)).filter fun p ↦ p.2 ≠ [] := by
  unfold entitiesOf
  induction ss with
  | nil => rfl
  | cons s r ih =>
    rw [List.map_cons]
    by_cases hne : s.name t = []
    · rw [List.filterMap_cons_none (Section.entity?_eq_none_iff.2 hne),
        List.filter_cons_of_neg (by simp [hne]), ih]
    · rw [List.filterMap_cons_some (Section.entity?_of_name_ne hne), List.map_cons,
        List.filter_cons_of_pos (by simp [hne]), ih]
      rfl

/-- Rewriting keeps levels and names in their order when no section changes its name. -/
theorem levels_names_rewriteBody
    (h : ∀ s ∈ Section.cut body, ∀ level r,
      Section.recordOf? t records s = some (level, r) → r.Fits t)
    (hname : ∀ s ∈ Section.cut body, (Section.renewed t records s).name t = s.name t) :
    (entities m t (rewriteBody t records body)).map (fun e ↦ (e.level, e.name)) =
      (entities m t body).map fun e ↦ (e.level, e.name) := by
  have hplaces :=
    congrArg (List.map fun e : Entity ↦ (e.level, e.name)) (entities_rewriteBody (m := m) h)
  rw [List.map_map, List.map_map] at hplaces
  have hsame : ((fun e : Entity ↦ (e.level, e.name)) ∘ Entity.unnumbered) =
      fun e ↦ (e.level, e.name) := rfl
  rw [hsame, levels_names_entitiesOf, List.map_map] at hplaces
  rw [hplaces, entities_eq, levels_names_entitiesOf]
  congr 1
  refine List.map_congr_left fun s hs ↦ ?_
  rw [Function.comp_apply, Section.level_renewed, hname s hs]

/-- An entity of a rewritten body says what that of a renewed section says. -/
theorem exists_renewed_of_mem
    (h : ∀ s ∈ Section.cut body, ∀ level r,
      Section.recordOf? t records s = some (level, r) → r.Fits t) {e : Entity}
    (he : e ∈ entities m t (rewriteBody t records body)) :
    ∃ s ∈ Section.cut body, ∃ e', (Section.renewed t records s).entity? m t = some e' ∧
      e.view = e'.view := by
  have hmem : e.unnumbered ∈
      (entitiesOf m t ((Section.cut body).map (Section.renewed t records))).map
        Entity.unnumbered := by
    rw [← entities_rewriteBody h]
    exact List.mem_map_of_mem he
  obtain ⟨e', he', heq⟩ := List.mem_map.1 hmem
  obtain ⟨s', hs', hentity⟩ := List.mem_filterMap.1 he'
  obtain ⟨s, hs, rfl⟩ := List.mem_map.1 hs'
  refine ⟨s, hs, e', hentity, ?_⟩
  have hview : e.unnumbered.view = e'.unnumbered.view := by rw [heq]
  exact hview

/-- The entity of a renewed section is among those of a rewritten body. -/
theorem exists_mem_of_renewed
    (h : ∀ s ∈ Section.cut body, ∀ level r,
      Section.recordOf? t records s = some (level, r) → r.Fits t) {s : Section}
    (hs : s ∈ Section.cut body) {e : Entity}
    (he : (Section.renewed t records s).entity? m t = some e) :
    ∃ e' ∈ entities m t (rewriteBody t records body), e'.view = e.view := by
  have hmem : e.unnumbered ∈ (entities m t (rewriteBody t records body)).map Entity.unnumbered := by
    rw [entities_rewriteBody h]
    exact List.mem_map_of_mem (List.mem_filterMap.2 ⟨_, List.mem_map_of_mem hs, he⟩)
  obtain ⟨e', he', heq⟩ := List.mem_map.1 hmem
  have hview : e'.unnumbered.view = e.unnumbered.view := by rw [heq]
  exact ⟨e', he', hview⟩

end Outline

/-! ## Files -/

namespace Store

variable {s : Store} {d : Disk} {p : Path} {content : Text} {doc : Document}

/-- The status table that a text is rewritten with: its own, else the one of the store. -/
def tableFor (s : Store) (content : Text) : StatusTable :=
  ((markedPreamble? content).bind fun m ↦ m.1.statusTable?).getD s.table

/-- The table that a document is rewritten with is the one it is read with. -/
theorem table_of_read? (h : Document.read? p content = some doc) (t : StatusTable) :
    ((markedPreamble? content).bind fun m ↦ m.1.statusTable?).getD t =
      doc.markers.statusTable?.getD t := by
  unfold Document.read? at h
  obtain ⟨q, hq, rfl⟩ := Option.map_eq_some_iff.1 h
  rw [hq]
  rfl

theorem not_isNullDevice (hne : content ≠ []) (hread : d.read p = .ok content) :
    Disk.isNullDevice p = false := by
  by_contra hnull
  unfold Disk.read at hread
  rw [if_pos (by simpa using hnull)] at hread
  exact hne (Except.ok.inj hread).symm

/-- Setting a field, or the status, of an entity that is there succeeds. -/
theorem exists_setField {n : Text} {r : Record} (h : s.get? n = some r) (key value : Text)
    (now : Int) : ∃ s', s.setField n key value now = .ok s' ∧ s'.table = s.table ∧
      s'.get? n = some (assign s.table key value now r) := by
  have hset : s.setField n key value now = .ok (s.modify n (assign s.table key value now)) := by
    unfold setField set?
    rw [h]
    rfl
  refine ⟨_, hset, rfl, ?_⟩
  rw [get?_modify, h, Option.map_some, if_pos rfl]

/-- Rewriting a file that is not empty succeeds, and the file then holds the rewritten text. -/
theorem exists_rewriteFile_of_ne_nil (hread : d.read p = .ok content) (hne : content ≠ [])
    (s : Store) (records : List Record) :
    ∃ d', s.rewriteFile d p records = .ok (true, d') ∧ d'.read p = .ok (rewrite
      (((markedPreamble? content).bind fun m ↦ m.1.statusTable?).getD s.table) records
      content) := by
  have hnull := not_isNullDevice hne hread
  obtain ⟨d', hd'⟩ := Disk.exists_write_of_read hread hnull (rewrite
    (((markedPreamble? content).bind fun m ↦ m.1.statusTable?).getD s.table) records content)
  refine ⟨d', ?_, Disk.read_write hd' hnull⟩
  unfold rewriteFile
  rw [hread]
  simp only [hd']

theorem write_of_rewriteFile {records : List Record} (hread : d.read p = .ok content) {d' : Disk}
    (h : s.rewriteFile d p records = .ok (true, d')) :
    d.write p (rewrite (((markedPreamble? content).bind fun m ↦ m.1.statusTable?).getD s.table)
      records content) = .ok d' := by
  unfold rewriteFile at h
  rw [hread] at h
  simp only at h
  split at h
  · next hwrite =>
    rw [hwrite]
    simpa using h
  · simp at h

theorem writeBackOne_of_rewriteFile {n : Text} {r : Record} (hget : s.get? n = some r) {d' : Disk}
    (h : s.rewriteFile d r.primary [r] = .ok (true, d')) :
    s.writeBackOne d n = .ok (some r.primary, d') := by
  unfold writeBackOne
  rw [hget]
  simp only
  rw [h]
  rfl

theorem content_ne_nil (hdoc : Document.read? p content = some doc) : content ≠ [] := by
  rintro rfl
  have hsplit : Preamble.split? [] = none := by decide
  unfold Document.read? markedPreamble? at hdoc
  rw [hsplit] at hdoc
  simp at hdoc

/-- Rewriting a document on a disk succeeds, and the file then holds the rewritten text. -/
theorem exists_rewriteFile (hread : d.read p = .ok content)
    (hdoc : Document.read? p content = some doc) (s : Store) (records : List Record) :
    ∃ d', s.rewriteFile d p records = .ok (true, d') ∧
      d'.read p = .ok (rewrite (doc.markers.statusTable?.getD s.table) records content) := by
  rw [← table_of_read? hdoc]
  exact exists_rewriteFile_of_ne_nil hread (content_ne_nil hdoc) s records

theorem byFile_of_primary (hne : s.records ≠ []) (h : ∀ r ∈ s.records, r.primary = p) :
    s.byFile = [(p, s.records)] := by
  have hself : (p == p) = true := Path.beq_refl p
  have hfold (l : List Record) (hl : ∀ r ∈ l, r.primary = p) :
      l.foldl (fun l r ↦ if l.any (· == r.primary) then l else l ++ [r.primary]) [p] = [p] := by
    induction l with
    | nil => rfl
    | cons r l ih =>
      rw [List.forall_mem_cons] at hl
      rw [List.foldl_cons, hl.1]
      simp only [List.any_cons, hself, Bool.true_or, if_true]
      exact ih hl.2
  obtain ⟨r, l, hrecords⟩ := List.exists_cons_of_ne_nil hne
  have hpaths : s.records.foldl
      (fun l r ↦ if l.any (· == r.primary) then l else l ++ [r.primary]) ([] : List Path) =
        [p] := by
    rw [hrecords] at h ⊢
    rw [List.forall_mem_cons] at h
    rw [List.foldl_cons, h.1]
    exact hfold l h.2
  have hfilter : s.records.filter (·.primary == p) = s.records := by
    rw [List.filter_eq_self]
    intro r hr
    rw [h r hr]
    exact hself
  unfold byFile
  simp only [hpaths, List.mergeSort_singleton, List.map_cons, List.map_nil, hfilter]

end Store

end Markbook
