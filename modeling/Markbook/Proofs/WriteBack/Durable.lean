import Markbook.Proofs.WriteBack.Single

/-!
# Setting a Field

A field that is set and written back is there when the file is loaded again.  For a name that occurs
once in a line dialect that holds exactly when the heading is read back, and else exactly when the
section, rewritten and read again, has the fields (`Store.setField_writeBackOne`).  A fence that
nothing closes swallows the block that is written behind it (`Store.not_setField_ruled`).
-/

namespace Markbook

open Dialect

/-- A section that, rewritten for a record and read again, gives back its name, title, status and
fields. -/
def Section.Keeps (m : Markers) (t : StatusTable) (r : Record) (s : Section) : Prop :=
  ∃ e, (renewed t [r] s).entity? m t = some e ∧
    e.name = r.name ∧ e.title = r.title ∧ e.status = r.status ∧ e.fields = r.fields

/-- The record that a name has when a file is loaded into an empty store. -/
def Disk.Reloads (d : Disk) (path : Path) (t : StatusTable) (time : Int) (n : Text) (r : Record) :
    Prop :=
  ∃ content doc, d.read path = .ok content ∧ Document.read? path content = some doc ∧
    ((Store.empty t).load doc time).get? n = some r

theorem Disk.reloads_iff {d : Disk} {path : Path} {content : Text} {doc : Document}
    (hread : d.read path = .ok content) (hdoc : Document.read? path content = some doc)
    {t : StatusTable} {time : Int} {n : Text} {r : Record} :
    d.Reloads path t time n r ↔ ((Store.empty t).load doc time).get? n = some r := by
  constructor
  · rintro ⟨content', doc', hread', hdoc', hr⟩
    rw [hread, Except.ok.injEq] at hread'
    rw [← hread', hdoc, Option.some.injEq] at hdoc'
    exact hdoc' ▸ hr
  · exact fun hr ↦ ⟨content, doc, hread, hdoc, hr⟩

/-- A record whose title, status and fields a file gives back. -/
def Record.IsKept (t : StatusTable) (d : Disk) (path : Path) (time : Int) (r : Record) : Prop :=
  ∃ r', d.Reloads path t time r.name r' ∧
    r'.title = r.title ∧ r'.status = r.status ∧ r'.fields = r.fields

namespace Section

variable {m : Markers} {t : StatusTable} {r : Record} {s : Section} {body : Text}

theorem fits_of_singleton (hfits : r.Fits t) :
    ∀ s ∈ cut body, ∀ level r', recordOf? t [r] s = some (level, r') → r'.Fits t := by
  intro s hs level r' hr
  rw [eq_of_recordOf?_singleton (isCut_of_mem_cut hs) hr]
  exact hfits

/-- Only the sections of its name can give a record back. -/
theorem name_of_renewed (hs : s ∈ cut body) {e : Entity}
    (he : (renewed t [r] s).entity? m t = some e) (hname : e.name = r.name) :
    s.name t = r.name := by
  by_contra hne
  have hnone : recordOf? t [r] s = none := by
    rw [recordOf?_singleton (isCut_of_mem_cut hs), if_neg hne]
  have hsame : (renewed t [r] s).name t = s.name t := by
    unfold renewed
    rw [hnone]
    rfl
  rw [(name_entity? he).1, hsame] at hname
  exact hne hname

theorem Rereads.keeps (h : s.Rereads m t r) (hs : s ∈ cut body) (hname : s.name t = r.name)
    (hne : r.name ≠ []) (hfits : r.Fits t)
    (hheading : Heading.ReadsBack t r.status r.name r.title) :
    ∃ e, (renewed t [r] s).entity? m t = some e ∧ e.view = { r.view with children := [] } := by
  have hrecord : recordOf? t [r] s = some (s.level, r) := by
    rw [recordOf?_singleton (isCut_of_mem_cut hs), if_pos hname]
  exact h.entity? hs hrecord hne hfits hheading

end Section

namespace Store

variable {t₀ t : StatusTable} {doc : Document} {time : Int} {r : Record} {s : Section}

/-! ## The record after it was written -/

section Rewritten

variable (hlayout : doc.markers.effectiveLayout = .outline)
  (ht : t = doc.markers.statusTable?.getD t₀) (hfits : r.Fits t)

include hlayout ht in
theorem taken_rewritten :
    (empty t₀).taken { doc with body := rewriteBody t [r] doc.body } =
      Outline.entities doc.markers t (rewriteBody t [r] doc.body) := by
  subst ht
  exact taken_outline hlayout

include hlayout ht hfits in
theorem exists_renewed_of_taken {e : Entity}
    (he : e ∈ (empty t₀).taken { doc with body := rewriteBody t [r] doc.body })
    (hname : e.name = r.name) :
    ∃ s ∈ Section.named t r.name (Section.cut doc.body), ∃ e',
      (Section.renewed t [r] s).entity? doc.markers t = some e' ∧ e.view = e'.view := by
  rw [taken_rewritten hlayout ht] at he
  obtain ⟨s, hs, e', he', hview⟩ :=
    Outline.exists_renewed_of_mem (Section.fits_of_singleton hfits) he
  have hsame : e'.name = r.name := (congrArg View.name hview).symm.trans hname
  refine ⟨s, List.mem_filter.2 ⟨hs, ?_⟩, e', he', hview⟩
  simpa using Section.name_of_renewed hs he' hsame

include hlayout ht hfits in
/-- The record of a name after its sections were rewritten, when they all say the same. -/
theorem exists_get?_rewritten {v : View} (hv : v.name = r.name)
    (hne : Section.named t r.name (Section.cut doc.body) ≠ [])
    (h : ∀ s ∈ Section.named t r.name (Section.cut doc.body), ∃ e,
      (Section.renewed t [r] s).entity? doc.markers t = some e ∧ e.view = v) :
    ∃ r', ((empty t₀).load { doc with body := rewriteBody t [r] doc.body } time).get? r.name =
      some r' ∧
      { r'.view with children := [] } = v := by
  have hall : ∀ e ∈ (empty t₀).taken { doc with body := rewriteBody t [r] doc.body },
      e.name = v.name → e.view = v := by
    intro e he hname
    obtain ⟨s, hs, e', he', hview⟩ := exists_renewed_of_taken hlayout ht hfits he (hname.trans hv)
    obtain ⟨e'', he'', hview'⟩ := h s hs
    rw [he', Option.some.injEq] at he''
    rw [hview, he'', hview']
  obtain ⟨s, ss, hs⟩ := List.exists_cons_of_ne_nil hne
  have hmem : s ∈ Section.named t r.name (Section.cut doc.body) := hs ▸ List.mem_cons_self
  obtain ⟨e, he, hview⟩ := h s hmem
  obtain ⟨e', he', hview'⟩ := Outline.exists_mem_of_renewed (Section.fits_of_singleton hfits)
    (List.mem_of_mem_filter hmem) he
  have hname : e'.name = r.name := by
    rw [← hv, ← hview]
    exact congrArg View.name hview'
  obtain ⟨r', hr'⟩ :
      ∃ r', ((empty t₀).load { doc with body := rewriteBody t [r] doc.body } time).get?
      r.name = some r' := by
    rw [← Option.isSome_iff_exists, get?_isSome_iff, mem_names_load, taken_rewritten hlayout ht]
    exact ⟨e', he', hname⟩
  refine ⟨r', hr', ?_⟩
  rw [← hv] at hr'
  exact view_load hall hr'

end Rewritten

end Store

/-! ## A record with a new field -/

namespace Section

variable {m : Markers} {t : StatusTable} {r : Record} {s : Section} {body : Text} {key value : Text}

/-- With a new field that is a word the block still makes no heading. -/
theorem block_assign (h : r.IsFrom m t s.text s.body) (hs : s ∈ cut body) (hd : r.dialect ≠ .fenced)
    (hkey : Text.isWord key) (hvalue : Text.isWord value) (hstatus : Entity.isStatusKey key = false)
    (hmark : Record.isMarkKey key = false) (now : Int) :
    ∀ l ∈ blockLines r.dialect ((Store.assign t key value now r).writtenFields t),
      '\n' ∉ l ∧ Heading.isHeading l = false := by
  have hdialect := Record.dialect_assign hstatus t value now r
  rw [← hdialect]
  refine block_of_legal (by rw [hdialect]; exact hd) fun k v hv ↦ ?_
  rw [hdialect]
  refine ⟨h.legal_assign hd hkey hvalue hstatus hmark now hv, fun hc ↦ ?_⟩
  rcases h.get?_writtenFields_assign hstatus hmark now hv with ⟨rfl, rfl⟩ | hold
  · apply Heading.isHeading_of_head?
    rw [head?_colonsLine (legal_of_isWord (d := .colons) hkey hvalue).toIsField]
    exact fun hhash ↦ Text.not_mem_of_isWord (by decide) hkey (List.mem_of_head? hhash)
  · exact isHeading_of_isFrom h hs hold hc

/-- The single section of a name rereads for its record with a new field. -/
theorem rereads_assign (h : r.IsFrom m t s.text s.body) (hs : s ∈ cut body) (hkey : Text.isWord key)
    (hvalue : Text.isWord value) (hstatus : Entity.isStatusKey key = false)
    (hmark : Record.isMarkKey key = false) (now : Int)
    (hfence : r.dialect = .fenced →
      s.AdmitsFence ((Store.assign t key value now r).writtenFields t)) :
    s.Rereads m t (Store.assign t key value now r) := by
  have hdialect := Record.dialect_assign hstatus t value now r
  have hlegal : r.dialect ≠ .fenced → ∀ k v,
      ((Store.assign t key value now r).writtenFields t).get? k = some v → r.dialect.Legal (k, v) :=
    fun hd k v hv ↦ h.legal_assign hd hkey hvalue hstatus hmark now hv
  refine rereads_of_dialectOf hs (h.marks_type.1.assign hstatus hmark t value now) ?_ ?_ ?_ ?_ ?_
  · rw [Record.assign_eq hstatus]
    exact h.marks_type.2
  · rw [hdialect]
    exact h.dialect_eq
  · rw [hdialect]
    exact hlegal
  · rw [hdialect]
    exact hfence
  · rw [hdialect, told?_block_of_isWord hkey (h.get?_assign hstatus hmark value now) fun hd e he ↦
      hlegal hd e.1 e.2 (TextMap.mem_entries_iff.1 he)]
    rfl

end Section

namespace Store

variable {doc : Document} {time : Int} {r : Record} {s : Section}

/-! ## The record in the file -/

section Kept

variable {t : StatusTable} (hlayout : doc.markers.effectiveLayout = .outline)
  (ht : t = doc.markers.statusTable?.getD t) (hfits : r.Fits t) {d : Disk} {path : Path}
  {content : Text}
  (hread : d.read path = .ok content)
  (hdoc : Document.read? path content = some { doc with body := rewriteBody t [r] doc.body })

include hread hdoc in
theorem isKept_iff :
    r.IsKept t d path time ↔
      ∃ r', ((empty t).load { doc with body := rewriteBody t [r] doc.body } time).get? r.name =
        some r' ∧
        r'.title = r.title ∧ r'.status = r.status ∧ r'.fields = r.fields :=
  exists_congr fun _ ↦ and_congr_left' (Disk.reloads_iff hread hdoc)

include hlayout ht hfits hread hdoc in
theorem isKept_of_views {v : View} (hv : v.name = r.name) (htitle : v.title = r.title)
    (hstatus : v.status = r.status) (hfields : v.fields = r.fields)
    (hne : Section.named t r.name (Section.cut doc.body) ≠ [])
    (h : ∀ s ∈ Section.named t r.name (Section.cut doc.body), ∃ e,
      (Section.renewed t [r] s).entity? doc.markers t = some e ∧ e.view = v) :
    r.IsKept t d path time := by
  obtain ⟨r', hr', hview⟩ := exists_get?_rewritten hlayout ht hfits hv hne h
  rw [isKept_iff hread hdoc]
  refine ⟨r', hr', ?_, ?_, ?_⟩
  · exact (congrArg View.title hview).trans htitle
  · exact (congrArg View.status hview).trans hstatus
  · exact (congrArg View.fields hview).trans hfields

include hlayout ht hfits hread hdoc in
/-- A record is kept by sections that reread. -/
theorem isKept_of_rereads (hne : r.name ≠ [])
    (hheading : Heading.ReadsBack t r.status r.name r.title)
    (hnamed : Section.named t r.name (Section.cut doc.body) ≠ [])
    (h : ∀ s ∈ Section.named t r.name (Section.cut doc.body), s.Rereads doc.markers t r) :
    r.IsKept t d path time := by
  refine isKept_of_views (v := { r.view with children := [] }) hlayout ht hfits hread hdoc rfl rfl
    rfl
    rfl hnamed fun s hs ↦ ?_
  obtain ⟨hmem, hname⟩ := List.mem_filter.1 hs
  exact (h s hs).keeps hmem (of_decide_eq_true hname) hne hfits hheading

include hlayout ht hfits hread hdoc in
/-- The record of a single section is kept exactly when the section keeps it. -/
theorem isKept_iff_keeps (hsingle : Section.named t r.name (Section.cut doc.body) = [s]) :
    r.IsKept t d path time ↔ s.Keeps doc.markers t r := by
  have hne : Section.named t r.name (Section.cut doc.body) ≠ [] := by simp [hsingle]
  constructor
  · intro h
    obtain ⟨r', hr', htitle, hstatus, hfields⟩ := (isKept_iff hread hdoc).1 h
    obtain ⟨e, he, hname⟩ :=
      mem_names_load.1 (get?_isSome_iff.1 (Option.isSome_iff_exists.2 ⟨r', hr'⟩))
    obtain ⟨s', hs', e', he', hview⟩ := exists_renewed_of_taken hlayout ht hfits he hname
    rw [hsingle, List.mem_singleton] at hs'
    rw [hs'] at he'
    have hname' : e'.name = r.name := (congrArg View.name hview).symm.trans hname
    obtain ⟨r'', hr'', hview'⟩ := exists_get?_rewritten (v := e'.view) hlayout ht hfits
      hname' hne fun a ha ↦ by
        rw [hsingle, List.mem_singleton] at ha
        exact ⟨e', ha ▸ he', rfl⟩
    rw [hr', Option.some.injEq] at hr''
    rw [← hr''] at hview'
    exact ⟨e', he', hname', (congrArg View.title hview').symm.trans htitle,
      (congrArg View.status hview').symm.trans hstatus,
      (congrArg View.fields hview').symm.trans hfields⟩
  · rintro ⟨e, he, hname, htitle, hstatus, hfields⟩
    refine isKept_of_views (v := e.view) hlayout ht hfits hread hdoc hname htitle hstatus hfields
      hne
      fun a ha ↦ ?_
    rw [hsingle, List.mem_singleton] at ha
    exact ⟨e, ha ▸ he, rfl⟩

include hlayout ht hfits hread hdoc in
/-- With the built-in table no record is kept whose name is its own title and has two spaced
hyphens: the name is cut there. -/
theorem not_hyphens_of_isKept (hplain : Heading.IsPlain r.name r.title) (hbuiltIn : t = .builtIn)
    (h : r.IsKept t d path time) : r.title = r.name → ¬ [' ', '-', '-', ' '] <:+: r.name := by
  intro htitle hhyphens
  obtain ⟨r', hr', -⟩ := (isKept_iff hread hdoc).1 h
  obtain ⟨e, he, hname⟩ :=
    mem_names_load.1 (get?_isSome_iff.1 (Option.isSome_iff_exists.2 ⟨r', hr'⟩))
  obtain ⟨s, hs, e', he', hview⟩ := exists_renewed_of_taken hlayout ht hfits he hname
  obtain ⟨hmem, hsname⟩ := List.mem_filter.1 hs
  have hrecord : Section.recordOf? t [r] s = some (s.level, r) := by
    rw [Section.recordOf?_singleton (Section.isCut_of_mem_cut hmem),
      if_pos (of_decide_eq_true hsname)]
  have hrenewed : (Section.renewed t [r] s).name t = r.name := by
    rw [← (Section.name_entity? he').1, ← hname]
    exact (congrArg View.name hview).symm
  rw [Section.renewed_of_recordOf? hrecord] at hrenewed
  rw [htitle] at hplain
  change (Heading.ofText t (Text.trim (Heading.writtenText t r.status r.name r.title))).name = _
    at hrenewed
  rw [htitle, hbuiltIn] at hrenewed
  exact Heading.name_ne_of_hyphens hplain hhyphens r.status hrenewed

end Kept

/-! ## Setting a field and writing it back -/

/-- Writing the record of a document's file back succeeds, and rewrites the file for it. -/
theorem exists_writeBackOne {s : Store} {d : Disk} {path : Path} {content n : Text}
    (hread : d.read path = .ok content) (hdoc : Document.read? path content = some doc)
    (h : s.get? n = some r) (hprimary : r.primary = path) :
    ∃ d', s.writeBackOne d n = .ok (some path, d') ∧
      d'.read path = .ok (rewrite (doc.markers.statusTable?.getD s.table) [r] content) := by
  obtain rfl := hprimary
  obtain ⟨d', hwrite, hread'⟩ := exists_rewriteFile hread hdoc s [r]
  exact ⟨d', writeBackOne_of_rewriteFile h hwrite, hread'⟩

/-- Setting a field of a loaded entity and writing the entity back succeed, and leave the document
with the record written in. -/
theorem exists_stored {t₀ t : StatusTable} {d : Disk} {path : Path} {content n key : Text}
    (hread : d.read path = .ok content) (hdoc : Document.read? path content = some doc)
    (hbody : doc.body ≠ []) (ht : t = doc.markers.statusTable?.getD t₀)
    (hget : ((empty t₀).load doc time).get? n = some r) (hprimary : r.primary = path)
    (hstatus : Entity.isStatusKey key = false) (value : Text) (now : Int) :
    ∃ s' d' content', ((empty t₀).load doc time).setField n key value now = .ok s' ∧
      s'.get? n = some (assign t key value now r) ∧ s'.writeBackOne d n = .ok (some path, d') ∧
      d'.read path = .ok content' ∧ Document.read? path content' =
        some { doc with body := rewriteBody t [assign t key value now r] doc.body } := by
  obtain ⟨s', hset, htable, hget'⟩ := exists_setField hget key value now
  rw [table_load] at htable
  rw [Record.assign_congr hstatus _ value now r t] at hget'
  obtain ⟨d', hwrite, hread'⟩ := exists_writeBackOne hread hdoc hget'
    ((Record.primary_assign t key value now r).trans hprimary)
  rw [htable] at hread'
  change d'.read path = .ok (rewrite (doc.markers.statusTable?.getD t₀) _ content) at hread'
  rw [← ht] at hread'
  exact ⟨s', d', _, hset, hget', hwrite, hread', Document.read?_rewrite hdoc hbody t _⟩

section Assigned

variable {key value : Text} (hlayout : doc.markers.effectiveLayout = .outline)
  (ht : StatusTable.builtIn = doc.markers.statusTable?.getD .builtIn)
  (hr : r ∈ ((empty .builtIn).load doc time).records) (hstatus : Entity.isStatusKey key = false)
  (now : Int)

include hlayout ht hr in
/-- The section of a name that occurs once. -/
theorem isFrom_of_named (hsingle : Section.named .builtIn r.name (Section.cut doc.body) = [s]) :
    s ∈ Section.cut doc.body ∧ r.IsFrom doc.markers .builtIn s.text s.body := by
  have hget := get?_of_mem hr
  obtain ⟨-, -, -, hne⟩ := exists_section_of_get?_load hlayout ht hget
  obtain ⟨hs, hname⟩ := Section.mem_of_named_eq hsingle
  rw [← hname] at hsingle hget hne
  exact ⟨hs, Section.isFrom_of_single hlayout ht hne hsingle hget (StatusTable.isSettled_builtIn _)⟩

include hlayout ht hr hstatus in
theorem fits_assign (hblock : ∀ l ∈ Section.blockLines (assign .builtIn key value now r).dialect
      ((assign .builtIn key value now r).writtenFields .builtIn),
        '\n' ∉ l ∧ Heading.isHeading l = false) :
    (assign .builtIn key value now r).Fits .builtIn := by
  have hplain := Record.isPlain_of_origin (origin_of_mem_load hlayout ht hr)
  refine ⟨?_, hblock⟩
  rw [Record.status_assign hstatus, Record.name_assign, Record.title_assign hstatus]
  exact hplain.isLine StatusTable.hasLines_builtIn

include hlayout ht hr hstatus in
theorem readsBack_assign (hhyphens : r.title = r.name → ¬ [' ', '-', '-', ' '] <:+: r.name) :
    Heading.ReadsBack .builtIn (assign .builtIn key value now r).status
      (assign .builtIn key value now r).name (assign .builtIn key value now r).title := by
  rw [Record.status_assign hstatus, Record.name_assign, Record.title_assign hstatus]
  exact Record.readsBack_of_origin (origin_of_mem_load hlayout ht hr) hhyphens

include hlayout ht hr hstatus in
/-- The record of a line dialect is kept when and only when its heading is. -/
theorem isKept_assign_iff {d : Disk} {path : Path} {content : Text} (hkey : Text.isWord key)
    (hvalue : Text.isWord value) (hmark : Record.isMarkKey key = false) (hd : r.dialect ≠ .fenced)
    (hsingle : Section.named .builtIn r.name (Section.cut doc.body) = [s])
    (hread : d.read path = .ok content)
    (hdoc : Document.read? path content = some
      { doc with body := rewriteBody .builtIn [assign .builtIn key value now r] doc.body })
    (time' : Int) :
    (assign .builtIn key value now r).IsKept .builtIn d path time' ↔
      (r.title = r.name → ¬ [' ', '-', '-', ' '] <:+: r.name) := by
  have hname := Record.name_assign .builtIn key value now r
  have htitle := Record.title_assign hstatus .builtIn value now r
  have hplain := Record.isPlain_of_origin (origin_of_mem_load hlayout ht hr)
  obtain ⟨hs, hfrom⟩ := isFrom_of_named hlayout ht hr hsingle
  have hfits : (assign .builtIn key value now r).Fits .builtIn := by
    refine fits_assign hlayout ht hr hstatus now ?_
    rw [Record.dialect_assign hstatus]
    exact Section.block_assign hfrom hs hd hkey hvalue hstatus hmark now
  constructor
  · intro hkept
    have hnot := not_hyphens_of_isKept hlayout ht hfits hread hdoc
      (by rw [hname, htitle]; exact hplain) rfl hkept
    rwa [hname, htitle] at hnot
  · intro hhyphens
    refine isKept_of_rereads hlayout ht hfits hread hdoc (by rw [hname]; exact hplain.name_ne)
      (readsBack_assign hlayout ht hr hstatus now hhyphens) (by simp [hname, hsingle]) fun a ha ↦ ?_
    rw [hname, hsingle, List.mem_singleton] at ha
    rw [ha]
    exact Section.rereads_assign hfrom hs hkey hvalue hstatus hmark now
      fun hfenced ↦ absurd hfenced hd

end Assigned

/-- A set field is durable.  Setting a field of a loaded entity and writing the entity back succeed,
and change nothing but the field in memory.  When the name occurs once in a line dialect, the file
gives the record back exactly when the heading does, which fails only for a name that is its own
title and has two spaced hyphens.  When the block has no heading, the file gives the record of a
single section back exactly when the section does, and it does so for a fenced block that is read
back by itself behind no open fence; for a name that is repeated all its sections have to reread. -/
theorem setField_writeBackOne {d : Disk} {path : Path} {content n key value : Text}
    (hread : d.read path = .ok content) (hdoc : Document.read? path content = some doc)
    (hlayout : doc.markers.effectiveLayout = .outline) (hstatuses : doc.markers.statuses = none)
    (hget : ((empty .builtIn).load doc time).get? n = some r) (hkey : Text.isWord key)
    (hvalue : Text.isWord value) (hstatus : Entity.isStatusKey key = false)
    (hmark : Record.isMarkKey key = false) (now : Int) :
    ∃ s' r' d', ((empty .builtIn).load doc time).setField n key value now = .ok s' ∧
      s'.get? n = some r' ∧ r'.fields = r.fields.insert key value ∧ r'.status = r.status ∧
      r'.title = r.title ∧ s'.writeBackOne d n = .ok (some path, d') ∧
      (∀ s, Section.named .builtIn n (Section.cut doc.body) = [s] → r.dialect ≠ .fenced → ∀ time',
        (r'.IsKept .builtIn d' path time' ↔
          (r.title = n → ¬ [' ', '-', '-', ' '] <:+: n))) ∧
      ((∀ l ∈ Section.blockLines r'.dialect (r'.writtenFields .builtIn),
          '\n' ∉ l ∧ Heading.isHeading l = false) →
        (∀ s, Section.named .builtIn n (Section.cut doc.body) = [s] → ∀ time',
          (r'.IsKept .builtIn d' path time' ↔ s.Keeps doc.markers .builtIn r')) ∧
        ((r.title = n → ¬ [' ', '-', '-', ' '] <:+: n) →
          (∀ s ∈ Section.named .builtIn n (Section.cut doc.body),
            s.Rereads doc.markers .builtIn r') →
          ∀ time', r'.IsKept .builtIn d' path time')) ∧
      ∀ s, Section.named .builtIn n (Section.cut doc.body) = [s] →
        s.AdmitsFence (r'.writtenFields .builtIn) → s.Rereads doc.markers .builtIn r' := by
  obtain rfl := name_of_get? hget
  have ht : StatusTable.builtIn = doc.markers.statusTable?.getD .builtIn := by
    unfold Markers.statusTable?
    rw [hstatuses]
    rfl
  have hr := mem_of_get? hget
  have hprimary := (origin_of_mem_load hlayout ht hr).primary.trans (Document.path_of_read? hdoc)
  obtain ⟨s₀, hs₀, hname₀, hne⟩ := exists_section_of_get?_load hlayout ht hget
  obtain ⟨s', d', content', hset, hget', hwrite, hread', hdoc'⟩ :=
    exists_stored hread hdoc (body_ne_nil hlayout hget) ht hget hprimary hstatus value now
  have hname := Record.name_assign .builtIn key value now r
  refine ⟨s', assign .builtIn key value now r, d', hset, hget',
    Record.fields_assign hstatus _ _ _ _,
    Record.status_assign hstatus _ _ _ _, Record.title_assign hstatus _ _ _ _, hwrite,
    fun s hsingle hd time' ↦ ?_,
    fun hblock ↦ ⟨fun s hsingle time' ↦ ?_, fun hhyphens hall time' ↦ ?_⟩,
    fun s hsingle hfence ↦ ?_⟩
  · exact isKept_assign_iff hlayout ht hr hstatus now hkey hvalue hmark hd hsingle hread' hdoc'
      time'
  · exact isKept_iff_keeps hlayout ht (fits_assign hlayout ht hr hstatus now hblock) hread' hdoc'
      (by rw [hname]; exact hsingle)
  · have hnamed : Section.named .builtIn r.name (Section.cut doc.body) ≠ [] :=
      List.ne_nil_of_mem (List.mem_filter.2 ⟨hs₀, by simpa using hname₀⟩)
    exact isKept_of_rereads hlayout ht (fits_assign hlayout ht hr hstatus now hblock) hread' hdoc'
      (by rw [hname]; exact hne) (readsBack_assign hlayout ht hr hstatus now hhyphens)
      (by rw [hname]; exact hnamed) (by rw [hname]; exact hall)
  · obtain ⟨hs, hfrom⟩ := isFrom_of_named hlayout ht hr hsingle
    exact Section.rereads_assign hfrom hs hkey hvalue hstatus hmark now fun _ ↦ hfence

/-- The owner of a plan can be changed. -/
theorem setField_writeBackOne_owned :
    ∃ s' r' d', ((empty .builtIn).load (.plan Document.owned) 0).setField "Plan" "Owner" "bob" 1 =
        .ok s' ∧
      s'.get? "Plan" = some r' ∧ r'.fields.get? "Owner" = some "bob".toList ∧
      s'.writeBackOne (.plan (Document.planLead ++ Document.owned)) "Plan" =
        .ok (some "plan.md", d') ∧
      r'.IsKept .builtIn d' "plan.md" 0 := by
  obtain ⟨r, hget⟩ :
      ∃ r, ((empty .builtIn).load (.plan Document.owned) 0).get? "Plan" = some r := by
    rw [← Option.isSome_iff_exists]
    decide +kernel
  have hrecords : ∀ r ∈ ((empty .builtIn).load (.plan Document.owned) 0).records,
      r.dialect = .colons ∧
        (r.title = "Plan".toList → ¬ [' ', '-', '-', ' '] <:+: "Plan".toList) := by
    decide +kernel
  obtain ⟨s, hsingle⟩ : ∃ s, Section.named .builtIn "Plan" (Section.cut Document.owned) = [s] := by
    rw [← List.length_eq_one_iff]
    decide +kernel
  have hlayout : (Document.plan Document.owned).markers.effectiveLayout = .outline := by decide
  have hkey : Text.isWord "Owner" := by decide
  have hvalue : Text.isWord "bob" := by decide
  obtain ⟨hdialect, hhyphens⟩ := hrecords r (mem_of_get? hget)
  obtain ⟨s', r', d', hset, hget', hfields, -, -, hwrite, hline, -, -⟩ :=
    setField_writeBackOne (Disk.read_plan (Document.planLead ++ Document.owned))
      (Document.read?_plan Document.owned) hlayout rfl hget hkey hvalue (by decide) (by decide) 1
  refine ⟨s', r', d', hset, hget', ?_, hwrite, ?_⟩
  · rw [hfields]
    exact TextMap.get?_insert_self _ _ _
  · refine (hline s hsingle ?_ 0).2 hhyphens
    rw [hdialect]
    simp

/-- A plan with a rule in its prose. -/
def ruled : Text := "## Plan\nText\n---\nmore\n"

/-- Behind a rule, which is a fence that nothing closes, a new field is not read. -/
theorem not_setField_ruled :
    ∃ s' d', ((empty .builtIn).load (.plan ruled) 0).setField "Plan" "Owner" "bob" 1 = .ok s' ∧
      s'.writeBackOne (.plan (Document.planLead ++ ruled)) "Plan" = .ok (some "plan.md", d') ∧
      ∀ r, d'.Reloads "plan.md" .builtIn 0 "Plan" r → r.fields.get? "Owner" = none := by
  obtain ⟨r₀, hget₀⟩ : ∃ r, ((empty .builtIn).load (.plan ruled) 0).get? "Plan" = some r := by
    rw [← Option.isSome_iff_exists]
    decide +kernel
  have hrecords : ∀ r₀ ∈ ((empty .builtIn).load (.plan ruled) 0).records,
      ∀ r ∈ ((empty .builtIn).load (.plan (rewriteBody .builtIn
          [assign .builtIn "Owner" "bob" 1 r₀] ruled)) 0).records,
        r.fields.get? "Owner" = none := by
    decide +kernel
  have hmem := mem_of_get? hget₀
  have hlayout : (Document.plan ruled).markers.effectiveLayout = .outline := by decide
  have hprimary : r₀.primary = "plan.md" := (origin_of_mem_load hlayout rfl hmem).primary
  have ht : StatusTable.builtIn = (Document.plan ruled).markers.statusTable?.getD .builtIn := rfl
  have hstatus : Entity.isStatusKey "Owner" = false := by decide
  obtain ⟨s', d', content', hset, -, hwrite, hread, hdoc⟩ :=
    exists_stored (Disk.read_plan (Document.planLead ++ ruled)) (Document.read?_plan ruled)
      (by decide)
      ht hget₀ hprimary hstatus "bob" 1
  refine ⟨s', d', hset, hwrite, fun r hreloads ↦ ?_⟩
  rw [Disk.reloads_iff hread hdoc] at hreloads
  exact hrecords r₀ hmem r (mem_of_get? hreloads)

end Store

end Markbook
