import Markbook.Proofs.WriteBack.Reread

/-!
# Records of One Document

Every record that one outline leaves in an empty store has its name, its title and its status from
entities of that document (`Record.Origin`), and its primary file is the file of the document.  A
name that occurs once has the record of its section (`Section.get?_load_of_single`), and what a
section holds in a line dialect is legal there (`Section.legal_of_given`).
-/

namespace Markbook

open Dialect

/-- Where the values of a record come from. -/
structure Record.Origin (E : List Entity) (path : Path) (r : Record) : Prop where
  title : ∃ e ∈ E, e.name = r.name ∧ e.title = r.title
  status : ∃ e ∈ E, e.name = r.name ∧ e.status = r.status
  primary : r.primary = path

namespace Store

variable {t : StatusTable} {doc : Document} {path : Path} {time : Int} {r : Record}

theorem table_mergeEntity (s : Store) (e : Entity) :
    (mergeEntity path time s e).table = s.table := by
  unfold mergeEntity
  split <;> rfl

mutual

theorem table_mergeTree : ∀ (t : Tree Entity) (s : Store),
    (mergeTree path time s t).table = s.table
  | .node e l, s => by
    rw [mergeTree]
    exact (table_mergeTrees l _).trans (table_mergeEntity s e)

theorem table_mergeTrees : ∀ (l : List (Tree Entity)) (s : Store),
    (mergeTrees path time s l).table = s.table
  | [], _ => rfl
  | t :: r, s => by rw [mergeTrees, table_mergeTrees r, table_mergeTree t]

end

theorem table_load (s : Store) (doc : Document) (time : Int) :
    (s.load doc time).table = s.table :=
  table_mergeTrees (forest s.table doc) s

theorem origin_foldl (E : List Entity) (path : Path) :
    ∀ r ∈ (E.foldl (mergeEntity path time) (empty t)).records, r.Origin E path := by
  refine foldl_mergeEntity_induct (by simp) (fun e he ↦ ?_) fun e he r hr hname ↦ ?_
  · exact ⟨⟨e, he, rfl, rfl⟩, ⟨e, he, rfl, rfl⟩, rfl⟩
  · obtain ⟨fields, status, hview, -, hstatus⟩ := Record.view_merge e path time r
    have hmergedTitle : (Record.merge e path time r).title = r.title := congrArg View.title hview
    have hmergedStatus : (Record.merge e path time r).status = status := congrArg View.status hview
    refine ⟨?_, ?_, Record.primary_merge hr.primary⟩
    · rw [Record.name_merge, hmergedTitle]
      exact hr.title
    · rw [Record.name_merge, hmergedStatus]
      rcases hstatus with rfl | rfl
      · exact hr.status
      · exact ⟨e, he, hname.symm, rfl⟩

/-- A record of a document that was loaded into an empty store. -/
theorem exists_of_get?_load {n : Text} (h : ((empty t).load doc time).get? n = some r) :
    ∃ r' children, (((empty t).taken doc).foldl (mergeEntity doc.path time) (empty t)).get? n =
      some r' ∧ r = { r' with children := children } := by
  rw [get?_load] at h
  obtain ⟨r', hr', rfl⟩ := Option.map_eq_some_iff.1 h
  exact ⟨r', _, hr', rfl⟩

theorem origin_of_get?_load {n : Text} (h : ((empty t).load doc time).get? n = some r) :
    r.Origin ((empty t).taken doc) doc.path := by
  obtain ⟨r', children, hr', rfl⟩ := exists_of_get?_load h
  obtain ⟨htitle, hstatus, hprimary⟩ :=
    origin_foldl ((empty t).taken doc) doc.path r' (mem_of_get? hr')
  exact ⟨htitle, hstatus, hprimary⟩

end Store

namespace Section

variable {m : Markers} {t : StatusTable} {s : Section} {body : Text}

/-! ## Headings that were read -/

theorem newline_not_mem_text (hs : s ∈ cut body) : '\n' ∉ s.text := by
  intro hn
  have hheading := newline_not_mem_of_mem_asLines hs (List.mem_cons_self)
  exact hheading ((isCut_of_mem_cut hs).text_part.subset hn)

theorem canonical?_of_heading (t : StatusTable) (text : Text) :
    ∀ s, (Heading.ofText t text).status = some s → t.canonical? s ≠ none := by
  intro s hs
  rw [Heading.ofText_status] at hs
  obtain ⟨marker, hmarker, rfl⟩ := Option.map_eq_some_iff.1 hs
  obtain ⟨row, hrow, heq⟩ :=
    StatusTable.exists_declared_of_mem_names (StatusTable.status_mem_names hmarker)
  rw [← heq]
  exact Option.isSome_iff_ne_none.1 (StatusTable.canonical?_name_isSome hrow)

end Section

/-- The entity of a section of a body. -/
theorem Outline.exists_section_of_mem {m : Markers} {t : StatusTable} {body : Text} {e : Entity}
    (h : e ∈ Outline.entities m t body) :
    ∃ s ∈ Section.cut body, s.name t ≠ [] ∧
      e = Entity.ofSection m t (Heading.ofText t s.text) s.level s.line s.body := by
  rw [Outline.entities_eq] at h
  obtain ⟨s, hs, he⟩ := List.mem_filterMap.1 h
  have hne : s.name t ≠ [] := by
    obtain ⟨hname, -, hne⟩ := Section.name_entity? he
    rw [← hname]
    exact hne
  rw [Section.entity?_of_name_ne hne] at he
  exact ⟨s, hs, hne, (Option.some.inj he).symm⟩

namespace Section

variable {m : Markers} {t : StatusTable} {s : Section} {body : Text}

/-- Name and title of a heading can be written into a heading. -/
theorem isPlain_of_mem_cut (hs : s ∈ cut body) (hne : s.name t ≠ []) :
    Heading.IsPlain (s.name t) (Heading.ofText t s.text).title := by
  have hnamed := Heading.isNamed_ofText t s.text
  have hline := newline_not_mem_text hs
  exact ⟨hne, hnamed.name_trimmed, fun hn ↦ hline (hnamed.name_part.subset hn), hnamed.no_dash,
    hnamed.title_trimmed, fun hn ↦ hline (hnamed.title_part.subset hn)⟩

/-- With the built-in table the status of a section is told from its name, whatever title comes
behind the name. -/
theorem isApart_of_mem_cut (hs : s ∈ cut body) {title : Text}
    (h : Heading.IsPlain (s.name .builtIn) title) (m : Markers) (level line : Nat) (below : Text) :
    Heading.IsApart .builtIn
      (Entity.ofSection m .builtIn (Heading.ofText .builtIn s.text) level line below).status
      (s.name .builtIn) title := by
  rw [Entity.ofSection_status]
  refine Heading.isApart_builtIn h (fun st hst ↦ ?_) fun hform ↦ ?_
  · cases hh : (Heading.ofText .builtIn s.text).status with
    | some h' =>
      rw [hh, Option.some_or, Option.some.injEq] at hst
      rw [Heading.ofText_status] at hh
      obtain ⟨marker, hmarker, hmstatus⟩ := Option.map_eq_some_iff.1 hh
      rw [← hst, ← hmstatus]
      exact StatusTable.canonical_of_mem_names_builtIn (StatusTable.status_mem_names hmarker)
    | none =>
      rw [hh, Option.none_or] at hst
      obtain ⟨p, -, rfl⟩ := Option.map_eq_some_iff.1 hst
      exact StatusTable.canonical_canonical_builtIn p.2
  · have hnone : (Heading.ofText .builtIn s.text).status = none := by
      cases hh : (Heading.ofText .builtIn s.text).status with
      | none => rfl
      | some h' =>
        rw [hh, Option.some_or] at hform
        have hsome := Record.marker?_isSome_of_heading
          (canonical?_of_heading .builtIn s.text h' hh) (StatusTable.isSettled_builtIn _)
        rw [hform] at hsome
        simp at hsome
    exact Heading.not_form_prefix_name (isCut_of_mem_cut hs).text_trimmed hnone

end Section

/-- Name and title of a loaded record are those of a heading. -/
theorem Record.isPlain_of_origin {m : Markers} {t : StatusTable} {body : Text} {path : Path}
    {r : Record} (h : r.Origin (Outline.entities m t body) path) :
    Heading.IsPlain r.name r.title := by
  obtain ⟨e, he, hname, htitle⟩ := h.title
  obtain ⟨s, hs, hne, rfl⟩ := Outline.exists_section_of_mem he
  rw [← hname, ← htitle]
  exact Section.isPlain_of_mem_cut hs hne

/-- With the built-in table the heading of a loaded record is read back, unless the name is its own
title and has two spaced hyphens. -/
theorem Record.readsBack_of_origin {m : Markers} {body : Text} {path : Path} {r : Record}
    (h : r.Origin (Outline.entities m .builtIn body) path)
    (hhyphens : r.title = r.name → ¬ [' ', '-', '-', ' '] <:+: r.name) :
    Heading.ReadsBack .builtIn r.status r.name r.title := by
  have hplain := Record.isPlain_of_origin h
  obtain ⟨e, he, hname, hstatus⟩ := h.status
  obtain ⟨s, hs, -, rfl⟩ := Outline.exists_section_of_mem he
  have hname : s.name .builtIn = r.name := hname
  rw [← hname] at hplain
  have hapart := Section.isApart_of_mem_cut hs hplain m s.level s.line s.body
  rw [hstatus, hname] at hapart
  exact hapart.readsBack ⟨hname ▸ hplain, hhyphens⟩

/-! ## Names that occur once -/

namespace Section

variable {m : Markers} {t : StatusTable} {s : Section} {body : Text}

/-- The sections of a name. -/
def named (t : StatusTable) (n : Text) (ss : List Section) : List Section :=
  ss.filter fun s ↦ s.name t = n

theorem mem_of_named_eq {n : Text} {ss : List Section} (h : named t n ss = [s]) :
    s ∈ ss ∧ s.name t = n := by
  have hmem : s ∈ named t n ss := by simp [h]
  obtain ⟨hs, hname⟩ := List.mem_filter.1 hmem
  exact ⟨hs, of_decide_eq_true hname⟩

theorem filter_entitiesOf {n : Text} (hn : n ≠ []) (m : Markers) (t : StatusTable)
    (ss : List Section) :
    (Outline.entitiesOf m t ss).filter (fun e ↦ e.name = n) =
      Outline.entitiesOf m t (named t n ss) := by
  unfold Outline.entitiesOf named
  induction ss with
  | nil => rfl
  | cons s r ih =>
    rw [List.filterMap_cons]
    cases he : s.entity? m t with
    | none =>
      have hname : s.name t ≠ n := by
        rw [entity?_eq_none_iff.1 he]
        exact hn.symm
      rw [List.filter_cons_of_neg (by simpa using hname)]
      exact ih
    | some e =>
      have hname := (name_entity? he).1
      by_cases h : s.name t = n
      · rw [List.filter_cons_of_pos (by simp [hname, h]), List.filter_cons_of_pos (by simp [h]),
          List.filterMap_cons, he, ih]
      · rw [List.filter_cons_of_neg (by simp [hname, h]), List.filter_cons_of_neg (by simp [h])]
        exact ih

/-- The record of a section whose name occurs once. -/
theorem get?_load_of_single {t₀ : StatusTable} {doc : Document} {time : Int}
    (hlayout : doc.markers.effectiveLayout = .outline)
    (ht : t = doc.markers.statusTable?.getD t₀)
    (hsingle : named t (s.name t) (cut doc.body) = [s]) (hne : s.name t ≠ []) {r : Record}
    (hr : ((Store.empty t₀).load doc time).get? (s.name t) = some r) :
    ∃ children, r =
      { Record.ofEntity (Entity.ofSection doc.markers t (Heading.ofText t s.text) s.level s.line
          s.body) doc.path time with children := children } := by
  obtain ⟨r', children, hr', rfl⟩ := Store.exists_of_get?_load hr
  have hfilter : ((Store.empty t₀).taken doc).filter (fun e ↦ e.name = s.name t) =
      [Entity.ofSection doc.markers t (Heading.ofText t s.text) s.level s.line s.body] := by
    have htable : (Store.empty t₀).table = t₀ := rfl
    rw [Store.taken_outline hlayout, htable, ← ht, Outline.entities_eq, filter_entitiesOf hne,
      hsingle]
    unfold Outline.entitiesOf
    rw [List.filterMap_cons, entity?_of_name_ne hne]
    rfl
  rw [Store.get?_foldl_of_single hfilter (Store.get?_empty t₀ _), Option.some.injEq] at hr'
  exact ⟨children, by rw [hr']⟩

/-! ## Fields that were read -/

/-- A field that a section holds in a line dialect is legal there. -/
theorem legal_of_given {d : Dialect} (hd : d ≠ .fenced) (hdialect : Entity.dialectOf m body = d)
    {k v : Text} (hv : (Entity.given m body).get? k = some v) : d.Legal (k, v) := by
  unfold Entity.given at hv
  rw [hdialect] at hv
  exact legal_of_mem_entries hd (fun l hl ↦ Text.newline_not_mem_of_mem_lines hl)
    (TextMap.mem_of_get?_ofList hv)

/-- The line that is written for a field says as little of a heading as the line it was read
from. -/
theorem isHeading_colonsLine {l : Text} {e : Text × Text} (hl : Heading.isHeading l = false)
    (hfield : colonsField? l = some e) (he : IsField e) :
    Heading.isHeading (colonsLine e) = false := by
  -- Both lines start with the hashes of the key and go on with a colon.
  obtain ⟨key, rest, hline, hkey⟩ := exists_key_of_colonsField? hfield
  have htrimmed := Text.isTrimmed_trim l
  have hhashes : Heading.hashes (Text.trim l) = 0 ∨ 6 < Heading.hashes (Text.trim l) :=
    Heading.hashes_of_isHeading hl (c := ':') (by simp [hline]) (by decide) (by decide)
  rw [hline] at htrimmed hhashes
  have hkeyHashes : Heading.hashes e.1 = Heading.hashes key := by
    rw [← hkey, Text.trim, htrimmed.trimStart_of_append, Heading.hashes_trimEnd]
  have hcolonsLine : Heading.hashes (colonsLine e) = Heading.hashes e.1 := by
    unfold colonsLine
    split
    · exact Heading.hashes_append _ (by simp)
    · rw [List.append_assoc]
      exact Heading.hashes_append _ (by simp [mark])
  have htrim : Text.trim (colonsLine e) = colonsLine e := isTrimmed_colonsLine he
  apply Heading.isHeading_of_hashes
  rw [htrim, hcolonsLine, hkeyHashes]
  rwa [Heading.hashes_append _ (by simp)] at hhashes

theorem isHeading_of_given (hs : s ∈ cut body) (hdialect : Entity.dialectOf m s.body = .colons)
    {k v : Text} (hv : (Entity.given m s.body).get? k = some v) :
    Heading.isHeading (colonsLine (k, v)) = false := by
  have hlegal := legal_of_given (by simp) hdialect hv
  unfold Entity.given at hv
  rw [hdialect] at hv
  obtain ⟨l, hl, hfield⟩ := List.mem_filterMap.1 (TextMap.mem_of_get?_ofList hv)
  have hlines : Text.lines s.body = s.lines.map Text.chomp :=
    Text.lines_terminated fun l hl ↦ newline_not_mem_of_mem_section hs hl
  rw [hlines] at hl
  obtain ⟨l', hl', rfl⟩ := List.mem_map.1 hl
  refine isHeading_colonsLine ?_ hfield hlegal.toIsField
  rw [Heading.isHeading_chomp]
  exact (isCut_of_mem_cut hs).lines l' hl'

/-- A section in a line dialect is open to a block of that dialect. -/
theorem told?_ahead_of_dialectOf {d : Dialect} (hd : d ≠ .fenced) (hs : s ∈ cut body)
    (hdialect : Entity.dialectOf m s.body = d) : told? (ahead d s.lines) = none := by
  apply told?_ahead_of_told? fun l hl ↦ claims_ahead hd hl
  cases htold : told? s.lines with
  | none => exact .inr rfl
  | some d' =>
    left
    rw [← hdialect, dialectOf_of_told? m (fun l hl ↦ newline_not_mem_of_mem_section hs hl) htold]

end Section

namespace Store

variable {t₀ t : StatusTable} {doc : Document} {time : Int} {r : Record} {s : Section}

/-! ## Records and sections -/

/-- The entities of an outline as sections give them. -/
theorem taken_eq_entitiesOf (hlayout : doc.markers.effectiveLayout = .outline)
    (ht : t = doc.markers.statusTable?.getD t₀) :
    (empty t₀).taken doc = Outline.entitiesOf doc.markers t (Section.cut doc.body) := by
  rw [taken_outline hlayout, ht, Outline.entities_eq]
  rfl

/-- A section is rewritten for the record of its name. -/
theorem recordOf?_records (s' : Store) [s'.IsIndexed] (hs : s ∈ Section.cut doc.body) :
    Section.recordOf? t s'.records s = (s'.get? (s.name t)).map fun r ↦ (s.level, r) := by
  rw [get?_eq_find?]
  exact Section.recordOf?_eq (Section.isCut_of_mem_cut hs) t s'.records

/-- The name of a loaded record is the name of a section. -/
theorem exists_section_of_get?_load (hlayout : doc.markers.effectiveLayout = .outline)
    (ht : t = doc.markers.statusTable?.getD t₀) {n : Text}
    (hr : ((empty t₀).load doc time).get? n = some r) :
    ∃ s ∈ Section.cut doc.body, s.name t = n ∧ n ≠ [] := by
  obtain ⟨e, he, rfl⟩ := mem_names_load.1 (get?_isSome_iff.1 (Option.isSome_iff_exists.2 ⟨r, hr⟩))
  rw [taken_eq_entitiesOf hlayout ht] at he
  obtain ⟨s, hs, hentity⟩ := List.mem_filterMap.1 he
  obtain ⟨hname, -, hne⟩ := Section.name_entity? hentity
  exact ⟨s, hs, hname.symm, hne⟩

/-- A document with a record has a body. -/
theorem body_ne_nil (hlayout : doc.markers.effectiveLayout = .outline) {n : Text}
    (hr : ((empty t₀).load doc time).get? n = some r) : doc.body ≠ [] := by
  obtain ⟨s, hs, -, -⟩ := exists_section_of_get?_load hlayout rfl hr
  exact Section.body_ne_nil_of_mem_cut hs

theorem origin_of_mem_load (hlayout : doc.markers.effectiveLayout = .outline)
    (ht : t = doc.markers.statusTable?.getD t₀) (hr : r ∈ ((empty t₀).load doc time).records) :
    r.Origin (Outline.entities doc.markers t doc.body) doc.path := by
  have horigin := origin_of_get?_load (get?_of_mem hr)
  rw [taken_outline hlayout] at horigin
  rw [ht]
  exact horigin

/-- Where the forms of the statuses are lines, the heading of a loaded record is one. -/
theorem isLine_of_mem_load (hlayout : doc.markers.effectiveLayout = .outline)
    (ht : t = doc.markers.statusTable?.getD t₀) (hforms : t.HasLines)
    (hr : r ∈ ((empty t₀).load doc time).records) : Heading.IsLine t r.status r.name r.title :=
  (Record.isPlain_of_origin (origin_of_mem_load hlayout ht hr)).isLine hforms

end Store

end Markbook
