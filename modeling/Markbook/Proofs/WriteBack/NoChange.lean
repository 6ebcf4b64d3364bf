import Markbook.Proofs.WriteBack.Single

/-!
# Write-Back Without Changes

Writing a freshly loaded outline back says the same when each section, rewritten for the record of
its name and read again, says what the record says; and when no name is repeated, only then
(`Store.writeBack_load`).  A section of a line dialect does if the fields that stay in it, or the
lines behind them, still give the dialect away.  Moving a last field into the heading can leave
lines that are read in another dialect (`Store.not_writeBack_load_tabled`).
-/

namespace Markbook

open Dialect

/-! ## Names that stay -/

theorem length_filter_map_le {α : Type} {f g : α → Text} {l : List α}
    (h : ∀ a ∈ l, g a = [] → f a = []) :
    ((l.map f).filter (· ≠ [])).length ≤ ((l.map g).filter (· ≠ [])).length := by
  rw [List.filter_map, List.filter_map, List.length_map, List.length_map,
    ← List.countP_eq_length_filter, ← List.countP_eq_length_filter]
  refine List.countP_mono_left fun a ha hf ↦ ?_
  simp only [Function.comp_apply, decide_eq_true_eq] at hf ⊢
  exact fun hg ↦ hf (h a ha hg)

/-- Where no text is filled in and none of those that are not empty is lost, all texts stay. -/
theorem eq_of_sublist_filter {α : Type} {f g : α → Text} {l : List α}
    (h : ∀ a ∈ l, g a = [] → f a = [])
    (hsub : ((l.map g).filter (· ≠ [])).Sublist ((l.map f).filter (· ≠ []))) :
    ∀ a ∈ l, f a = g a := by
  have heq := hsub.eq_of_length_le (length_filter_map_le h)
  clear hsub
  induction l with
  | nil => simp
  | cons a r ih =>
    rw [List.forall_mem_cons] at h ⊢
    rw [List.map_cons, List.map_cons] at heq
    by_cases hg : g a = []
    · have hf := h.1 hg
      rw [List.filter_cons_of_neg (by simp [hg]), List.filter_cons_of_neg (by simp [hf])] at heq
      exact ⟨by rw [hf, hg], ih h.2 heq⟩
    · rw [List.filter_cons_of_pos (by simp [hg])] at heq
      by_cases hf : f a = []
      · rw [List.filter_cons_of_neg (by simp [hf])] at heq
        have hlength := congrArg List.length heq
        have hle := length_filter_map_le h.2
        rw [List.length_cons] at hlength
        omega
      · rw [List.filter_cons_of_pos (by simp [hf]), List.cons.injEq] at heq
        exact ⟨heq.1.symm, ih h.2 heq.2⟩

namespace Section

theorem names_entitiesOf (m : Markers) (t : StatusTable) (ss : List Section) :
    (Outline.entitiesOf m t ss).map (·.name) = (ss.map (name t)).filter (· ≠ []) := by
  have h := congrArg (List.map Prod.snd) (Outline.levels_names_entitiesOf m t ss)
  rw [List.map_map] at h
  change (Outline.entitiesOf m t ss).map (·.name) = _ at h
  rw [h, List.filter_map, List.filter_map, List.map_map]
  rfl

/-- Where no name is repeated, a section is known by its name. -/
theorem eq_of_name_eq {m : Markers} {t : StatusTable} {ss : List Section} {s s' : Section}
    (h : ((Outline.entitiesOf m t ss).map (·.name)).Nodup) (hs : s ∈ ss) (hs' : s' ∈ ss)
    (hne : s.name t ≠ []) (heq : s'.name t = s.name t) : s' = s := by
  rw [names_entitiesOf, List.filter_map] at h
  have hmem {a : Section} (ha : a ∈ ss) (hname : a.name t ≠ []) :
      a ∈ ss.filter ((fun n ↦ decide (n ≠ [])) ∘ name t) :=
    List.mem_filter.2 ⟨ha, by simpa using hname⟩
  exact List.inj_on_of_nodup_map h (hmem hs' (heq ▸ hne)) (hmem hs hne) heq

end Section

/-! ## The document after write-back -/

/-- A document whose records, as an empty store loads them, have been written into it. -/
def Document.writtenBack (t₀ : StatusTable) (time : Int) (doc : Document) : Document :=
  { doc with
    body := rewriteBody (doc.markers.statusTable?.getD t₀) ((Store.empty t₀).load doc time).records
      doc.body }

namespace Store

variable {t₀ t : StatusTable} {doc : Document} {time : Int} {r : Record} {s : Section}

section WrittenBack

variable (hlayout : doc.markers.effectiveLayout = .outline)
  (ht : t = doc.markers.statusTable?.getD t₀)
  (hfits : ∀ r ∈ ((empty t₀).load doc time).records, r.Fits t)

include hfits in
theorem fits_of_recordOf? (hs : s ∈ Section.cut doc.body) :
    ∀ level r, Section.recordOf? t ((empty t₀).load doc time).records s = some (level, r) →
      r.Fits t := by
  intro level r hr
  exact hfits r (Section.name_of_recordOf? (Section.isCut_of_mem_cut hs) hr).2.2

include hlayout ht in
theorem taken_writtenBack :
    (empty t₀).taken (doc.writtenBack t₀ time) = Outline.entities doc.markers t
      (rewriteBody t ((empty t₀).load doc time).records doc.body) := by
  subst ht
  exact taken_outline hlayout

include hlayout ht hfits in
/-- When no section changes its name, names and links stay. -/
theorem levels_names_writtenBack
    (hname : ∀ s ∈ Section.cut doc.body,
      (Section.renewed t ((empty t₀).load doc time).records s).name t = s.name t) :
    ((empty t₀).taken (doc.writtenBack t₀ time)).map (fun e ↦ (e.level, e.name)) =
      ((empty t₀).taken doc).map fun e ↦ (e.level, e.name) := by
  rw [taken_writtenBack hlayout ht, taken_eq_entitiesOf hlayout ht, ← Outline.entities_eq]
  exact Outline.levels_names_rewriteBody (fun s hs ↦ fits_of_recordOf? hfits hs) hname

include hlayout ht hfits in
/-- A record after write-back says what its sections say. -/
theorem view_writtenBack {v : View}
    (h : ∀ s ∈ Section.cut doc.body, ∀ e,
      (Section.renewed t ((empty t₀).load doc time).records s).entity? doc.markers t = some e →
        e.name = v.name → e.view = v)
    (hr : ((empty t₀).load (doc.writtenBack t₀ time) time).get? v.name = some r) :
    { r.view with children := [] } = v := by
  refine view_load (fun e he hname ↦ ?_) hr
  rw [taken_writtenBack hlayout ht] at he
  obtain ⟨s, hs, e', he', hview⟩ :=
    Outline.exists_renewed_of_mem (fun s hs ↦ fits_of_recordOf? hfits hs) he
  have hname' : e'.name = e.name := (congrArg View.name hview).symm
  rw [hview]
  exact h s hs e' he' (hname'.trans hname)

include hlayout ht hfits in
/-- Write-back without changes says the same when all sections stay. -/
theorem view_records_of_stays
    (h : ∀ s ∈ Section.cut doc.body,
      s.Stays doc.markers t ((empty t₀).load doc time).records) :
    ((empty t₀).load (doc.writtenBack t₀ time) time).records.map Record.view =
      ((empty t₀).load doc time).records.map Record.view := by
  have hlevels := levels_names_writtenBack hlayout ht hfits
    fun s hs ↦ (h s hs).name_eq (Section.isCut_of_mem_cut hs)
  have hnames : ((empty t₀).load (doc.writtenBack t₀ time) time).names =
      ((empty t₀).load doc time).names := by
    rw [names_load, names_load]
    refine names_foldl_congr ?_ rfl
    have := congrArg (List.map Prod.snd) hlevels
    rwa [List.map_map, List.map_map] at this
  refine view_records_congr hnames fun n ↦ ?_
  cases hr : ((empty t₀).load doc time).get? n with
  | none =>
    have hnot : ((empty t₀).load (doc.writtenBack t₀ time) time).get? n = none := by
      rw [← Option.not_isSome_iff_eq_none, get?_isSome_iff, hnames, ← get?_isSome_iff, hr]
      simp
    rw [hnot]
  | some r =>
    obtain ⟨r', hr'⟩ : ∃ r', ((empty t₀).load (doc.writtenBack t₀ time) time).get? n = some r' := by
      rw [← Option.isSome_iff_exists, get?_isSome_iff, hnames, ← get?_isSome_iff, hr]
      rfl
    obtain rfl := name_of_get? hr
    have hview : { r'.view with children := [] } = { r.view with children := [] } := by
      refine view_writtenBack hlayout ht hfits (fun s hs e he hname ↦ ?_) hr'
      have hsname : s.name t = r.name := by
        rw [← (h s hs).name_eq (Section.isCut_of_mem_cut hs), ← (Section.name_entity? he).1]
        exact hname
      have hrecord :
          Section.recordOf? t ((empty t₀).load doc time).records s = some (s.level, r) := by
        rw [recordOf?_records _ hs, hsname, hr]
        rfl
      obtain ⟨e', he', hview⟩ := h s hs s.level r hrecord
      rw [he] at he'
      rw [Option.some.inj he', hview]
    have hlinks : linksAll (forest t₀ (doc.writtenBack t₀ time)) = linksAll (forest t₀ doc) := by
      have hleft := @links_outline (empty t₀) (doc.writtenBack t₀ time) hlayout
      have hright := @links_outline (empty t₀) doc hlayout
      rw [hlevels] at hleft
      exact hleft.trans hright.symm
    have hchildren := children_load hr'
    rw [hview, hlinks, ← children_load hr] at hchildren
    rw [hr', Option.map_some, Option.map_some, View.eq_of_children hview hchildren]

include hlayout ht hfits in
/-- The names after write-back are those of the renewed sections. -/
theorem names_writtenBack :
    ((empty t₀).taken (doc.writtenBack t₀ time)).map (·.name) =
      ((Section.cut doc.body).map
        fun s ↦ (Section.renewed t ((empty t₀).load doc time).records s).name t).filter
          (· ≠ []) := by
  have hentities := Outline.entities_rewriteBody (m := doc.markers) (t := t)
    (fun s hs ↦ fits_of_recordOf? hfits hs)
  have hnames := congrArg (List.map Entity.name) hentities
  rw [List.map_map, List.map_map] at hnames
  rw [taken_writtenBack hlayout ht]
  refine hnames.trans ?_
  have hsame : Entity.name ∘ Entity.unnumbered = Entity.name := rfl
  rw [hsame, Section.names_entitiesOf, List.map_map]
  rfl

include hlayout ht hfits in
/-- A store that still has all names finds every section under its name. -/
theorem name_renewed_of_names
    (hnames : ((empty t₀).load (doc.writtenBack t₀ time) time).names =
      ((empty t₀).taken doc).map (·.name)) :
    ∀ s ∈ Section.cut doc.body,
      (Section.renewed t ((empty t₀).load doc time).records s).name t = s.name t := by
  refine eq_of_sublist_filter (fun s hs hnil ↦ ?_) ?_
  · have hnone : Section.recordOf? t ((empty t₀).load doc time).records s = none := by
      rw [recordOf?_records _ hs, Option.map_eq_none_iff, Option.eq_none_iff_forall_ne_some]
      intro r hr
      obtain ⟨-, -, -, hne⟩ := exists_section_of_get?_load hlayout ht hr
      exact hne hnil
    unfold Section.renewed
    rw [hnone]
    exact hnil
  · obtain ⟨l, hl, heq⟩ := exists_names_foldl (doc.writtenBack t₀ time).path time
      ((empty t₀).taken (doc.writtenBack t₀ time)) (empty t₀)
    rw [← names_load, hnames] at heq
    rw [← names_writtenBack hlayout ht hfits, ← Section.names_entitiesOf (m := doc.markers),
      ← taken_eq_entitiesOf hlayout ht, heq]
    exact hl

include hlayout ht hfits in
/-- Where no name is repeated, write-back without changes says the same only if all sections
stay. -/
theorem stays_of_view_records (hdistinct : (((empty t₀).taken doc).map (·.name)).Nodup)
    (h : ((empty t₀).load (doc.writtenBack t₀ time) time).records.map Record.view =
      ((empty t₀).load doc time).records.map Record.view) (hs : s ∈ Section.cut doc.body) :
    s.Stays doc.markers t ((empty t₀).load doc time).records := by
  have hnames : ((empty t₀).load (doc.writtenBack t₀ time) time).names =
      ((empty t₀).taken doc).map (·.name) := by
    rw [← names_load_of_nodup hdistinct time]
    have := congrArg (List.map View.name) h
    rwa [List.map_map, List.map_map] at this
  have hname := name_renewed_of_names hlayout ht hfits hnames
  intro level r hrecord
  obtain ⟨-, hrname, hmem⟩ := Section.name_of_recordOf? (Section.isCut_of_mem_cut hs) hrecord
  have hr := get?_of_mem hmem
  obtain ⟨-, -, -, hne⟩ := exists_section_of_get?_load hlayout ht hr
  obtain ⟨r', hr', hview⟩ : ∃ r', ((empty t₀).load (doc.writtenBack t₀ time) time).get? r.name =
      some r' ∧ r'.view = r.view := by
    have := view_get?_congr h r.name
    rw [hr, Option.map_some, Option.map_eq_some_iff] at this
    exact this
  rw [hrname] at hne
  have hentity := Section.entity?_of_name_ne (m := doc.markers) ((hname s hs).trans_ne hne)
  refine ⟨_, hentity, ?_⟩
  rw [← hview]
  symm
  refine view_writtenBack hlayout ht hfits (fun s' hs' e' he' hname' ↦ ?_) ?_
  · have hsame : s' = s := by
      rw [taken_eq_entitiesOf hlayout ht] at hdistinct
      refine Section.eq_of_name_eq hdistinct hs hs' hne ?_
      rw [← hname s' hs', ← (Section.name_entity? he').1, hname', ← hname s hs]
      rfl
    rw [hsame, hentity] at he'
    rw [Option.some.inj he']
  · have hvname : (Section.renewed t ((empty t₀).load doc time).records s).name t = r.name := by
      rw [hname s hs, hrname]
    change ((empty t₀).load (doc.writtenBack t₀ time) time).get?
      ((Section.renewed t ((empty t₀).load doc time).records s).name t) = some r'
    rw [hvname]
    exact hr'

end WrittenBack

end Store

/-! ## Sections that stay -/

/-- A record whose block stays inside of a section: in a line dialect the record of a single
section, and else one whose block has no heading. -/
def Record.StaysInside (t : StatusTable) (ss : List Section) (r : Record) : Prop :=
  (r.dialect ≠ .fenced ∧ t.IsSettled r.status ∧ ∃ s, Section.named t r.name ss = [s]) ∨
    ∀ l ∈ Section.blockLines r.dialect (r.writtenFields t), '\n' ∉ l ∧ Heading.isHeading l = false

/-- A record whose heading says the same when it is written.  With the built-in table only a name
that is its own title and has two spaced hyphens stands in the way. -/
def Record.HeadingStays (t : StatusTable) (r : Record) : Prop :=
  (t = .builtIn ∧ (r.title = r.name → ¬ [' ', '-', '-', ' '] <:+: r.name)) ∨
    (Heading.ReadsBack t r.status r.name r.title ∧ t.IsSettled r.status)

/-- A section that is alone with its name and reads back what is written for it: the heading, and a
block that, with the lines behind it, gives its dialect away. -/
structure Section.ReadsBack (t : StatusTable) (ss : List Section) (r : Record)
    (s : Section) : Prop where
  single : named t r.name ss = [s]
  heading : r.HeadingStays t
  fence : r.dialect = .fenced → s.AdmitsFence (r.writtenFields t)
  told :
    (told? (blockLines r.dialect (r.writtenFields t) ++ behind r.dialect s.lines)).getD .colons =
    r.dialect

namespace Store

variable {t₀ t : StatusTable} {doc : Document} {time : Int} {r : Record} {s : Section}

section Loaded

variable (hlayout : doc.markers.effectiveLayout = .outline)
  (ht : t = doc.markers.statusTable?.getD t₀)

include hlayout ht in
theorem fits_of_staysInside (hforms : t.HasLines) (hr : r ∈ ((empty t₀).load doc time).records)
    (h : r.StaysInside t (Section.cut doc.body)) : r.Fits t := by
  refine ⟨isLine_of_mem_load hlayout ht hforms hr, ?_⟩
  rcases h with ⟨hd, hsettled, s, hsingle⟩ | h
  · have hget := get?_of_mem hr
    obtain ⟨-, -, -, hne⟩ := exists_section_of_get?_load hlayout ht hget
    obtain ⟨hs, hname⟩ := Section.mem_of_named_eq hsingle
    rw [← hname] at hget hne hsingle
    exact Section.block_of_isFrom (Section.isFrom_of_single hlayout ht hne hsingle hget hsettled) hs
      hd
  · exact h

include hlayout ht in
theorem readsBack_of_headingStays (hr : r ∈ ((empty t₀).load doc time).records)
    (h : r.HeadingStays t) :
    Heading.ReadsBack t r.status r.name r.title ∧ t.IsSettled r.status := by
  rcases h with ⟨hbuiltIn, hhyphens⟩ | h
  · have horigin := origin_of_mem_load hlayout ht hr
    rw [hbuiltIn] at horigin ⊢
    exact ⟨Record.readsBack_of_origin horigin hhyphens, StatusTable.isSettled_builtIn _⟩
  · exact h

include hlayout ht in
theorem stays_of_readsBack (hfits : ∀ r ∈ ((empty t₀).load doc time).records, r.Fits t)
    (hs : s ∈ Section.cut doc.body)
    (h : ∀ r, ((empty t₀).load doc time).get? (s.name t) = some r →
      s.ReadsBack t (Section.cut doc.body) r) :
    s.Stays doc.markers t ((empty t₀).load doc time).records := by
  intro level r hrecord
  obtain ⟨-, hname, hmem⟩ := Section.name_of_recordOf? (Section.isCut_of_mem_cut hs) hrecord
  have hget := get?_of_mem hmem
  obtain ⟨-, -, -, hne⟩ := exists_section_of_get?_load hlayout ht hget
  rw [hname] at hget
  obtain ⟨hsingle, hstays, hfence, htold⟩ := h r hget
  obtain ⟨hheading, hsettled⟩ := readsBack_of_headingStays hlayout ht hmem hstays
  have hfrom : r.IsFrom doc.markers t s.text s.body :=
    Section.isFrom_of_single hlayout ht (hname ▸ hne) (hname ▸ hsingle) hget hsettled
  exact (Section.rereads_of_isFrom hfrom hs hfence htold).entity? hs hrecord hne (hfits r hmem)
    hheading

end Loaded

/-! ## Writing to a disk -/

/-- Writing a loaded outline back succeeds, and leaves the document with its records written in. -/
theorem exists_writeBack (t₀ : StatusTable) (time : Int) {d : Disk} {path : Path} {content : Text}
    (hread : d.read path = .ok content) (hdoc : Document.read? path content = some doc)
    (hlayout : doc.markers.effectiveLayout = .outline) :
    ∃ d' paths content' doc', ((empty t₀).load doc time).writeBack d = (d', .ok paths) ∧
      d'.read path = .ok content' ∧ Document.read? path content' = some doc' ∧
      (doc' = doc.writtenBack t₀ time ∨ ((empty t₀).load doc time).records = [] ∧ doc' = doc) := by
  by_cases hnil : ((empty t₀).load doc time).records = []
  · refine ⟨d, [], content, doc, ?_, hread, hdoc, .inr ⟨hnil, rfl⟩⟩
    have hbyFile : ((empty t₀).load doc time).byFile = [] := by
      simp [byFile, hnil]
    unfold writeBack
    rw [hbyFile]
    rfl
  · have hprimary : ∀ r ∈ ((empty t₀).load doc time).records, r.primary = path := fun r hr ↦
      ((origin_of_mem_load hlayout rfl hr).primary).trans (Document.path_of_read? hdoc)
    have hbody : doc.body ≠ [] := by
      obtain ⟨r, l, hrecords⟩ := List.exists_cons_of_ne_nil hnil
      have hr : r ∈ ((empty t₀).load doc time).records := hrecords ▸ List.mem_cons_self
      exact body_ne_nil hlayout (get?_of_mem hr)
    obtain ⟨d', hwrite, hread'⟩ := exists_rewriteFile hread hdoc ((empty t₀).load doc time)
      ((empty t₀).load doc time).records
    rw [table_load] at hread'
    refine ⟨d', [path], _, _, ?_, hread', Document.read?_rewrite hdoc hbody _ _, .inl rfl⟩
    unfold writeBack
    rw [byFile_of_primary hnil hprimary]
    unfold rewriteFiles
    rw [hwrite]
    rfl

/-- Two stores say the same of the same entities in the same order. -/
def SaysSame (s s' : Store) : Prop := s.records.map Record.view = s'.records.map Record.view

/-- Write-back without changes.  An outline that is loaded, written back and loaded again says the
same if all its sections stay; where no name is repeated, only then.  A section stays when it is
alone with its name and reads back what is written for it. -/
theorem writeBack_load {d : Disk} {path : Path} {content : Text} (hread : d.read path = .ok content)
    (hdoc : Document.read? path content = some doc)
    (hlayout : doc.markers.effectiveLayout = .outline)
    (ht : t = doc.markers.statusTable?.getD t₀) (hforms : t.HasLines)
    (hblocks : ∀ r ∈ ((empty t₀).load doc time).records, r.StaysInside t (Section.cut doc.body)) :
    (∃ d' paths content' doc', ((empty t₀).load doc time).writeBack d = (d', .ok paths) ∧
      d'.read path = .ok content' ∧ Document.read? path content' = some doc' ∧
      ((∀ s ∈ Section.cut doc.body, s.Stays doc.markers t ((empty t₀).load doc time).records) →
        SaysSame ((empty t₀).load doc' time) ((empty t₀).load doc time)) ∧
      ((((empty t₀).taken doc).map (·.name)).Nodup →
        SaysSame ((empty t₀).load doc' time) ((empty t₀).load doc time) →
          ∀ s ∈ Section.cut doc.body, s.Stays doc.markers t ((empty t₀).load doc time).records)) ∧
    ∀ s ∈ Section.cut doc.body,
      (∀ r, ((empty t₀).load doc time).get? (s.name t) = some r →
        s.ReadsBack t (Section.cut doc.body) r) →
      s.Stays doc.markers t ((empty t₀).load doc time).records := by
  have hfits : ∀ r ∈ ((empty t₀).load doc time).records, r.Fits t := fun r hr ↦
    fits_of_staysInside hlayout ht hforms hr (hblocks r hr)
  refine ⟨?_, fun s hs h ↦ stays_of_readsBack hlayout ht hfits hs h⟩
  obtain ⟨d', paths, content', doc', hwrite, hread', hdoc', heq⟩ :=
    exists_writeBack t₀ time hread hdoc hlayout
  refine ⟨d', paths, content', doc', hwrite, hread', hdoc', ?_⟩
  rcases heq with heq | ⟨hnil, heq⟩
  · rw [heq]
    exact ⟨fun h ↦ view_records_of_stays hlayout ht hfits h,
      fun hdistinct h s hs ↦ stays_of_view_records hlayout ht hfits hdistinct h hs⟩
  · rw [heq]
    refine ⟨fun _ ↦ rfl, fun _ _ s hs level r hr ↦ ?_⟩
    rw [hnil] at hr
    obtain ⟨-, -, hmem⟩ := Section.name_of_recordOf? (Section.isCut_of_mem_cut hs) hr
    simp at hmem

/-- A plan with an owner stays as it is. -/
theorem writeBack_load_owned :
    ∃ d' paths content' doc',
      ((empty .builtIn).load (.plan Document.owned) 0).writeBack
        (.plan (Document.planLead ++ Document.owned)) = (d', .ok paths) ∧
      d'.read "plan.md" = .ok content' ∧ Document.read? "plan.md" content' = some doc' ∧
      SaysSame ((empty .builtIn).load doc' 0) ((empty .builtIn).load (.plan Document.owned) 0) := by
  have hrecords : ∀ s ∈ Section.cut Document.owned,
      ∀ r ∈ ((empty .builtIn).load (.plan Document.owned) 0).records,
        Section.named .builtIn r.name (Section.cut Document.owned) = [s] ∧ r.dialect = .colons ∧
          (r.title = r.name → ¬ [' ', '-', '-', ' '] <:+: r.name) ∧
          (told? (Section.blockLines r.dialect (r.writtenFields .builtIn) ++
            behind r.dialect s.lines)).getD .colons = r.dialect := by
    decide +kernel
  have hsections : Section.cut Document.owned ≠ [] := by decide +kernel
  have hlayout : (Document.plan Document.owned).markers.effectiveLayout = .outline := by decide
  have ht :
      StatusTable.builtIn = (Document.plan Document.owned).markers.statusTable?.getD .builtIn := rfl
  have hblocks : ∀ r ∈ ((empty .builtIn).load (.plan Document.owned) 0).records,
      r.StaysInside .builtIn (Section.cut Document.owned) := by
    intro r hr
    obtain ⟨s, ss, hs⟩ := List.exists_cons_of_ne_nil hsections
    obtain ⟨hsingle, hdialect, -, -⟩ := hrecords s (hs ▸ List.mem_cons_self) r hr
    exact .inl ⟨by rw [hdialect]; decide, StatusTable.isSettled_builtIn _, s, hsingle⟩
  obtain ⟨⟨d', paths, content', doc', hwrite, hread, hdoc, hsame, -⟩, hstays⟩ :=
    writeBack_load (Disk.read_plan (Document.planLead ++ Document.owned))
      (Document.read?_plan Document.owned) hlayout ht StatusTable.hasLines_builtIn hblocks
  refine ⟨d', paths, content', doc', hwrite, hread, hdoc,
    hsame fun s hs ↦ hstays s hs fun r hr ↦ ?_⟩
  obtain ⟨hsingle, hdialect, hhyphens, htold⟩ := hrecords s hs r (mem_of_get? hr)
  refine ⟨hsingle, .inl ⟨rfl, hhyphens⟩, fun hd ↦ ?_, htold⟩
  rw [hdialect] at hd
  simp at hd

/-- A status over a table that holds no fields. -/
def tabled : Text := "## T\nStatus:: complete\n| a | b |\n|---|---|\n| x | y |\n"

/-- Moving the status into the heading leaves lines that are read as a table, so a field appears. -/
theorem not_writeBack_load_tabled :
    ∃ d' paths content' doc',
      ((empty .builtIn).load (.plan tabled) 0).writeBack (.plan (Document.planLead ++ tabled)) =
        (d', .ok paths) ∧
      d'.read "plan.md" = .ok content' ∧ Document.read? "plan.md" content' = some doc' ∧
      ¬ SaysSame ((empty .builtIn).load doc' 0) ((empty .builtIn).load (.plan tabled) 0) := by
  have hlayout : (Document.plan tabled).markers.effectiveLayout = .outline := by decide
  obtain ⟨d', paths, content', doc', hwrite, hread, hdoc, h⟩ :=
    exists_writeBack .builtIn 0 (Disk.read_plan (Document.planLead ++ tabled))
      (Document.read?_plan tabled) hlayout
  refine ⟨d', paths, content', doc', hwrite, hread, hdoc, ?_⟩
  rcases h with h | ⟨h, -⟩
  · rw [h]
    unfold SaysSame
    decide +kernel
  · have hlength : ((empty .builtIn).load (.plan tabled) 0).records.length = 1 := by decide +kernel
    rw [h] at hlength
    simp at hlength

end Store

end Markbook
