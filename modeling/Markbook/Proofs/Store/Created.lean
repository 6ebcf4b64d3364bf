import Markbook.Proofs.Heading.Told
import Markbook.Proofs.Section.Appended
import Markbook.Proofs.Store.Run
import Markbook.Proofs.WriteBack.Rereads

/-!
# Created Entities

A new entity is written to the end of a document and registered as it was given.  The document is
loaded with its own status table, but the heading is written with the one of the store.  The entity
is loaded as it was registered when its heading says the same in both, and without a table of its
own exactly then (`Store.create_reload`).
-/

namespace Markbook

open Dialect Section

namespace Entity

/-- Fields that a new section can carry: they are legal in its line dialect, there is no type among
them, and no key looks like prose or starts a heading. -/
structure IsPlain (d : Dialect) (fields : Fields) : Prop where
  dialect : d ≠ .fenced
  legal : ∀ e ∈ fields.entries, d.Legal e
  untyped : ∀ w ∈ ["Type", "type"], fields.get? w.toList = none
  keys : d = .colons → ∀ e ∈ fields.entries, isKeyLike e.1 ∧ e.1.head? ≠ some '#'

variable {d : Dialect} {fields : Fields} {t : StatusTable} {name title : Text}

theorem IsPlain.survives (h : IsPlain d fields) : d.Survives fields :=
  survives_of_legal h.dialect h.legal

theorem IsPlain.isHeading (h : IsPlain d fields) :
    ∀ l ∈ blockLines d fields, Heading.isHeading l = false := by
  cases hempty : fields.isEmpty with
  | true =>
    unfold blockLines
    simp [hempty]
  | false =>
    rw [blockLines_of_not_isEmpty hempty]
    refine isHeading_of_mem_writtenLines h.dialect (fun e he ↦ (h.legal e he).toIsField)
      (entries_ne_nil hempty) fun hd e he ↦ ?_
    apply Heading.isHeading_of_head?
    rw [head?_colonsLine (h.legal e he).toIsField]
    exact (h.keys hd e he).2

/-- A section of nothing but the block holds the fields. -/
theorem IsPlain.held (h : IsPlain d fields) : held (blockLines d fields) = fields := by
  cases hempty : fields.isEmpty with
  | true =>
    unfold blockLines
    rw [if_pos hempty, TextMap.isEmpty_iff.1 hempty]
    rfl
  | false =>
    have htold : told? (blockLines d fields) = some d := by
      rw [blockLines_of_not_isEmpty hempty]
      exact told?_writtenLines_of_keyLike h.legal (entries_ne_nil hempty) fun hd e he ↦
        (h.keys hd e he).1
    unfold Section.held
    rw [htold, Option.getD_some, Text.map_chomp_of_isLine h.survives.lines, h.survives.read]

theorem get?_withoutStatus_of_isStatusKey {k : Text} (hk : isStatusKey k) (given : Fields) :
    (withoutStatus given).get? k = none := by
  unfold withoutStatus
  rw [TextMap.get?_filter given fun k ↦ !isStatusKey k, if_neg (by simp [hk])]

/-- The entity of a new section takes all fields and the status of its heading. -/
theorem IsPlain.ofSection {given : Fields} (h : IsPlain d (withoutStatus given)) (m : Markers)
    (t : StatusTable) (x : Heading) (level line : Nat) {body : Text}
    (hbody : Entity.given m body = withoutStatus given) :
    (ofSection m t x level line body).fields = withoutStatus given ∧
      (ofSection m t x level line body).status = x.status := by
  have htyped : typed (withoutStatus given) = (none, withoutStatus given) := by
    have htaken : IsTaken "Type" "type" none (withoutStatus given) :=
      ⟨h.untyped "Type" (by simp), h.untyped "type" (by simp)⟩
    exact take?_putBack (by decide) htaken
  have hstated : stated x.status.isSome (withoutStatus given) = (none, withoutStatus given) := by
    have htaken : IsTaken "Status" "status" none (withoutStatus given) :=
      ⟨get?_withoutStatus_of_isStatusKey (by decide) given,
        get?_withoutStatus_of_isStatusKey (by decide) given⟩
    unfold stated
    split
    · rfl
    · exact take?_putBack (by decide) htaken
  rw [ofSection_fields, ofSection_status, hbody, htyped]
  simp only
  rw [hstated]
  simp

/-- The lines of a new entity: a heading and the block. -/
theorem lines_written {given : Fields} (h : IsPlain d (withoutStatus given)) (level : Nat)
    (hform : ∀ m ∈ Heading.marker? t (givenStatus? given), '\n' ∉ m) (hname : name.IsAlnum)
    (htitle : title.IsAlnum) :
    Text.lines (written t d level name title given) =
      Text.chomp (Heading.write t level (givenStatus? given) name title) ::
        blockLines d (withoutStatus given) := by
  have hheading : '\n' ∉ Heading.write t level (givenStatus? given) name title := by
    have hn : '\n' ∉ name := hname.not_mem (by decide)
    have ht : '\n' ∉ title := htitle.not_mem (by decide)
    have htitled : '\n' ∉ Heading.titled name title := by
      unfold Heading.titled
      split
      · simpa using hn
      · simp [hn, ht, Heading.emDash]
    rw [Heading.write_eq]
    unfold Heading.writtenText
    cases hm : Heading.marker? t (givenStatus? given) with
    | none => simp [htitled]
    | some m => simp [htitled, hform m hm]
  have hblock : (if (withoutStatus given).isEmpty then [] else
      d.write (withoutStatus given) ++ ['\n']) =
        (blockLines d (withoutStatus given)).flatMap (· ++ ['\n']) := by
    unfold blockLines
    cases hempty : (withoutStatus given).isEmpty with
    | true => rfl
    | false => exact Text.unlines_terminated (writtenLines_ne_nil hempty)
  unfold written
  simp only
  rw [Text.lines_append hheading, hblock, Text.lines_terminated fun l hl ↦
    (h.survives.lines l hl).1, Text.map_chomp_of_isLine h.survives.lines]

theorem split?_written (level : Nat) (hne : name ≠ []) (hname : name.IsAlnum) (title : Text)
    (status : Option Text) :
    Heading.split? (Text.trim (Text.chomp (Heading.write t level status name title))) =
      some (max 1 (min level 6), Text.trim (Heading.writtenText t status name title)) := by
  have htext : Text.trim (Heading.writtenText t status name title) ≠ [] := by
    cases hm : Heading.marker? t status with
    | some m => exact Heading.trim_writtenText_ne_nil hm hne hname title
    | none =>
      obtain ⟨c, r, htitled, -, hc⟩ := Heading.exists_titled_eq_cons hne hname title
      unfold Heading.writtenText
      rw [hm, List.nil_append, htitled]
      intro hnil
      rw [Text.trim_eq_nil_iff.1 hnil c (by simp)] at hc
      simp at hc
  rw [Text.trim_chomp, Heading.write_eq, Heading.split?_replicate (by omega) (by omega) htext]

end Entity

/-- A text gives an empty store of the table the title, the status and the fields of the record. -/
def Record.IsLoadedFrom (r : Record) (t : StatusTable) (note : Note) : Prop :=
  ∃ r', ((Store.empty t).loadNote note).get? r.name = some r' ∧ r'.title = r.title ∧
    r'.status = r.status ∧ r'.fields = r.fields

namespace Store

variable {s : Store} {t : StatusTable} {d d' : Disk} {p : Path} {content name title : Text}
  {given : Fields} {level : Nat} {dialect : Dialect} {now : Int}

/-- A new entity can be written to the end of a file that is not empty, and is registered as it was
given. -/
theorem exists_create (hread : d.read p = .ok content) (hne : content ≠ []) (s : Store)
    (name title : Text) (given : Fields) (level : Nat) (dialect : Dialect) (now : Int) :
    ∃ s' d', s.create d name title given p level dialect now = .ok (s', d') ∧
      s'.get? name = some (created s.table name title given p dialect now) ∧
      d'.read p =
        .ok (completed content ++ Entity.written s.table dialect level name title given) := by
  have hnull := not_isNullDevice hne hread
  obtain ⟨d', hwrite⟩ := Disk.exists_write_of_read hread hnull
    (completed content ++ Entity.written s.table dialect level name title given)
  refine ⟨_, d', ?_, get?_register_self s (created s.table name title given p dialect now),
    Disk.read_write hwrite hnull⟩
  unfold create
  simp only [hread, hwrite]

/-- An entity of a text that was loaded stays, whatever changes later. -/
theorem mem_names_of_load {l : List Change} {note : Note} (h : .load note ∈ l) {e : Entity}
    (he : e ∈ note.entities t) : e.name ∈ ((empty t).run l).names := by
  obtain ⟨a, b, rfl⟩ := List.append_of_mem h
  rw [run_append]
  apply mem_names_run (l := b)
  apply mem_names_loadNote.2
  rw [table_run]
  exact .inr ⟨e, he, rfl⟩

/-- A store of one text has the entities of the text. -/
theorem get?_run_load_eq_none {note : Note} (h : ∀ e ∈ note.entities t, e.name ≠ name) :
    ((empty t).run [.load note]).get? name = none := by
  have hnot : name ∉ ((empty t).loadNote note).names := by
    intro hmem
    rcases mem_names_loadNote.1 hmem with hmem | ⟨e, he, hname⟩
    · exact List.not_mem_nil hmem
    · exact h e he hname
  rw [← get?_isSome_iff] at hnot
  have hrun : (empty t).run [.load note] = (empty t).loadNote note := rfl
  rw [hrun]
  simpa using hnot

theorem entities_outline {doc : Document} (hdoc : Document.read? p content = some doc)
    (hlayout : doc.markers.effectiveLayout = .outline) (t : StatusTable) (time : Int) :
    (Note.mk p content time).entities t =
      Outline.entities doc.markers (doc.markers.statusTable?.getD t) doc.body := by
  unfold Note.entities
  simp only [hdoc]
  exact taken_outline hlayout

/-- What is loaded of the entity behind some that have other names. -/
theorem exists_get?_load_iff {doc : Document} {E : List Entity} {s : Section} {u : StatusTable}
    (htaken : (empty t).taken doc = E ++ (s.entity? doc.markers u).toList)
    (hother : ∀ e ∈ E, e.name ≠ name) (hne : name ≠ []) (time : Int) (P : Record → Prop)
    (hP : ∀ r children, P { r with children := children } ↔ P r) :
    (∃ r, ((empty t).load doc time).get? name = some r ∧ P r) ↔
      (Heading.ofText u s.text).name = name ∧
        P (.ofEntity
          (Entity.ofSection doc.markers u (Heading.ofText u s.text) s.level s.line s.body)
          doc.path time) := by
  rw [get?_load, htaken]
  by_cases hname : (Heading.ofText u s.text).name = name
  · have hentity := Section.entity?_of_name_ne (m := doc.markers) (hname.trans_ne hne)
    have hfilter : (E ++ (s.entity? doc.markers u).toList).filter (fun e ↦ e.name = name) =
        [Entity.ofSection doc.markers u (Heading.ofText u s.text) s.level s.line s.body] := by
      have hnil : E.filter (fun e ↦ e.name = name) = [] := by
        simpa [List.filter_eq_nil_iff] using hother
      rw [List.filter_append, hnil, hentity, Option.toList_some, List.nil_append,
        List.filter_eq_self]
      simpa [Entity.ofSection_name] using hname
    rw [get?_foldl_of_single hfilter (get?_empty t name)]
    simp [hname, hP]
  · have hothers : ∀ e ∈ E ++ (s.entity? doc.markers u).toList, e.name ≠ name := by
      intro e he
      rcases List.mem_append.1 he with he | he
      · exact hother e he
      · rw [Option.mem_toList] at he
        rw [(Section.name_entity? he).1]
        exact hname
    rw [get?_foldl_of_not_mem hothers, get?_empty]
    simp [hname]

/-- The new entity is loaded as it was given exactly when its heading says the same in the table
that the document is loaded with. -/
theorem isLoadedFrom_created_iff {doc : Document} (hdoc : Document.read? p content = some doc)
    (hlayout : doc.markers.effectiveLayout = .outline) {time : Int}
    (hold : ∀ e ∈ (Note.mk p content time).entities t, e.name ≠ name) (hne : name ≠ [])
    (hname : name.IsAlnum) (htitle : title.IsAlnum)
    (hfields : Entity.IsPlain dialect (Entity.withoutStatus given))
    (hform : ∀ m ∈ Heading.marker? t (Entity.givenStatus? given), '\n' ∉ m) (level : Nat)
    (now time' : Int) :
    (created t name title given p dialect now).IsLoadedFrom t
        ⟨p, completed content ++ Entity.written t dialect level name title given, time'⟩ ↔
      Heading.IsTold t (doc.markers.statusTable?.getD t) (Entity.givenStatus? given) name
        title := by
  change (∃ r, ((empty t).loadNote ⟨p, completed content ++
    Entity.written t dialect level name title given, time'⟩).get? name = some r ∧
    r.title = title ∧ r.status = (Entity.givenStatus? given).map t.canonical ∧
    r.fields = Entity.withoutStatus given) ↔ _
  obtain ⟨u, hu⟩ : ∃ u, u = doc.markers.statusTable?.getD t := ⟨_, rfl⟩
  rw [entities_outline hdoc hlayout] at hold
  rw [← hu] at hold ⊢
  -- The new section stands behind what was there, which has other names.
  obtain ⟨offset, hdoc'⟩ := Document.exists_read?_completed hdoc
    (Entity.written t dialect level name title given)
  obtain ⟨E, sec, htext, hlines, hE, happend⟩ := Outline.exists_entities_append doc.body
    (Entity.lines_written hfields level hform hname htitle)
    (Entity.split?_written level hne hname title (Entity.givenStatus? given)) hfields.isHeading
    doc.markers u
  have hother : ∀ e ∈ E, e.name ≠ name := by
    intro e he heq
    obtain ⟨e', he', hname'⟩ := (hE name).1 ⟨e, he, heq⟩
    exact hold e' he' hname'
  have htaken : (empty t).taken ⟨p, doc.markers, completed doc.body ++
      Entity.written t dialect level name title given, offset⟩ =
        E ++ (Section.entity? doc.markers u sec).toList := by
    rw [← happend, hu]
    exact taken_outline hlayout
  have hbody : Entity.given doc.markers sec.body = Entity.withoutStatus given := by
    rw [given_body doc.markers fun l hl ↦ (hfields.survives.lines l (hlines ▸ hl)).1, hlines,
      hfields.held]
  obtain ⟨hfield, hstatus⟩ := hfields.ofSection doc.markers u (Heading.ofText u sec.text) sec.level
    sec.line hbody
  unfold loadNote
  simp only [hdoc']
  rw [exists_get?_load_iff htaken hother hne time' (fun r ↦ r.title = _ ∧ r.status = _ ∧
    r.fields = _) fun r children ↦ Iff.rfl, ← Heading.isTold_iff hne hname htitle, ← htext]
  constructor
  · rintro ⟨hsaid, htitled, hstated, -⟩
    exact ⟨hsaid, htitled, hstatus.symm.trans hstated⟩
  · rintro ⟨hsaid, htitled, hstated⟩
    exact ⟨hsaid, htitled, hstatus.trans hstated, hfield⟩

/-- A created entity.  Once its document was loaded and has no entity of the name, creating it
succeeds.  The document then gives an empty store of the same table the title, the status and the
fields that were registered when the new heading says the same in the table of the document.  For a
document without a table of its own it does so only then. -/
theorem create_reload {l : List Change} {time : Int} {doc : Document}
    (hread : d.read p = .ok content) (hdoc : Document.read? p content = some doc)
    (hlayout : doc.markers.effectiveLayout = .outline) (hload : .load ⟨p, content, time⟩ ∈ l)
    (hnew : ((empty t).run l).get? name = none) (hne : name ≠ []) (hname : name.IsAlnum)
    (htitle : title.IsAlnum) (hfields : Entity.IsPlain dialect (Entity.withoutStatus given))
    (hform : ∀ m ∈ Heading.marker? t (Entity.givenStatus? given), '\n' ∉ m) (level : Nat)
    (now : Int) :
    ∃ s' d' r content',
      ((empty t).run l).create d name title given p level dialect now = .ok (s', d') ∧
      s'.get? name = some r ∧ d'.read p = .ok content' ∧ ∀ time',
        (Heading.IsTold t (doc.markers.statusTable?.getD t) (Entity.givenStatus? given) name title →
          r.IsLoadedFrom t ⟨p, content', time'⟩) ∧
        (doc.markers.statusTable? = none → r.IsLoadedFrom t ⟨p, content', time'⟩ →
          Heading.IsTold t t (Entity.givenStatus? given) name title) := by
  obtain ⟨s', d', hcreate, hget, hread'⟩ := exists_create hread (content_ne_nil hdoc)
    ((empty t).run l) name title given level dialect now
  have htable : ((empty t).run l).table = t := table_run (empty t) l
  rw [htable] at hget hread'
  have hold : ∀ e ∈ (Note.mk p content time).entities t, e.name ≠ name := by
    rintro e he rfl
    have hsome := get?_isSome_iff.2 (mem_names_of_load hload he)
    simp [hnew] at hsome
  refine ⟨s', d', _, _, hcreate, hget, hread', fun time' ↦ ?_⟩
  have hiff :=
    isLoadedFrom_created_iff hdoc hlayout hold hne hname htitle hfields hform level now time'
  refine ⟨hiff.2, fun hown ↦ ?_⟩
  rw [hown, Option.getD_none] at hiff
  exact hiff.1

/-- A plan without any task below it. -/
def titleOnly : Text := Document.planLead ++ "# Plan\n"

/-- An owner and a status for a new task. -/
def givenDone : Fields := .ofList [("Owner", "dan"), ("status", "DONE")]

/-- A task that is done is loaded from a plan as it was created. -/
theorem create_reload_done :
    ∃ s' d' r content', ((empty .builtIn).run [.load ⟨"plan.md", titleOnly, 0⟩]).create
        (.plan titleOnly) "NEW" "Work" givenDone "plan.md" 2 .colons 1 = .ok (s', d') ∧
      s'.get? "NEW" = some r ∧ d'.read "plan.md" = .ok content' ∧
      r.IsLoadedFrom .builtIn ⟨"plan.md", content', 0⟩ := by
  have hdoc := Document.read?_plan "# Plan\n"
  have hlayout : (Document.plan "# Plan\n").markers.effectiveLayout = .outline := rfl
  have hfields : Entity.IsPlain .colons (Entity.withoutStatus givenDone) :=
    ⟨by decide, by decide, by decide, fun _ ↦ by decide⟩
  have hold : ∀ e ∈ (Note.mk "plan.md" titleOnly 0).entities .builtIn, e.name ≠ "NEW".toList := by
    rw [titleOnly, entities_outline hdoc hlayout]
    decide +kernel
  obtain ⟨s', d', r, content', hcreate, hget, hread, hreload⟩ :=
    create_reload (Disk.read_plan titleOnly) hdoc hlayout List.mem_cons_self
      (get?_run_load_eq_none hold) (by decide) (by decide) (show Text.IsAlnum "Work" by decide)
      hfields (by decide) 2 1
  refine ⟨s', d', r, content', hcreate, hget, hread, (hreload 0).1 ?_⟩
  exact ⟨"✅", "✅", "NEW — Work", by decide, by decide +kernel, by decide⟩

theorem not_isLoadedFrom {r : Record} {note : Note} (h : ∀ e ∈ note.entities t, e.name ≠ r.name) :
    ¬ r.IsLoadedFrom t note := by
  rintro ⟨r', hget, -⟩
  have hnone : ((empty t).loadNote note).get? r.name = none := get?_run_load_eq_none h
  rw [hnone] at hget
  simp at hget

/-- A plan that was loaded has no entity of the name.  It takes a new one with some fields, but
does not give back what was registered for it. -/
def PlanLoses (t : StatusTable) (name : Text) (given : Fields) : Prop :=
  ((empty t).run [.load ⟨"plan.md", titleOnly, 0⟩]).get? name = none ∧
    ∃ s' d' r content', ((empty t).run [.load ⟨"plan.md", titleOnly, 0⟩]).create (.plan titleOnly)
        name name given "plan.md" 2 .colons 1 = .ok (s', d') ∧
      s'.get? name = some r ∧ d'.read "plan.md" = .ok content' ∧
      ¬ r.IsLoadedFrom t ⟨"plan.md", content', 0⟩

theorem planLoses_of_not_isLoadedFrom
    (hold : ∀ e ∈ (Note.mk "plan.md" titleOnly 0).entities t, e.name ≠ name)
    (h : ¬ (created t name name given "plan.md" .colons 1).IsLoadedFrom t
      ⟨"plan.md", completed titleOnly ++ Entity.written t .colons 2 name name given, 0⟩) :
    PlanLoses t name given := by
  obtain ⟨s', d', hcreate, hget, hread⟩ := exists_create (Disk.read_plan titleOnly)
    (content_ne_nil (Document.read?_plan "# Plan\n"))
    ((empty t).run [.load ⟨"plan.md", titleOnly, 0⟩]) name name given 2 .colons 1
  rw [table_run] at hget hread
  exact ⟨get?_run_load_eq_none hold, s', d', _, _, hcreate, hget, hread, h⟩

theorem planLoses_of_not_isTold (hne : name ≠ []) (hname : name.IsAlnum)
    (hold : ∀ e ∈ (Note.mk "plan.md" titleOnly 0).entities t, e.name ≠ name)
    (hfields : Entity.IsPlain .colons (Entity.withoutStatus given))
    (hform : ∀ m ∈ Heading.marker? t (Entity.givenStatus? given), '\n' ∉ m)
    (h : ¬ Heading.IsTold t t (Entity.givenStatus? given) name name) : PlanLoses t name given := by
  have hiff := isLoadedFrom_created_iff (Document.read?_plan "# Plan\n") rfl hold hne hname hname
    hfields hform 2 1 0
  exact planLoses_of_not_isLoadedFrom hold fun hloaded ↦ h (hiff.1 hloaded)

/-- The form of a status goes over two lines. -/
def twoLines : StatusTable := ⟨[("complete", ["OK\nX"])]⟩

/-- A plan loses a status without a form, a name that starts with a form, and a name behind a form
of two lines. -/
theorem not_create_reload :
    PlanLoses .builtIn "T" (.ofList [("status", "mystery")]) ∧ PlanLoses .builtIn "DONE1" .empty ∧
      PlanLoses twoLines "T" (.ofList [("status", "complete")]) := by
  have hbuiltIn : ∀ e ∈ (Note.mk "plan.md" titleOnly 0).entities .builtIn, e.name = "Plan" := by
    rw [titleOnly, entities_outline (Document.read?_plan "# Plan\n") rfl]
    decide +kernel
  have htwoLines : ∀ e ∈ (Note.mk "plan.md" titleOnly 0).entities twoLines, e.name ≠ "T" := by
    rw [titleOnly, entities_outline (Document.read?_plan "# Plan\n") rfl]
    decide +kernel
  refine ⟨?_, ?_, ?_⟩
  · refine planLoses_of_not_isTold (by decide) (by decide) (fun e he ↦ ?_)
      ⟨by decide, by decide, by decide, fun _ ↦ by decide⟩ (by decide) ?_
    · rw [hbuiltIn e he]
      decide
    · rintro ⟨m, form, rest, hm, -⟩
      have hnone : Heading.marker? .builtIn (some "mystery") = none := by decide
      exact absurd (hnone.symm.trans hm) (by simp)
  · refine planLoses_of_not_isTold (by decide) (by decide) (fun e he ↦ ?_)
      ⟨by decide, by decide, by decide, fun _ ↦ by decide⟩ (by decide) ?_
    · rw [hbuiltIn e he]
      decide
    · intro hnone
      exact hnone ("complete", "DONE") (by decide) (by decide) (by decide)
  · have hcontent : completed titleOnly ++ Entity.written twoLines .colons 2 "T" "T"
        (.ofList [("status", "complete")]) = Document.planLead ++ "# Plan\n## OK\nX T\n" := by
      decide +kernel
    refine planLoses_of_not_isLoadedFrom htwoLines (not_isLoadedFrom ?_)
    rw [hcontent, entities_outline (Document.read?_plan "# Plan\n## OK\nX T\n") rfl]
    decide +kernel

end Store

end Markbook
