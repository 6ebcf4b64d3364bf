import Markbook.Proofs.Store.Run
import Markbook.Proofs.WriteBack.Scanned
import Markbook.Workspace.Run

/-!
# What Commands Change

A command leaves the disk as it is unless it is a set or a create that succeeded
(`Workspace.run_leaves`).  A set writes last, so nothing fails behind it; it changes one file,
which the store was just loaded from, and in that file the sections of the entity only
(`Workspace.exists_set`).  A create writes to the end of one file (`Store.extends_of_create`).
-/

namespace Markbook

/-! ## One file -/

namespace Disk

/-- Two disks that hold the same items, except where a path leads. -/
def AgreesOff (d d' : Disk) (p : Path) : Prop := ∀ q, d.place? p ≠ .ok q → d'.item? q = d.item? q

/-- A text was added to the end of the file of a path, and nothing else changed.  A last line
without an end was ended before, and a file that was not there was empty. -/
structure Extends (d d' : Disk) (p : Path) : Prop where
  others : d.AgreesOff d' p
  file : ∃ old new, (d.read p = .ok old ∨ d.read p = .error .missing ∧ old = []) ∧
    d'.read p = .ok new ∧ Store.completed old <+: new

variable {d d' : Disk} {p : Path} {s : Text}

theorem agreesOff_of_write (h : d.write p s = .ok d') : d.AgreesOff d' p := by
  intro q hq
  cases hnull : isNullDevice p with
  | true =>
    unfold write at h
    rw [if_pos hnull] at h
    rw [← Except.ok.inj h]
  | false =>
    obtain ⟨q', hplace, hother⟩ := item?_write h hnull
    refine hother q ?_
    rintro rfl
    exact hq hplace

end Disk

/-! ## One section -/

namespace Section

/-- A body that was written anew, each line with an end, for an entity: the lines in front of all
sections and those of the sections of other names are the old ones. -/
def IsChangedFor (t : StatusTable) (name : Text) (body out : Text) : Prop :=
  ∃ P : List (List Text),
    List.Forall₂ (fun s ls ↦ s.name t ≠ name → ls = s.asLines) (cut body) P ∧
      out = (lead body ++ P.flatten).flatMap (· ++ ['\n'])

theorem isChangedFor_rewriteBody {body : Text} (hne : body ≠ []) (t : StatusTable) (r : Record) :
    IsChangedFor t r.name body (rewriteBody t [r] body) := by
  refine ⟨(cut body).map (rewritten t [r]), ?_, ?_⟩
  · rw [List.forall₂_map_right_iff, List.forall₂_same]
    intro s hs hname
    unfold rewritten
    rw [recordOf?_singleton (isCut_of_mem_cut hs), if_neg hname]
    rfl
  · rw [rewriteBody_eq_flatMap hne, List.flatMap_def (l := cut body)]

end Section

/-! ## The two commands that write -/

namespace Store

variable {s s' : Store} {d d' : Disk} {name title key : Text} {r : Record}

theorem setField_eq_error (h : s.get? name = none) (key value : Text) (now : Int) :
    s.setField name key value now = .error (.unknownEntity name) := by
  unfold setField set?
  rw [h]
  rfl

/-- A new entity is written to the end of its file. -/
theorem extends_of_create {fields : Fields} {p : Path} {level : Nat} {dialect : Dialect} {now : Int}
    (h : s.create d name title fields p level dialect now = .ok (s', d')) : d.Extends d' p := by
  have hcreated {old : Text} (hold : d.read p = .ok old ∨ d.read p = .error .missing ∧ old = [])
      (hwrite :
        d.write p (completed old ++ Entity.written s.table dialect level name title fields) =
          .ok d') : d.Extends d' p := by
    refine ⟨Disk.agreesOff_of_write hwrite, old, ?_⟩
    cases hnull : Disk.isNullDevice p with
    | true =>
      -- The null device is empty before and after.
      have hread (d : Disk) : d.read p = .ok [] := by
        unfold Disk.read
        rw [if_pos hnull]
      obtain rfl : old = [] := by
        rcases hold with hold | ⟨-, hold⟩
        · exact (Except.ok.inj ((hread d).symm.trans hold)).symm
        · exact hold
      exact ⟨[], hold, hread d', List.prefix_refl _⟩
    | false => exact ⟨_, hold, Disk.read_write hwrite hnull, List.prefix_append _ _⟩
  unfold create at h
  cases hread : d.read p with
  | ok old =>
    rw [hread] at h
    simp only at h
    split at h
    · simp at h
    · next hwrite =>
      obtain ⟨-, rfl⟩ := Prod.mk.inj (Except.ok.inj h)
      exact hcreated (.inl hread) hwrite
  | error e =>
    rw [hread] at h
    cases e with
    | missing =>
      simp only at h
      split at h
      · simp at h
      · next hwrite =>
        obtain ⟨-, rfl⟩ := Prod.mk.inj (Except.ok.inj h)
        exact hcreated (.inr ⟨hread, rfl⟩) hwrite
    | _ => simp at h

/-- An entity was written to its primary file, which a scan found as a document: nothing else on
the disk changed, and nothing in the file outside of the sections that have its name with the table
the file is written with. -/
structure WritesOne (t : StatusTable) (found : List Scan.Finding) (d d' : Disk)
    (r : Record) : Prop where
  others : d.AgreesOff d' r.primary
  file : ∃ f ∈ found, ∃ doc lead out, f.document? = some doc ∧ doc.path = r.primary ∧
    d.read r.primary = .ok (lead ++ doc.body) ∧ d'.read r.primary = .ok (lead ++ out) ∧
    Section.IsChangedFor (f.writtenTable t) r.name doc.body out

/-- A record of a scanned folder, with some changes, is written to the file it was taken from. -/
theorem exists_writesOne {t : StatusTable} {dir : Path} {found : List Scan.Finding} {r' : Record}
    (hload : (empty t).loadFolder d dir = .ok (s, found)) (hget : s.get? name = some r)
    (htable : s'.table = t) (hget' : s'.get? name = some r') (hname : r'.name = r.name)
    (hprimary : r'.primary = r.primary) :
    ∃ d', s'.writeBackOne d name = .ok (some r.primary, d') ∧ WritesOne t found d d' r := by
  obtain ⟨f, hf, doc, content, hfdoc, hpath, hread, hof, sec, hsec, -⟩ :=
    exists_finding_of_loadFolder hload hget
  obtain ⟨lead, hcontent, hrewrite⟩ := hof.exists_lead hfdoc
  have hbody : doc.body ≠ [] := Section.body_ne_nil_of_mem_cut hsec
  have hne : content ≠ [] := by
    rw [hcontent]
    exact List.append_ne_nil_of_right_ne_nil _ hbody
  obtain ⟨d', hfile, hread'⟩ := exists_rewriteFile_of_ne_nil hread hne s' [r']
  have hwrite := writeBackOne_of_rewriteFile hget' (hprimary ▸ hfile)
  rw [hprimary] at hwrite
  refine ⟨d', hwrite, Disk.agreesOff_of_write (write_of_rewriteFile hread hfile), f, hf, doc, lead,
    _, hfdoc, hpath, hcontent ▸ hread, ?_, hname ▸ Section.isChangedFor_rewriteBody hbody _ r'⟩
  rw [htable, hof.writtenTable_eq, hrewrite] at hread'
  exact hread'

end Store

namespace Workspace

variable {w : Workspace} {d : Disk} {now : Instant}

/-- What a set of an entity leaves behind. -/
def Sets (w : Workspace) (d d' : Disk) (name : Text) : Prop :=
  ∃ s found r, (Store.empty w.config.statusTable).loadFolder d w.root = .ok (s, found) ∧
    s.get? name = some r ∧ Store.WritesOne w.config.statusTable found d d' r

/-- What a command may leave behind: another disk only behind a set or a create that succeeded. -/
def Leaves (w : Workspace) (d : Disk) (c : Command) (o : Outcome) : Prop :=
  match c, o.answer with
  | .set name _ _, .ok _ => w.Sets d o.disk name
  | .create draft, .ok _ => d.Extends o.disk (w.resolve draft.file)
  | _, _ => o.disk = d

theorem store_eq {s : Store} {found : List Scan.Finding}
    (hload : (Store.empty w.config.statusTable).loadFolder d w.root = .ok (s, found)) :
    w.store d = .ok (s, (Store.empty w.config.statusTable).folderEvents d found) := by
  unfold store
  simp only [hload]
  rfl

/-- A set of an entity that the store has succeeds. -/
theorem exists_set {s : Store} {found : List Scan.Finding} {r : Record} {name : Text}
    (hload : (Store.empty w.config.statusTable).loadFolder d w.root = .ok (s, found))
    (hget : s.get? name = some r) (now : Instant) (field value : Text) :
    ∃ answer, (w.set d now name field value).answer = .ok answer ∧
      w.Sets d (w.set d now name field value).disk name := by
  have htable : s.table = w.config.statusTable := by
    rw [(Store.loadFolder_eq hload).2, Store.table_loadAll]
    rfl
  obtain ⟨s', hset, htable', hget'⟩ := Store.exists_setField hget field value now
  obtain ⟨d', hwrite, hone⟩ := Store.exists_writesOne hload hget (htable'.trans htable) hget'
    (Record.name_assign ..) (Record.primary_assign ..)
  unfold set
  rw [store_eq hload]
  simp only [hset, hwrite]
  exact ⟨_, rfl, s, found, r, hload, hget, hone⟩

theorem set_leaves (w : Workspace) (d : Disk) (now : Instant) (name field value : Text) :
    w.Leaves d (.set name field value) (w.set d now name field value) := by
  cases hload : (Store.empty w.config.statusTable).loadFolder d w.root with
  | error f =>
    have hstore : w.store d = .error f := by
      unfold store
      simp only [hload]
      rfl
    unfold Leaves set
    rw [hstore]
  | ok p =>
    obtain ⟨s, found⟩ := p
    cases hget : s.get? name with
    | none =>
      unfold Leaves set
      rw [store_eq hload]
      simp only [Store.setField_eq_error hget]
    | some r =>
      obtain ⟨answer, hanswer, hsets⟩ := exists_set hload hget now field value
      unfold Leaves
      rw [hanswer]
      exact hsets

theorem create_leaves (w : Workspace) (d : Disk) (now : Instant) (draft : Draft) :
    w.Leaves d (.create draft) (w.create d now draft) := by
  unfold create
  simp only
  split
  · rfl
  · next fields level s events _ =>
    split
    · rfl
    · split
      · rfl
      · next hcreate => exact Store.extends_of_create hcreate

theorem disk_ask (w : Workspace) (d : Disk) (question : Store → Except Failure Text) :
    (w.ask d question).disk = d := by
  unfold ask
  split <;> rfl

theorem disk_scan (w : Workspace) (d : Disk) (format : Text) : (w.scan d format).disk = d := by
  unfold scan
  split <;> rfl

/-- A command changes the disk only when it is a set or a create and succeeds: a set changes the
sections of its entity in the primary file, and a create adds to the end of its file. -/
theorem run_leaves (w : Workspace) (d : Disk) (now : Instant) (c : Command) :
    w.Leaves d c (w.run d now c) := by
  cases c with
  | set name field value => exact w.set_leaves d now name field value
  | create draft => exact w.create_leaves d now draft
  | scan format => exact w.disk_scan d format
  | list format rootsOnly => exact w.disk_ask d _
  | describe name format => exact w.disk_ask d _
  | tasks => exact w.disk_ask d _
  | triggers file format => rfl
  | config => rfl

end Workspace

end Markbook
