import Markbook.Proofs.Scan
import Markbook.Proofs.Store.Note
import Markbook.Proofs.WriteBack.Rereads

/-!
# Writing Back What a Scan Loaded

A file is rewritten with the status table of its own preamble, else with that of the store.  So the
sections of a record are found again in a file with markers of its own, and in one under a folder
marker without a status table.  Under a folder marker with a status table a section is found exactly
when the table of the store gives its heading the same name
(`Store.writeBackOne_loadFolder`).
-/

namespace Markbook

/-- The status table that a document is read with. -/
def Document.table (t : StatusTable) (doc : Document) : StatusTable :=
  doc.markers.statusTable?.getD t

namespace Scan.Finding

variable {f : Finding} {content : Text}

/-- The status table that the file of a finding is rewritten with. -/
def writtenTable (t : StatusTable) : Finding → StatusTable
  | .marked doc => doc.table t
  | _ => t

/-- Is the file of a finding rewritten with the status table it is read with? -/
def KeepsTable : Finding → Prop
  | .inherited doc => doc.markers.statuses = none
  | _ => True

theorem IsOf.writtenTable_eq (h : f.IsOf content) (t : StatusTable) :
    ((markedPreamble? content).bind fun m ↦ m.1.statusTable?).getD t = f.writtenTable t := by
  cases f with
  | marked doc => exact Store.table_of_read? h t
  | inherited doc =>
    have hnone : markedPreamble? content = none := Option.map_eq_none_iff.1 h.1
    rw [hnone]
    rfl
  | unreadable path => exact h.elim
  | unreadableMarker path => exact h.elim
  | lost folder => exact h.elim

theorem KeepsTable.writtenTable_eq (h : f.KeepsTable) {doc : Document}
    (hdoc : f.document? = some doc) (t : StatusTable) : f.writtenTable t = doc.table t := by
  cases f with
  | marked doc' => rw [← Option.some.inj hdoc]; rfl
  | inherited doc' =>
    rw [← Option.some.inj hdoc]
    unfold Document.table Markers.statusTable?
    have hnone : doc'.markers.statuses = none := h
    rw [hnone]
    rfl
  | unreadable path => simp [document?] at hdoc
  | unreadableMarker path => simp [document?] at hdoc
  | lost folder => simp [document?] at hdoc

theorem writtenTable_of_not_keepsTable (h : ¬ f.KeepsTable) (t : StatusTable) :
    f.writtenTable t = t := by
  cases f with
  | inherited doc => rfl
  | marked doc => exact absurd trivial h
  | unreadable path => rfl
  | unreadableMarker path => rfl
  | lost folder => rfl

end Scan.Finding

/-- A record of one of some documents: the primary file is that of a document with an entity of the
name. -/
def Record.IsTakenFrom (t : StatusTable) (docs : List Document) (r : Record) : Prop :=
  ∃ doc ∈ docs, doc.path = r.primary ∧ ∃ e ∈ (Store.empty t).taken doc, e.name = r.name

namespace Store

variable {t : StatusTable} {d : Disk} {dir : Path} {s : Store} {found : List Scan.Finding}
  {n : Text} {r : Record}

instance isIndexed_loadAll [s.IsIndexed] (d : Disk) (l : List Document) :
    (s.loadAll d l).IsIndexed := by
  induction l generalizing s with
  | nil => assumption
  | cons doc l ih => exact ih

theorem isTakenFrom_load [s.IsIndexed] {docs : List Document} {doc : Document} (ht : s.table = t)
    (hs : ∀ r ∈ s.records, r.IsTakenFrom t docs) (hdoc : doc ∈ docs) (time : Int) :
    ∀ r ∈ (s.load doc time).records, r.IsTakenFrom t docs := by
  have htaken : s.taken doc = (empty t).taken doc := by
    unfold taken
    rw [ht]
    rfl
  apply load_induct hs
  · exact fun e he ↦ ⟨doc, hdoc, rfl, e, htaken ▸ he, rfl⟩
  · intro e he r hr hname
    unfold Record.IsTakenFrom
    rw [Record.name_merge]
    rcases (Record.files_merge e doc.path time r).2 with hprimary | hprimary
    · rw [hprimary]
      exact hr
    · rw [hprimary]
      exact ⟨doc, hdoc, rfl, e, htaken ▸ he, hname.symm⟩
  · exact fun p _ r hr ↦ hr

theorem isTakenFrom_loadAll (t : StatusTable) (d : Disk) (docs : List Document) :
    ∀ r ∈ ((empty t).loadAll d docs).records, r.IsTakenFrom t docs := by
  have hfold (l : List Document) (s : Store) [s.IsIndexed] (ht : s.table = t)
      (hs : ∀ r ∈ s.records, r.IsTakenFrom t docs) (hl : ∀ doc ∈ l, doc ∈ docs) :
      ∀ r ∈ (s.loadAll d l).records, r.IsTakenFrom t docs := by
    induction l generalizing s with
    | nil => exact hs
    | cons doc l ih =>
      rw [List.forall_mem_cons] at hl
      exact ih (s.load doc (d.modified doc.path)) ((table_load s doc _).trans ht)
        (isTakenFrom_load ht hs hl.1 _) hl.2
  exact hfold docs (empty t) rfl (by simp) fun doc hdoc ↦ hdoc

theorem table_loadAll (s : Store) (d : Disk) (docs : List Document) :
    (s.loadAll d docs).table = s.table := by
  induction docs generalizing s with
  | nil => rfl
  | cons doc l ih =>
    calc (s.loadAll d (doc :: l)).table
        = (s.load doc (d.modified doc.path)).table := ih _
      _ = s.table := table_load s doc _

theorem loadFolder_eq (h : (empty t).loadFolder d dir = .ok (s, found)) :
    found = Scan.walk d .plain (Scan.bound d) dir none 0 ∧
      s = (empty t).loadAll d (Scan.documents found) := by
  unfold loadFolder scan Scan.run? at h
  split at h
  · next l hl =>
    split at hl
    · obtain rfl := Option.some.inj hl
      obtain ⟨rfl, rfl⟩ := Prod.mk.inj (Except.ok.inj h)
      exact ⟨rfl, rfl⟩
    · simp at hl
  · simp [Except.map] at h

/-- The file that a record is written to is the file of a finding with a section of the name. -/
theorem exists_finding_of_loadFolder (hload : (empty t).loadFolder d dir = .ok (s, found))
    (hget : s.get? n = some r) :
    ∃ f ∈ found, ∃ doc content, f.document? = some doc ∧ doc.path = r.primary ∧
      d.read r.primary = .ok content ∧ f.IsOf content ∧
      ∃ sec ∈ Section.cut doc.body, sec.name (doc.table t) = n := by
  obtain ⟨hfound, rfl⟩ := loadFolder_eq hload
  obtain ⟨doc, hdoc, hpath, e, he, hname⟩ :=
    isTakenFrom_loadAll t d (Scan.documents found) r (mem_of_get? hget)
  obtain ⟨f, hf, hfdoc⟩ := List.mem_filterMap.1 hdoc
  obtain ⟨content, hread, hof⟩ := Scan.exists_read_of_mem_walk (hfound ▸ hf) hfdoc
  obtain ⟨sec, hsec, hsecName, -⟩ := exists_section_of_mem_taken (t := doc.table t) rfl he
  rw [hpath] at hread
  refine ⟨f, hf, doc, content, hfdoc, hpath, hread, hof, sec, hsec, ?_⟩
  rw [hsecName, hname, name_of_get? hget]

/-- Writing a record of a scanned folder back succeeds and rewrites the body of the document that
the record was taken from.  A section that loading gave the name of the record is found exactly
when its file keeps the status table, or the table of the store gives the section the same name. -/
theorem writeBackOne_loadFolder (hload : (empty t).loadFolder d dir = .ok (s, found))
    (hget : s.get? n = some r) :
    ∃ f ∈ found, ∃ doc lead d', f.document? = some doc ∧ doc.path = r.primary ∧
      d.read r.primary = .ok (lead ++ doc.body) ∧
      (∃ sec ∈ Section.cut doc.body, sec.name (doc.table t) = n) ∧
      s.writeBackOne d n = .ok (some r.primary, d') ∧
      d'.read r.primary = .ok (lead ++ rewriteBody (f.writtenTable t) [r] doc.body) ∧
      ∀ sec ∈ Section.cut doc.body, sec.name (doc.table t) = n →
        (sec.recordOf? (f.writtenTable t) [r] = some (sec.level, r) ↔
          f.KeepsTable ∨ sec.name t = n) := by
  obtain ⟨f, hf, doc, content, hfdoc, hpath, hread, hof, hsection⟩ :=
    exists_finding_of_loadFolder hload hget
  obtain ⟨lead, hcontent, hrewrite⟩ := hof.exists_lead hfdoc
  have hne : content ≠ [] := by
    obtain ⟨sec, hsec, -⟩ := hsection
    rw [hcontent]
    exact List.append_ne_nil_of_right_ne_nil _ (Section.body_ne_nil_of_mem_cut hsec)
  have htable : s.table = t := (loadFolder_eq hload).2 ▸ table_loadAll _ _ _
  have hindexed : s.IsIndexed := (loadFolder_eq hload).2 ▸ isIndexed_loadAll d _
  obtain ⟨d', hwrite, hread'⟩ := exists_rewriteFile_of_ne_nil hread hne s [r]
  rw [htable, hof.writtenTable_eq, hrewrite] at hread'
  rw [hcontent] at hread
  refine ⟨f, hf, doc, lead, d', hfdoc, hpath, hread, hsection,
    writeBackOne_of_rewriteFile hget hwrite, hread', fun sec hsec hname ↦ ?_⟩
  have hcut := Section.isCut_of_mem_cut hsec
  have hfind (t' : StatusTable) :
      sec.recordOf? t' [r] = some (sec.level, r) ↔ sec.name t' = n := by
    rw [Section.recordOf?_singleton hcut, name_of_get? hget]
    by_cases h : sec.name t' = n
    · simp [h]
    · simp [h]
  rw [hfind]
  by_cases hkeeps : f.KeepsTable
  · rw [hkeeps.writtenTable_eq hfdoc]
    exact iff_of_true hname (.inl hkeeps)
  · rw [Scan.Finding.writtenTable_of_not_keepsTable hkeeps]
    exact (or_iff_right hkeeps).symm

/-! ## A folder with a status table -/

/-- The marker of a folder, which declares a form of a status. -/
def marker : Text := "---\ndocket-status:\n  done: OK\n---\n"

/-- The markers that declare one form of a status. -/
def declaring (form : Text) : Markers := ⟨none, none, none, some [("done", [form])], none⟩

/-- A disk with the marker and a text. -/
def folder (content : Text) : Disk :=
  ⟨[([".docket-folder.md"], .file (.text marker) 0), (["a.md"], .file (.text content) 0)]⟩

/-- A text without a preamble, with a heading that begins with the form. -/
def adopted : Text := "## OK T1 — First\nOwner:: amy\n"

/-- The text as a document of the folder. -/
def adoptedDocument : Document := ⟨"./a.md", declaring "OK", adopted, 0⟩

/-- A preamble that declares another form. -/
def ownLead : Text := "---\ndocket-status:\n  done: YES\n---\n"

/-- A document with the preamble, with a heading that begins with its form. -/
def ownDocument : Document := ⟨"./a.md", declaring "YES", "## YES T1 — First\nOwner:: amy\n", 35⟩

variable {content : Text}

theorem split?_adopted : Preamble.split? adopted = none := by decide +kernel

theorem read_folder (content : Text) : (folder content).read "./a.md" = .ok content := by
  have hitem : (folder content).item? ["a.md"] = some (.file (.text content) 0) := rfl
  have hparts : Path.parts "./a.md" = [.here, .name "a.md"] := by decide
  exact Disk.read_of_place? (Disk.place?_of_parts (.inr hparts) rfl hitem) hitem (by decide)
    (by decide)

theorem place?_folder (content : Text) : (folder content).place? "." = .ok [] := by
  have hparts : Path.parts "." = [.here] := by decide
  unfold Disk.place?
  rw [hparts, Disk.walk, Disk.walk]
  rfl

/-- The marker of the folder is the one that declares the form. -/
theorem folderMarkers_folder (content : Text) :
    Scan.folderMarkers (folder content) "." = (some (declaring "OK"), []) := by
  have hitem : (folder content).item? [".docket-folder.md"] = some (.file (.text marker) 0) := rfl
  have hparts : Path.parts (Path.join "." ⟨Scan.markerName⟩) =
      [.here, .name ".docket-folder.md"] := by decide
  have hplace := Disk.place?_of_parts (.inr hparts) rfl hitem
  have hmarked : (markedPreamble? marker).map (·.1) = some (declaring "OK") := by
    decide +kernel
  have hfind := Disk.find_of_place? hplace hitem (by decide)
  have hread := Disk.read_of_place? hplace hitem (by decide) (by decide)
  unfold Scan.folderMarkers Disk.isFile
  simp only [hfind, hread, if_true, hmarked]

theorem entries_folder (content : Text) :
    Scan.entries (folder content) .plain "." = [.file ".docket-folder.md", .file "a.md"] := by
  have hlist : (folder content).list [] = [(".docket-folder.md".toList, .file (.text marker) 0),
      ("a.md".toList, .file (.text content) 0)] := by
    have hle : Text.le ".docket-folder.md".toList "a.md".toList = true := by decide
    unfold Disk.list
    change List.mergeSort [(".docket-folder.md".toList, Item.file (.text marker) 0),
      ("a.md".toList, .file (.text content) 0)] _ = _
    exact List.mergeSort_of_pairwise (List.pairwise_pair.2 hle)
  unfold Scan.entries
  rw [place?_folder]
  simp only [hlist]
  rfl

/-- A scan of the folder finds what the text is under the marker. -/
theorem walk_folder {l : List Scan.Finding}
    (h : Scan.fileFindings (folder content) "." (some (declaring "OK")) "a.md" = l) :
    Scan.walk (folder content) .plain (Scan.bound (folder content)) "." none 0 = l := by
  have hself : Scan.isMarkdown ".docket-folder.md" = false := by decide
  have hname : Scan.isMarkdown "a.md" = true := by decide
  have hsubfolders : Scan.subfolders .plain [.file ".docket-folder.md", .file "a.md"] = [] := rfl
  have hbound : Scan.bound (folder content) = 122 + 1 := rfl
  rw [hbound]
  unfold Scan.walk
  simp only [folderMarkers_folder, entries_folder, List.flatMap_cons, List.flatMap_nil,
    Scan.entryFindings, hself, hname, Bool.false_eq_true, if_false, if_true, Option.some_or,
    h, hsubfolders, ite_self, List.append_nil, List.nil_append]

theorem loadFolder_folder {l : List Scan.Finding}
    (h : Scan.fileFindings (folder content) "." (some (declaring "OK")) "a.md" = l) :
    (empty .builtIn).loadFolder (folder content) "." =
      .ok ((empty .builtIn).loadAll (folder content) (Scan.documents l), l) := by
  have hfolder : (folder content).isFolder "." = true := by
    unfold Disk.isFolder Disk.find
    rw [place?_folder]
    rfl
  unfold loadFolder scan Scan.run?
  rw [if_pos hfolder, walk_folder h]
  rfl

theorem fileFindings_adopted :
    Scan.fileFindings (folder adopted) "." (some (declaring "OK")) "a.md" =
      [.inherited adoptedDocument] := by
  have hread : (folder adopted).read (Path.join "." ⟨"a.md".toList⟩) = .ok adopted :=
    read_folder adopted
  unfold Scan.fileFindings Document.read? markedPreamble? Scan.inheritedDocument
  simp only [hread, split?_adopted]
  rfl

theorem fileFindings_own :
    Scan.fileFindings (folder (ownLead ++ ownDocument.body)) "." (some (declaring "OK")) "a.md" =
      [.marked ownDocument] := by
  have hread : (folder (ownLead ++ ownDocument.body)).read (Path.join "." ⟨"a.md".toList⟩) =
      .ok (ownLead ++ ownDocument.body) := read_folder _
  have hmarked : markedPreamble? (ownLead ++ ownDocument.body) =
      some (declaring "YES", ⟨ownLead, "docket-status:\n  done: YES", ownDocument.body⟩) := by
    decide +kernel
  unfold Scan.fileFindings Document.read?
  simp only [hread, hmarked, Option.map_some]
  rfl

/-- A folder whose text is a document with an entity of the name has a record of the name. -/
theorem exists_get?_folder {doc : Document}
    (hmem : "T1".toList ∈ ((empty .builtIn).load doc ((folder content).modified doc.path)).names) :
    ∃ r, ((empty .builtIn).loadAll (folder content) [doc]).get? "T1" = some r ∧
      r.primary = doc.path := by
  obtain ⟨r, hr⟩ := Option.isSome_iff_exists.1 (get?_isSome_iff.2 hmem)
  exact ⟨r, hr, (origin_of_get?_load hr).primary⟩

theorem exists_get?_adopted :
    ∃ r, ((empty .builtIn).loadAll (folder adopted) [adoptedDocument]).get? "T1" = some r ∧
      r.primary = "./a.md" := by
  apply exists_get?_folder
  rw [mem_names_load]
  decide +kernel

theorem exists_get?_own :
    ∃ r, ((empty .builtIn).loadAll (folder (ownLead ++ ownDocument.body)) [ownDocument]).get? "T1" =
        some r ∧ r.primary = "./a.md" := by
  apply exists_get?_folder
  rw [mem_names_load]
  decide +kernel

/-- A section of a text without a preamble is found when the table of the store gives it the name
of the record.  One of a text with a table of its own is found, whatever the table of the store
says. -/
theorem writeBackOne_loadFolder_folder :
    (∃ s r d', (empty .builtIn).loadFolder (folder adopted) "." =
        .ok (s, [.inherited adoptedDocument]) ∧
      s.get? "T1" = some r ∧ s.writeBackOne (folder adopted) "T1" = .ok (some r.primary, d') ∧
      ∀ sec ∈ Section.cut adopted, sec.name (adoptedDocument.table .builtIn) = "T1".toList →
        (sec.recordOf? .builtIn [r] = some (sec.level, r) ↔
          Scan.Finding.KeepsTable (.inherited adoptedDocument) ∨
            sec.name .builtIn = "T1".toList)) ∧
    ∃ s r d' sec, (empty .builtIn).loadFolder (folder (ownLead ++ ownDocument.body)) "." =
        .ok (s, [.marked ownDocument]) ∧
      s.get? "T1" = some r ∧
      s.writeBackOne (folder (ownLead ++ ownDocument.body)) "T1" = .ok (some r.primary, d') ∧
      sec ∈ Section.cut ownDocument.body ∧ sec.name .builtIn ≠ "T1".toList ∧
      Scan.Finding.KeepsTable (.marked ownDocument) ∧
      sec.recordOf? (ownDocument.table .builtIn) [r] = some (sec.level, r) := by
  constructor
  · obtain ⟨r, hr, -⟩ := exists_get?_adopted
    have hload := loadFolder_folder fileFindings_adopted
    obtain ⟨f, hf, doc, lead, d', hdoc, -, -, -, hwrite, -, hfound⟩ :=
      writeBackOne_loadFolder hload hr
    rw [List.mem_singleton] at hf
    subst hf
    obtain rfl : adoptedDocument = doc := Option.some.inj hdoc
    exact ⟨_, r, d', hload, hr, hwrite, hfound⟩
  · obtain ⟨r, hr, -⟩ := exists_get?_own
    have hload := loadFolder_folder fileFindings_own
    obtain ⟨f, hf, doc, lead, d', hdoc, -, -, -, hwrite, -, hfound⟩ :=
      writeBackOne_loadFolder hload hr
    rw [List.mem_singleton] at hf
    subst hf
    obtain rfl : ownDocument = doc := Option.some.inj hdoc
    obtain ⟨sec, hsec, hname, hother⟩ : ∃ sec ∈ Section.cut ownDocument.body,
        sec.name (ownDocument.table .builtIn) = "T1".toList ∧
          sec.name .builtIn ≠ "T1".toList := by
      decide +kernel
    exact ⟨_, r, d', sec, hload, hr, hwrite, hsec, hother, trivial,
      (hfound sec hsec hname).2 (.inl trivial)⟩

/-- With the table that the text asks for, the section of the record is not found. -/
theorem not_recordOf?_folder :
    ∃ s r, (empty .builtIn).loadFolder (folder adopted) "." =
      .ok (s, [.inherited adoptedDocument]) ∧
      s.get? "T1" = some r ∧ (folder adopted).read r.primary = .ok adopted ∧
      ∃ sec ∈ Section.cut adopted, sec.name (adoptedDocument.table .builtIn) = "T1".toList ∧
        sec.recordOf? (((markedPreamble? adopted).bind fun m ↦ m.1.statusTable?).getD s.table) [r] =
          none := by
  obtain ⟨r, hr, hprimary⟩ := exists_get?_adopted
  obtain ⟨sec, hsec, hname, hother⟩ : ∃ sec ∈ Section.cut adopted,
      sec.name (adoptedDocument.table .builtIn) = "T1".toList ∧
        sec.name .builtIn ≠ "T1".toList := by
    decide +kernel
  refine ⟨_, r, loadFolder_folder fileFindings_adopted, hr, by rw [hprimary, read_folder], sec,
    hsec, hname, ?_⟩
  have hunmarked : markedPreamble? adopted = none := by
    unfold markedPreamble?
    rw [split?_adopted]
    rfl
  have hrname : r.name = "T1" := name_of_get? hr
  rw [hunmarked, table_loadAll, Section.recordOf?_singleton (Section.isCut_of_mem_cut hsec), hrname]
  exact if_neg hother

end Store

end Markbook
