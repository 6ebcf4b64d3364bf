import Markbook.Proofs.Disk.Overwritten
import Markbook.Proofs.WriteBack.Rereads
import Markbook.Proofs.WriteBack.Turns

/-!
# Write-Back in Any Order

Write-back rewrites one file after another.  The text at a place is rewritten once for each path
that leads to it, with the records of that path (`Store.exists_rewriteFiles`).  Writing back all
records at once and writing them back one by one are both such turns, so they leave the same text
(`Store.rewrite_turns`).
-/

namespace Markbook

open Section

namespace Store

variable {s : Store} {d d' : Disk} {q : Place} {t : StatusTable} {content : Text} {p : Preamble}

/-- The records of the calls whose path leads to a place. -/
def turns (d : Disk) (q : Place) (calls : List (Path × List Record)) : List (List Record) :=
  (calls.filter fun call ↦ d.leadsTo call.1 q).map (·.2)

theorem turns_cons (d : Disk) (q : Place) (call : Path × List Record)
    (calls : List (Path × List Record)) :
    turns d q (call :: calls) = turns d q [call] ++ turns d q calls := by
  unfold turns
  rw [← List.map_append, ← List.filter_append]
  rfl

theorem turns_of_leadsTo {call : Path × List Record} (h : d.leadsTo call.1 q = true) :
    turns d q [call] = [call.2] := by
  unfold turns
  simp [h]

theorem turns_of_not_leadsTo {call : Path × List Record} (h : d.leadsTo call.1 q = false) :
    turns d q [call] = [] := by
  unfold turns
  simp [h]

/-- Paths that are kept lead to the same turns. -/
theorem turns_eq_of_keeps (h : d.Keeps d') (q : Place) (calls : List (Path × List Record)) :
    turns d' q calls = turns d q calls := by
  unfold turns
  simp only [h.leadsTo_eq]

/-- A text after some turns, each with the table that the text asks for by then. -/
def afterTurns (s : Store) (content : Text) (turns : List (List Record)) : Text :=
  turns.foldl (fun c A ↦ rewrite (s.tableFor c) A c) content

/-- The table of a text stays when it is rewritten. -/
theorem tableFor_rewrite (hsplit : Preamble.split? content = some p)
    (hlead : p.lead.getLast? = some '\n') (s : Store) (t : StatusTable) (A : List Record) :
    s.tableFor (rewrite t A content) = s.tableFor content := by
  have hsplit' := Preamble.split?_lead_append hsplit hlead (rewriteBody t A p.body)
  unfold tableFor markedPreamble?
  rw [rewrite_eq hsplit, hsplit', hsplit]
  cases hm : Markers.read? p.text <;> simp [hm]

theorem afterTurns_append (s : Store) (content : Text) (a b : List (List Record)) :
    s.afterTurns content (a ++ b) = s.afterTurns (s.afterTurns content a) b :=
  List.foldl_append

theorem afterTurns_eq (hsplit : Preamble.split? content = some p)
    (hlead : p.lead.getLast? = some '\n') (turns : List (List Record)) :
    s.afterTurns content turns =
      turns.foldl (fun c A ↦ rewrite (s.tableFor content) A c) content := by
  induction turns generalizing content p with
  | nil => rfl
  | cons A turns ih =>
    have hsplit' := Preamble.split?_lead_append hsplit hlead
      (rewriteBody (s.tableFor content) A p.body)
    rw [← rewrite_eq hsplit] at hsplit'
    have hrest := ih hsplit' hlead
    rwa [tableFor_rewrite hsplit hlead] at hrest

/-! ## One file after another -/

/-- Rewriting a file changes the text at its place only. -/
theorem exists_rewriteFile_of_isReadable {path : Path} (h : d.IsReadable path) (s : Store)
    (A : List Record) :
    ∃ there d', s.rewriteFile d path A = .ok (there, d') ∧ d.Keeps d' ∧
      ∀ q, d'.textAt? q = (d.textAt? q).map fun c ↦ s.afterTurns c (turns d q [(path, A)]) := by
  have hsame {q : Place} (h : d.leadsTo path q = false ∨ d.textAt? q = none) :
      d.textAt? q = (d.textAt? q).map fun c ↦ s.afterTurns c (turns d q [(path, A)]) := by
    rcases h with h | h
    · rw [turns_of_not_leadsTo h]
      exact Option.map_id'.symm
    · rw [h]
      rfl
  rcases h with hread | ⟨c, hread⟩
  · refine ⟨false, d, ?_, .refl d, fun q ↦ hsame ?_⟩
    · unfold rewriteFile
      rw [hread]
    · by_contra hboth
      rw [not_or, Bool.not_eq_false, Disk.leadsTo_iff] at hboth
      obtain ⟨c, hc⟩ := Option.ne_none_iff_exists'.1 hboth.2
      rw [Disk.read_of_textAt? (.inl hread) hboth.1 hc] at hread
      simp at hread
  · cases hnull : Disk.isNullDevice path with
    | true =>
      refine ⟨true, d, ?_, .refl d, fun q ↦ hsame (.inl ?_)⟩
      · unfold rewriteFile Disk.write
        rw [hread]
        simp [hnull]
      · unfold Disk.leadsTo
        rw [Disk.place?_of_isNullDevice d hnull]
    | false =>
      obtain ⟨x, time, hplace, hitem, hfolder⟩ := Disk.exists_place_of_read hread hnull
      have hx : x ≠ [] := Disk.ne_nil_of_item? hitem (by simp)
      refine ⟨true, _, ?_, Disk.keeps_put hitem (rewrite (s.tableFor c) A c) time, fun q ↦ ?_⟩
      · unfold rewriteFile Disk.write
        rw [hread]
        simp [hnull, hplace, hitem, hfolder, bind, Except.bind, tableFor]
      · rw [Disk.textAt?_put hx]
        by_cases hq : q = x
        · subst hq
          rw [if_pos rfl, turns_of_leadsTo (Disk.leadsTo_iff.2 hplace),
            Disk.textAt?_of_read hread hplace]
          rfl
        · rw [if_neg hq]
          refine hsame (.inl ?_)
          unfold Disk.leadsTo
          simpa [hplace] using Ne.symm hq

/-- The text at a place after some files were rewritten. -/
theorem exists_rewriteFiles {calls : List (Path × List Record)} (s : Store)
    (h : ∀ call ∈ calls, d.IsReadable call.1) :
    ∃ d' paths, s.rewriteFiles d calls = (d', .ok paths) ∧ d.Keeps d' ∧
      ∀ q, d'.textAt? q = (d.textAt? q).map fun c ↦ s.afterTurns c (turns d q calls) := by
  induction calls generalizing d with
  | nil => exact ⟨d, [], rfl, .refl d, fun q ↦ Option.map_id'.symm⟩
  | cons call calls ih =>
    obtain ⟨hcall, hcalls⟩ := List.forall_mem_cons.1 h
    obtain ⟨there, d₁, hfile, hkeeps, htext⟩ := exists_rewriteFile_of_isReadable hcall s call.2
    obtain ⟨d', paths, hfiles, hkeeps', htext'⟩ :=
      ih fun call' h' ↦ hkeeps.isReadable call'.1 (hcalls call' h')
    refine ⟨d', if there then call.1 :: paths else paths, ?_, hkeeps.trans hkeeps', fun q ↦ ?_⟩
    · unfold rewriteFiles
      simp only [hfile, hfiles]
      rfl
    · rw [htext' q, htext q, Option.map_map, turns_eq_of_keeps hkeeps, turns_cons d q call calls]
      congr 1
      funext c
      exact (s.afterTurns_append c (turns d q [call]) (turns d q calls)).symm

/-- Writes some records back, one after another. -/
def writeBackEach (s : Store) (d : Disk) (names : List Text) : Except Failure Disk :=
  names.foldlM (fun d n ↦ (s.writeBackOne d n).map (·.2)) d

theorem writeBackEach_of_rewriteFiles {order : List Record}
    (hget : ∀ r ∈ order, s.get? r.name = some r) {paths : List Path}
    (h : s.rewriteFiles d (order.map fun r ↦ (r.primary, [r])) = (d', .ok paths)) :
    s.writeBackEach d (order.map (·.name)) = .ok d' := by
  induction order generalizing d paths with
  | nil =>
    obtain rfl := congrArg Prod.fst h
    rfl
  | cons r order ih =>
    obtain ⟨hr, hget⟩ := List.forall_mem_cons.1 hget
    rw [List.map_cons] at h
    unfold rewriteFiles at h
    cases hfile : s.rewriteFile d r.primary [r] with
    | error e =>
      simp [hfile] at h
    | ok answer =>
      obtain ⟨there, d₁⟩ := answer
      simp only [hfile] at h
      obtain ⟨hd, hpaths⟩ := Prod.mk.inj h
      cases hrest : (s.rewriteFiles d₁ (order.map fun r ↦ (r.primary, [r]))).2 with
      | error e => simp [hrest, Except.map] at hpaths
      | ok paths' =>
        have hone : s.writeBackOne d r.name = .ok (if there then some r.primary else none, d₁) := by
          unfold writeBackOne
          simp only [hr, hfile]
          rfl
        have hmore := ih hget (Prod.ext hd hrest)
        unfold writeBackEach at hmore ⊢
        rw [List.map_cons, List.foldlM_cons, hone]
        exact hmore

/-! ## All records at once -/

/-- The records whose primary file is at a place. -/
def recordsAt (s : Store) (d : Disk) (q : Place) : List Record :=
  s.records.filter fun r ↦ d.leadsTo r.primary q

/-- The paths that a list of records adds to those that are there, one for each file. -/
def withPrimaries (l : List Path) (records : List Record) : List Path :=
  records.foldl (fun l r ↦ if l.any (· == r.primary) then l else l ++ [r.primary]) l

theorem withPrimaries_cons (l : List Path) (r : Record) (records : List Record) :
    withPrimaries l (r :: records) =
      withPrimaries (if l.any (· == r.primary) then l else l ++ [r.primary]) records := rfl

theorem mem_withPrimaries {records : List Record} {l : List Path} {path : Path}
    (h : path ∈ withPrimaries l records) : path ∈ l ∨ ∃ r ∈ records, r.primary = path := by
  induction records generalizing l with
  | nil => exact .inl h
  | cons r records ih =>
    rw [withPrimaries_cons] at h
    rcases ih h with h | ⟨r', hr', heq⟩
    · split at h
      · exact .inl h
      · rcases List.mem_append.1 h with h | h
        · exact .inl h
        · exact .inr ⟨r, List.mem_cons_self, (List.mem_singleton.1 h).symm⟩
    · exact .inr ⟨r', List.mem_cons_of_mem r hr', heq⟩

theorem exists_mem_withPrimaries {records : List Record} {l : List Path} :
    (∀ path ∈ l, path ∈ withPrimaries l records) ∧
      ∀ r ∈ records, ∃ path ∈ withPrimaries l records, (path == r.primary) = true := by
  induction records generalizing l with
  | nil => exact ⟨fun path h ↦ h, by simp⟩
  | cons r records ih =>
    have hself : (r.primary == r.primary) = true := Path.beq_refl r.primary
    rw [withPrimaries_cons]
    obtain ⟨hkept, hfound⟩ := ih (l := if l.any (· == r.primary) then l else l ++ [r.primary])
    refine ⟨fun path h ↦ hkept path ?_, fun r' hr' ↦ ?_⟩
    · split
      · exact h
      · exact List.mem_append_left _ h
    · rcases List.mem_cons.1 hr' with rfl | hr'
      · by_cases hany : l.any (· == r'.primary)
        · obtain ⟨path, hpath, heq⟩ := List.any_eq_true.1 hany
          exact ⟨path, hkept path (by rwa [if_pos hany]), heq⟩
        · exact ⟨r'.primary, hkept _ (by rw [if_neg hany]; simp), hself⟩
      · exact hfound r' hr'

theorem mem_byFile {call : Path × List Record} :
    call ∈ s.byFile ↔ call.1 ∈ withPrimaries [] s.records ∧
      call.2 = s.records.filter fun r ↦ r.primary == call.1 := by
  unfold byFile withPrimaries
  simp only [List.mem_map, List.mem_mergeSort]
  constructor
  · rintro ⟨path, hpath, rfl⟩
    exact ⟨hpath, rfl⟩
  · rintro ⟨hpath, heq⟩
    exact ⟨call.1, hpath, Prod.ext rfl heq.symm⟩

/-- Write-back rewrites primary files. -/
theorem isReadable_of_mem_byFile (h : ∀ r ∈ s.records, d.IsReadable r.primary) :
    ∀ call ∈ s.byFile, d.IsReadable call.1 := by
  intro call hcall
  rcases mem_withPrimaries (mem_byFile.1 hcall).1 with hnil | ⟨r, hr, heq⟩
  · simp at hnil
  · exact heq ▸ h r hr

/-- A record has its turn at the place of its primary file. -/
theorem mem_turns_byFile (hq : q ≠ []) (r : Record) :
    r ∈ (turns d q s.byFile).flatten ↔ r ∈ s.recordsAt d q := by
  unfold turns recordsAt
  simp only [List.mem_flatten, List.mem_map, List.mem_filter, Disk.leadsTo_iff]
  constructor
  · rintro ⟨-, ⟨call, ⟨hcall, hplace⟩, rfl⟩, hr⟩
    rw [(mem_byFile.1 hcall).2, List.mem_filter] at hr
    have hsame : (call.1 == r.primary) = true := Path.beq_iff.2 (Path.beq_iff.1 hr.2).symm
    exact ⟨hr.1, Disk.place?_of_beq hsame hq hplace⟩
  · rintro ⟨hr, hplace⟩
    obtain ⟨path, hpath, heq⟩ := exists_mem_withPrimaries.2 r hr
    have hsame : (r.primary == path) = true := Path.beq_iff.2 (Path.beq_iff.1 heq).symm
    exact ⟨_, ⟨(path, s.records.filter fun r ↦ r.primary == path), ⟨mem_byFile.2 ⟨hpath, rfl⟩,
      Disk.place?_of_beq hsame hq hplace⟩, rfl⟩, List.mem_filter.2 ⟨hr, hsame⟩⟩

/-- No turn of write-back is empty. -/
theorem ne_nil_of_mem_turns_byFile {A : List Record} (h : A ∈ turns d q s.byFile) : A ≠ [] := by
  unfold turns at h
  obtain ⟨call, hcall, rfl⟩ := List.mem_map.1 h
  obtain ⟨hpath, hrecords⟩ := mem_byFile.1 (List.mem_filter.1 hcall).1
  rcases mem_withPrimaries hpath with hnil | ⟨r, hr, heq⟩
  · simp at hnil
  · rw [hrecords]
    exact List.ne_nil_of_mem (List.mem_filter.2 ⟨hr, Path.beq_iff.2 (congrArg Path.parts heq)⟩)

/-! ## One by one -/

theorem mem_turns_map {order : List Record} (r : Record) :
    r ∈ (turns d q (order.map fun r ↦ (r.primary, [r]))).flatten ↔
      r ∈ order ∧ d.place? r.primary = .ok q := by
  unfold turns
  rw [List.filter_map, List.map_map]
  simp [Function.comp_def, Disk.leadsTo_iff]

theorem ne_nil_of_mem_turns_map {order A : List Record}
    (h : A ∈ turns d q (order.map fun r ↦ (r.primary, [r]))) : A ≠ [] := by
  unfold turns at h
  rw [List.filter_map, List.map_map] at h
  obtain ⟨r, -, rfl⟩ := List.mem_map.1 h
  simp

/-- A text with its records in it. -/
def written (s : Store) (content : Text) (records : List Record) : Text :=
  if records.isEmpty then content else rewrite (s.tableFor content) records content

/-- A text after turns for its records, whichever records they are for at a time. -/
theorem afterTurns_turns {calls : List (Path × List Record)} {records : List Record}
    (hsplit : Preamble.split? content = some p) (hbody : p.body ≠ []) (hreturn : '\r' ∉ content)
    (hsteady : ∀ r ∈ records, r.IsSteady (s.tableFor content)) (hdistinct : Distinct records)
    (hmem : ∀ r, r ∈ (turns d q calls).flatten ↔ r ∈ records)
    (hfull : ∀ A ∈ turns d q calls, A ≠ []) :
    s.afterTurns content (turns d q calls) = s.written content records := by
  rw [afterTurns_eq hsplit (Preamble.lead_getLast?_of_body_ne_nil hsplit hbody)]
  unfold written
  cases records with
  | nil =>
    have hnone : turns d q calls = [] := by
      rw [List.eq_nil_iff_forall_not_mem]
      intro A hA
      obtain ⟨r, hr⟩ := List.exists_mem_of_ne_nil A (hfull A hA)
      exact List.not_mem_nil ((hmem r).1 (List.mem_flatten.2 ⟨A, hA, hr⟩))
    rw [hnone]
    rfl
  | cons r records =>
    refine foldl_rewrite _ hsplit hbody hreturn hsteady hdistinct (fun hnil ↦ ?_) hmem
    simpa [hnil] using (hmem r).2 List.mem_cons_self

/-- Write-back leaves in a file what writing back its own records one by one leaves there. -/
theorem writeBack_each [s.IsIndexed] {path : Path} (hplace : d.place? path = .ok q)
    (hread : d.read path = .ok content)
    (hreadable : ∀ r ∈ s.records, d.IsReadable r.primary)
    (hsplit : Preamble.split? content = some p) (hbody : p.body ≠ []) (hreturn : '\r' ∉ content)
    (hsteady : ∀ r ∈ s.recordsAt d q, r.IsSteady (s.tableFor content)) :
    (∃ d' paths, s.writeBack d = (d', .ok paths) ∧
      d'.read path = .ok (s.written content (s.recordsAt d q))) ∧
    ∀ order : List Record, (∀ r, r ∈ order ↔ r ∈ s.recordsAt d q) →
      ∃ d', s.writeBackEach d (order.map (·.name)) = .ok d' ∧
        d'.read path = .ok (s.written content (s.recordsAt d q)) := by
  have htext := Disk.textAt?_of_read hread hplace
  have hq : q ≠ [] := by
    obtain ⟨time, hitem⟩ := Disk.textAt?_eq_some_iff.1 htext
    exact Disk.ne_nil_of_item? hitem (by simp)
  have hrecords {r : Record} (hr : r ∈ s.recordsAt d q) :
      r ∈ s.records ∧ d.place? r.primary = .ok q := by
    obtain ⟨hr, hleads⟩ := List.mem_filter.1 hr
    exact ⟨hr, Disk.leadsTo_iff.1 hleads⟩
  have hdistinct : Distinct (s.recordsAt d q) := fun r hr r' hr' ↦
    distinct_of_nodup (names_nodup s) r (hrecords hr).1 r' (hrecords hr').1
  have hcalls (calls : List (Path × List Record)) (hreadable : ∀ call ∈ calls, d.IsReadable call.1)
      (hmem : ∀ r, r ∈ (turns d q calls).flatten ↔ r ∈ s.recordsAt d q)
      (hfull : ∀ A ∈ turns d q calls, A ≠ []) :
      ∃ d' paths, s.rewriteFiles d calls = (d', .ok paths) ∧
        d'.read path = .ok (s.written content (s.recordsAt d q)) := by
    obtain ⟨d', paths, hfiles, hkeeps, htext'⟩ := exists_rewriteFiles s hreadable
    refine ⟨d', paths, hfiles, Disk.read_of_textAt? (hkeeps.isReadable path (.inr ⟨content, hread⟩))
      ((hkeeps.place?_eq path).trans hplace) ?_⟩
    rw [htext' q, htext, Option.map_some,
      afterTurns_turns hsplit hbody hreturn hsteady hdistinct hmem hfull]
  refine ⟨hcalls s.byFile (isReadable_of_mem_byFile hreadable) (mem_turns_byFile hq)
    fun A ↦ ne_nil_of_mem_turns_byFile, fun order horder ↦ ?_⟩
  obtain ⟨d', paths, hfiles, hread'⟩ := hcalls (order.map fun r ↦ (r.primary, [r]))
    (fun call hcall ↦ by
      obtain ⟨r, hr, rfl⟩ := List.mem_map.1 hcall
      exact hreadable r (hrecords ((horder r).1 hr)).1)
    (fun r ↦ by
      rw [mem_turns_map, horder]
      exact ⟨And.left, fun hr ↦ ⟨hr, (hrecords hr).2⟩⟩)
    fun A ↦ ne_nil_of_mem_turns_map
  exact ⟨d', writeBackEach_of_rewriteFiles
    (fun r hr ↦ get?_of_mem (hrecords ((horder r).1 hr)).1) hfiles, hread'⟩

/-- Rewriting a text for records with names of their own, a block of a line dialect for each and a
heading that gives its name back.  One turn for all of them and turns for one of them at a time, in
any order and each at least once, leave the same text, and a further turn leaves it as it is.  So
write-back leaves in a file what writing back its records one by one leaves there. -/
theorem rewrite_turns {records : List Record} (hsplit : Preamble.split? content = some p)
    (hbody : p.body ≠ []) (hreturn : '\r' ∉ content) (hdistinct : (records.map (·.name)).Nodup)
    (hsteady : ∀ r ∈ records, r.IsSteady t) :
    (∀ order : List Record, order ≠ [] → (∀ r, r ∈ order ↔ r ∈ records) →
      order.foldl (fun c r ↦ rewrite t [r] c) content = rewrite t records content) ∧
    rewrite t records (rewrite t records content) = rewrite t records content ∧
    ∀ (s : Store) (d : Disk) (path : Path) (q : Place), d.place? path = .ok q →
      d.read path = .ok content → s.IsIndexed → (∀ r ∈ s.records, d.IsReadable r.primary) →
      s.tableFor content = t → s.recordsAt d q = records →
      (∃ d' paths, s.writeBack d = (d', .ok paths) ∧
        d'.read path = .ok (s.written content records)) ∧
      ∀ order : List Record, (∀ r, r ∈ order ↔ r ∈ records) →
        ∃ d', s.writeBackEach d (order.map (·.name)) = .ok d' ∧
          d'.read path = .ok (s.written content records) := by
  have hdistinct := distinct_of_nodup hdistinct
  refine ⟨fun order hne hmem ↦ foldl_rewrite_each hsplit hbody hreturn hsteady hdistinct hne hmem,
    ?_, ?_⟩
  · have htwice := foldl_rewrite [records, records] hsplit hbody hreturn hsteady hdistinct
      (by simp) (by simp)
    exact htwice
  · rintro s d path q hplace hread hindexed hreadable rfl rfl
    exact writeBack_each hplace hread hreadable hsplit hbody hreturn hsteady

/-- A plan with two tasks. -/
def twoTasks : Text := Document.planLead ++ "## Alpha\nText\n\n## Beta\n"

/-- What is known of both tasks, each in a dialect of its own. -/
def twoRecords : List Record :=
  [⟨"Alpha", "Alpha", "task", none, .ofList [("Owner", "amy")], .empty, "plan.md", .colons, [],
    ["plan.md"], none, none⟩,
  ⟨"Beta", "Work", "task", some "complete", .ofList [("Owner", "bob"), ("Size", "L")], .empty,
    "plan.md", .table, [], ["plan.md"], none, none⟩]

def twoStore : Store := twoRecords.foldl register (empty .builtIn)

instance isIndexed_twoStore : twoStore.IsIndexed :=
  inferInstanceAs (((empty .builtIn).register _).register _).IsIndexed

theorem records_twoStore : twoStore.records = twoRecords := rfl

/-- Both tasks are written back, together or one by one. -/
theorem rewrite_turns_twoTasks :
    (twoRecords.reverse ++ twoRecords).foldl (fun c r ↦ rewrite .builtIn [r] c) twoTasks =
        rewrite .builtIn twoRecords twoTasks ∧
      rewrite .builtIn twoRecords (rewrite .builtIn twoRecords twoTasks) =
        rewrite .builtIn twoRecords twoTasks ∧
      (∃ d' paths, twoStore.writeBack (.plan twoTasks) = (d', .ok paths) ∧
        d'.read "plan.md" = .ok (rewrite .builtIn twoRecords twoTasks)) ∧
      ∃ d', twoStore.writeBackEach (.plan twoTasks) ["Beta", "Alpha"] = .ok d' ∧
        d'.read "plan.md" = .ok (rewrite .builtIn twoRecords twoTasks) := by
  have hlead : Preamble.split? Document.planLead =
      some ⟨Document.planLead, "docket-type: task", []⟩ := by
    decide +kernel
  have hsplit : Preamble.split? twoTasks = some _ := Preamble.split?_lead_append hlead (by decide) _
  have hreturn : '\r' ∉ twoTasks := by decide +kernel
  have hsteady : ∀ r ∈ twoRecords, r.IsSteady .builtIn := by
    have h : ∀ r ∈ twoRecords,
        ('\n' ∉ Heading.write .builtIn 2 r.status r.name r.title ∧
          '\r' ∉ Heading.write .builtIn 2 r.status r.name r.title ∧
          (Heading.named? .builtIn (Heading.write .builtIn 2 r.status r.name r.title)).map (·.2) =
            some r.name) ∧
        r.dialect ≠ .fenced ∧ (∀ e ∈ (r.writtenFields .builtIn).entries, Dialect.IsField e) ∧
        (r.dialect = .colons → ∀ e ∈ (r.writtenFields .builtIn).entries, e.1.head? ≠ some '#') := by
      decide +kernel
    exact fun r hr ↦ ⟨⟨2, (h r hr).1⟩, (h r hr).2.1, (h r hr).2.2.1, (h r hr).2.2.2⟩
  obtain ⟨heach, htwice, hstored⟩ := rewrite_turns hsplit (by decide) hreturn (by decide) hsteady
  have hplace : (Disk.plan twoTasks).place? "plan.md" = .ok ["plan.md"] :=
    Disk.place?_of_parts (.inl (by decide)) rfl rfl
  have hprimary : ∀ r ∈ twoRecords, r.primary = "plan.md" := by simp [twoRecords]
  have hreadable : ∀ r ∈ twoStore.records, (Disk.plan twoTasks).IsReadable r.primary :=
    fun r hr ↦ .inr ⟨twoTasks,
      (hprimary r (records_twoStore ▸ hr)).symm ▸ Disk.read_plan twoTasks⟩
  have htable : twoStore.tableFor twoTasks = .builtIn := table_of_read? (Document.read?_plan _) _
  have hat : twoStore.recordsAt (.plan twoTasks) ["plan.md"] = twoRecords := by
    unfold recordsAt
    rw [records_twoStore]
    exact List.filter_eq_self.2 fun r hr ↦ Disk.leadsTo_iff.2 ((hprimary r hr).symm ▸ hplace)
  have hwritten : twoStore.written twoTasks twoRecords = rewrite .builtIn twoRecords twoTasks := by
    unfold written
    rw [htable]
    exact if_neg (by decide)
  obtain ⟨hall, hsome⟩ := hstored twoStore _ "plan.md" ["plan.md"] hplace (Disk.read_plan twoTasks)
    isIndexed_twoStore hreadable htable hat
  rw [hwritten] at hall hsome
  exact ⟨heach (twoRecords.reverse ++ twoRecords) (by decide) (by simp), htwice, hall,
    hsome twoRecords.reverse (by simp)⟩

end Store

end Markbook
