import Markbook.Proofs.Section.First
import Markbook.Proofs.Section.Joined
import Markbook.Proofs.WriteBack.Durable

/-!
# Files of One Entity

The entity of a file takes its fields from all lines behind its heading, but write-back replaces
the field lines of the first section only.  What stays are the lines behind the block and the later
sections (`Section.left`), and the last value of a key counts: a field that is set and written back
is read again exactly when no line that stays gives its key another value
(`Store.setField_writeBackOne_single`).  A table is safe, because it ends at the next heading.
-/

namespace Markbook

open Dialect

namespace Section

/-- The lines behind the block of a record in a file of one entity: those of its section that hold
no field, and the later sections. -/
def left (t : StatusTable) (r : Record) (s : Section) (later : List Section) : List Text :=
  behind r.dialect s.lines ++ later.flatMap (rewrittenLines t [r])

variable {d : Dialect} {fields : Fields} {ls below : List Text}

/-! ## A block in front of more lines -/

theorem told?_refilled_append (hahead : told? (ahead d ls) = none)
    (htold : told? (blockLines d fields) = some d) (below : List Text) :
    told? ((refilled d fields ls ++ below).map Text.chomp) = some d := by
  unfold refilled
  rw [told?_map Text.trim_chomp, told?_append, told?_append, told?_append, hahead, htold]
  rfl

/-- What the lines of a block hold is not changed by chopping off returns. -/
theorem map_chomp_refilled_append (hblock : d.Survives fields) (ls below : List Text) :
    ((refilled d fields ls ++ below).map Text.chomp).map Text.chomp =
      (ahead d ls).map (Text.chomp ∘ Text.chomp) ++ blockLines d fields ++
        ((behind d ls ++ below).map Text.chomp).map Text.chomp := by
  have hlines : (blockLines d fields).map (Text.chomp ∘ Text.chomp) = blockLines d fields := by
    rw [← List.map_map, Text.map_chomp_of_isLine hblock.lines,
      Text.map_chomp_of_isLine hblock.lines]
  unfold refilled
  simp only [List.map_map, List.map_append, hlines, List.append_assoc]

theorem claims_ahead_chomp (hahead : told? (ahead d ls) = none) :
    ∀ l ∈ (ahead d ls).map (Text.chomp ∘ Text.chomp), d.claims (Text.trim l) = false := by
  intro l hl
  obtain ⟨l', hl', rfl⟩ := List.mem_map.1 hl
  rw [Function.comp_apply, Text.trim_chomp, Text.trim_chomp]
  exact claims_ahead_of_told?_eq_none hahead l' hl'

/-- The value of a key is the one that the lines behind the block give it, else that of the
block. -/
theorem get?_held_refilled (hd : d ≠ .table) (hahead : told? (ahead d ls) = none)
    (hblock : d.Survives fields) (hempty : fields.isEmpty = false)
    (htold : told? (blockLines d fields) = some d)
    (hbelow : ∀ l ∈ behind d ls ++ below, '\n' ∉ l) (key : Text) :
    (held ((refilled d fields ls ++ below).map Text.chomp)).get? key =
      ((d.read (Text.unlines ((behind d ls ++ below).map Text.chomp))).get? key).or
        (fields.get? key) := by
  have hchomp : ∀ l ∈ (behind d ls ++ below).map Text.chomp, '\n' ∉ l := by
    intro l hl
    obtain ⟨l', hl', rfl⟩ := List.mem_map.1 hl
    exact fun hn ↦ hbelow l' hl' (Text.mem_of_mem_chomp hn)
  have hentries :=
    calc
      d.entries (((refilled d fields ls ++ below).map Text.chomp).map Text.chomp) =
          d.entries ((ahead d ls).map (Text.chomp ∘ Text.chomp) ++ blockLines d fields ++
            ((behind d ls ++ below).map Text.chomp).map Text.chomp) := by
        rw [map_chomp_refilled_append hblock]
      _ = d.entries (blockLines d fields) ++
          d.entries (((behind d ls ++ below).map Text.chomp).map Text.chomp) :=
        entries_append_block hd (claims_ahead_chomp hahead)
          (fun hfenced ↦ hblock.block hfenced hempty) _
      _ = d.entries (blockLines d fields) ++
          d.entries (Text.lines (Text.unlines ((behind d ls ++ below).map Text.chomp))) := by
        rw [entries_lines_unlines d hchomp]
  unfold held Dialect.read
  rw [told?_refilled_append hahead htold, Option.getD_some, hentries, TextMap.get?_ofList_append,
    hblock.read]

/-- Of a table only the block is read, when no row is right behind it. -/
theorem held_refilled_table {ls : List Text} (hahead : told? (ahead .table ls) = none)
    (hlegal : ∀ e ∈ fields.entries, Legal .table e) (hempty : fields.isEmpty = false)
    (hrow : ∀ l ∈ below.head?, isRow (Text.trim l) = false) :
    held ((refilled .table fields ls ++ below).map Text.chomp) = fields := by
  have hblock : Dialect.table.Survives fields := survives_of_legal (by simp) hlegal
  have hlines : blockLines .table fields = Dialect.table.writtenLines fields :=
    blockLines_of_not_isEmpty hempty
  have htold : told? (blockLines .table fields) = some .table := by
    rw [hlines]
    exact told?_table fields
  have hbehind : ∀ l ∈ (((behind .table ls ++ below).map Text.chomp).map Text.chomp).head?,
      isRow (Text.trim l) = false := by
    have hhead : ∀ l ∈ (behind .table ls ++ below).head?, isRow (Text.trim l) = false := by
      cases hb : behind .table ls with
      | nil => exact hrow
      | cons l r =>
        intro l' hl'
        obtain rfl : l = l' := by simpa using hl'
        exact claims_behind (d := .table) (by simp) (by rw [hb]; exact List.mem_cons_self)
    intro l hl
    rw [List.map_map, List.head?_map, Option.mem_def, Option.map_eq_some_iff] at hl
    obtain ⟨l', hl', rfl⟩ := hl
    rw [Function.comp_apply, Text.trim_chomp, Text.trim_chomp]
    exact hhead l' hl'
  have hread :=
    calc
      Dialect.table.entries (((refilled .table fields ls ++ below).map Text.chomp).map Text.chomp) =
          tableEntries .outside ((ahead .table ls).map (Text.chomp ∘ Text.chomp) ++
            (Dialect.table.writtenLines fields ++
              ((behind .table ls ++ below).map Text.chomp).map Text.chomp)) := by
        rw [map_chomp_refilled_append hblock, hlines, List.append_assoc]
        rfl
      _ = Dialect.table.entries (Dialect.table.writtenLines fields ++
          ((behind .table ls ++ below).map Text.chomp).map Text.chomp) :=
        tableEntries_outside_append (claims_ahead_chomp hahead) _
      _ = byLowerKey fields := entries_table_append hlegal hbehind
  unfold held
  rw [told?_refilled_append hahead htold, Option.getD_some, hread]
  exact TextMap.ofList_of_perm (byLowerKey_perm fields)

/-! ## The lines that stay -/

variable {m : Markers} {t : StatusTable} {r : Record} {s : Section}
  {pre later : List Section} {body : Text}

/-- Without later sections nothing that stays holds a field. -/
theorem read_left_nil (hs : s ∈ cut body) (t : StatusTable) (r : Record) :
    r.dialect.read (Text.unlines ((left t r s []).map Text.chomp)) = .empty := by
  have hquiet := ((isQuiet_behind r.dialect s.lines).map Text.trim_chomp).map Text.trim_chomp
  have hlines : ∀ l ∈ (behind r.dialect s.lines).map Text.chomp, '\n' ∉ l := by
    intro l hl hn
    obtain ⟨l', hl', rfl⟩ := List.mem_map.1 hl
    exact newline_not_mem_of_mem_section hs (mem_of_mem_behind hl') (Text.mem_of_mem_chomp hn)
  unfold left Dialect.read
  rw [List.flatMap_nil, List.append_nil, entries_lines_unlines _ hlines, entries_eq_nil hquiet]
  rfl

theorem isRow_of_isHeading {l : Text} (h : Heading.isHeading l = true) :
    isRow (Text.trim l) = false := by
  by_contra hrow
  have hhead : (Text.trim l).head? ≠ some '#' := by
    simp only [isRow, Bool.not_eq_false, Bool.and_eq_true, decide_eq_true_eq] at hrow
    simp [hrow.1]
  rw [Heading.isHeading_of_head? hhead] at h
  simp at h

/-- No row is right behind a section. -/
theorem isRow_of_head?_rewritten (hcuts : ∀ p ∈ later, p.IsCut)
    (hheading : Heading.IsLine t r.status r.name r.title) :
    ∀ l ∈ (later.flatMap (rewrittenLines t [r])).head?, isRow (Text.trim l) = false := by
  intro l hl
  apply isRow_of_isHeading
  cases later with
  | nil => simp at hl
  | cons p later =>
    have hp := hcuts p List.mem_cons_self
    by_cases hname : p.name t = r.name
    · rw [List.flatMap_cons, rewrittenLines_of_name_eq hp hname] at hl
      obtain rfl : Heading.write t p.level r.status r.name r.title = l := by simpa using hl
      unfold Heading.isHeading
      rw [Heading.split?_write hp.level_pos.1 hp.level_pos.2 hheading]
      rfl
    · rw [List.flatMap_cons, rewrittenLines_of_name_ne hp hname] at hl
      obtain rfl : p.heading = l := by simpa [asLines] using hl
      exact hp.isHeading

theorem newline_not_mem_left (h : Leads t body pre s later)
    (hheading : Heading.IsLine t r.status r.name r.title)
    (hblock : r.dialect.Survives (r.writtenFields t)) {l : Text} (hl : l ∈ left t r s later) :
    '\n' ∉ l := by
  rcases List.mem_append.1 hl with hl | hl
  · exact newline_not_mem_of_mem_section h.mem (mem_of_mem_behind hl)
  · obtain ⟨p, hp, hl⟩ := List.mem_flatMap.1 hl
    exact Outline.newline_not_mem_rewritten hheading (fun l hl ↦ (hblock.lines l hl).1)
      (h.mem_of_mem_later hp) l hl

/-- The first section of a file is open to a block of a line dialect, if the file is read in it. -/
theorem told?_ahead_of_leads {text : Text} (hd : r.dialect ≠ .fenced) (h : Leads t body pre s later)
    (hfrom : r.IsFrom m t text (Text.unlines (s.lines ++ later.flatMap asLines))) :
    told? (ahead r.dialect s.lines) = none := by
  apply told?_ahead_of_told? fun l hl ↦ claims_ahead hd hl
  cases htold : told? s.lines with
  | none => exact .inr rfl
  | some d =>
    left
    have hall : told? (Text.lines (Text.unlines (s.lines ++ later.flatMap asLines))) = some d := by
      rw [told?_lines_unlines h.newline_not_mem, told?_append, htold]
      rfl
    rw [← hfrom.dialect_eq, dialectOf_of_told?_lines m hall]

end Section

/-- A heading that, written for a record, gives its name back. -/
def Record.KeepsName (t : StatusTable) (r : Record) : Prop :=
  (Heading.ofText t (Text.trim (Heading.writtenText t r.status r.name r.title))).name = r.name

/-- A record that a table can write: the forms are lines, the status has one or is not known, and
the written heading has a name. -/
structure Record.IsHeaded (t : StatusTable) (r : Record) : Prop where
  lines : t.HasLines
  settled : t.IsSettled r.status
  named : (Heading.ofText t (Text.trim (Heading.writtenText t r.status r.name r.title))).name ≠ []

/-- A disk with a file that gives a field of an entity a value. -/
def Disk.Gives (d : Disk) (path : Path) (t : StatusTable) (time : Int)
    (n key value : Text) : Prop :=
  ∃ r, d.Reloads path t time n r ∧ r.fields.get? key = some value

namespace Store

variable {t₀ t : StatusTable} {doc : Document} {time : Int} {r : Record} {n key value : Text}

/-! ## Loading a file -/

/-- A document of one entity leaves the record of the entity. -/
theorem get?_load_of_taken {e : Entity} (h : (empty t₀).taken doc = [e])
    (hget : ((empty t₀).load doc time).get? n = some r) :
    n = e.name ∧ ∃ children, r = { Record.ofEntity e doc.path time with children := children } := by
  have hname : n = e.name := by
    obtain ⟨e', he', hn⟩ :=
      mem_names_load.1 (get?_isSome_iff.1 (Option.isSome_iff_exists.2 ⟨r, hget⟩))
    rw [h, List.mem_singleton] at he'
    rw [← hn, he']
  refine ⟨hname, ?_⟩
  obtain ⟨r', children, hr', rfl⟩ := exists_of_get?_load hget
  have hfilter : ((empty t₀).taken doc).filter (fun e ↦ e.name = n) = [e] := by
    rw [h, hname]
    simp
  rw [get?_foldl_of_single hfilter (get?_empty t₀ _), Option.some.injEq] at hr'
  exact ⟨children, by rw [hr']⟩

theorem exists_get?_load_of_taken {e : Entity} (h : (empty t₀).taken doc = [e]) (time : Int) :
    ∃ r, ((empty t₀).load doc time).get? e.name = some r ∧ r.fields = e.fields := by
  obtain ⟨r, hr⟩ : ∃ r, ((empty t₀).load doc time).get? e.name = some r := by
    rw [← Option.isSome_iff_exists, get?_isSome_iff, mem_names_load, h]
    exact ⟨e, List.mem_singleton_self e, rfl⟩
  obtain ⟨-, children, rfl⟩ := get?_load_of_taken h hr
  exact ⟨_, hr, rfl⟩

/-- The record of a file of one entity says what the first named section and all lines behind it
say. -/
theorem exists_leads_of_get?_load (hlayout : doc.markers.effectiveLayout ≠ .outline)
    (ht : t = doc.markers.statusTable?.getD t₀)
    (hget : ((empty t₀).load doc time).get? n = some r) :
    ∃ pre s later line children, Section.Leads t doc.body pre s later ∧ s.name t = n ∧
      r = { Record.ofEntity (Entity.ofSection doc.markers t (Heading.ofText t s.text) s.level line
        (Text.unlines (s.lines ++ later.flatMap Section.asLines))) doc.path time with
          children := children } := by
  have htaken : (empty t₀).taken doc = (Outline.single? doc.markers t doc.body).toList :=
    taken_single hlayout ht
  cases hsingle : Outline.single? doc.markers t doc.body with
  | none =>
    rw [hsingle] at htaken
    obtain ⟨e, he, -⟩ :=
      mem_names_load.1 (get?_isSome_iff.1 (Option.isSome_iff_exists.2 ⟨r, hget⟩))
    rw [htaken] at he
    simp at he
  | some e =>
    rw [hsingle] at htaken
    obtain ⟨pre, s, later, line, hleads, rfl⟩ := Outline.exists_leads_of_single? hsingle
    obtain ⟨rfl, children, rfl⟩ := get?_load_of_taken htaken hget
    exact ⟨pre, s, later, line, children, hleads, rfl, rfl⟩

/-! ## Loading a rewritten file -/

/-- A field that is no type and no status is the one that the section holds. -/
theorem get?_fields_ofSection (hmark : Record.isMarkKey key = false) (m : Markers) (t : StatusTable)
    (h : Heading) (level line : Nat) (body : Text) :
    (Entity.ofSection m t h level line body).fields.get? key = (Entity.given m body).get? key := by
  have hne := Record.ne_of_isMarkKey hmark
  have htyped : (Entity.typed (Entity.given m body)).2.get? key = (Entity.given m body).get? key :=
    Entity.get?_take?_of_ne (hne "Type" (by simp)) (hne "type" (by simp))
  rw [Entity.ofSection_fields, ← htyped]
  unfold Entity.stated
  split
  · rfl
  · exact Entity.get?_take?_of_ne (hne "Status" (by simp)) (hne "status" (by simp))

section Rewritten

variable {pre later : List Section} {s : Section}
  (hlayout : doc.markers.effectiveLayout ≠ .outline) (ht : t = doc.markers.statusTable?.getD t₀)
  (hleads : Section.Leads t doc.body pre s later) (hname : s.name t = r.name)
  (hheading : Heading.IsLine t r.status r.name r.title)
  (hblock : r.dialect.Survives (r.writtenFields t))

include hleads hheading hblock in
theorem newline_not_mem_below : ∀ l ∈ (Section.refilled r.dialect (r.writtenFields t) s.lines ++
    later.flatMap (Section.rewrittenLines t [r])).map Text.chomp, '\n' ∉ l := by
  intro l hl hn
  obtain ⟨l', hl', rfl⟩ := List.mem_map.1 hl
  have hn' := Text.mem_of_mem_chomp hn
  rcases List.mem_append.1 hl' with hl' | hl'
  · rcases Section.mem_refilled hl' with hl' | hl'
    · exact Section.newline_not_mem_of_mem_section hleads.mem hl' hn'
    · exact (hblock.lines l' hl').1 hn'
  · exact Section.newline_not_mem_left hleads hheading hblock (List.mem_append_right _ hl') hn'

include hlayout ht hleads hname hheading hblock in
/-- The rewritten file gives a field a value when its heading keeps the name and the lines behind it
hold the value. -/
theorem exists_get?_rewritten_iff
    (hnamed :
      (Heading.ofText t (Text.trim (Heading.writtenText t r.status r.name r.title))).name ≠ [])
    (hmark : Record.isMarkKey key = false) (time : Int) :
    (∃ r', ((empty t₀).load { doc with body := rewriteBody t [r] doc.body } time).get? r.name =
      some r' ∧ r'.fields.get? key = some value) ↔
      r.KeepsName t ∧ (Section.held ((Section.refilled r.dialect (r.writtenFields t) s.lines ++
        later.flatMap (Section.rewrittenLines t [r])).map Text.chomp)).get? key = some value := by
  obtain ⟨line, hsingle⟩ := Outline.single?_rewriteBody hleads hname hheading
    (fun l hl ↦ (hblock.lines l hl).1) hnamed doc.markers
  have htaken : (empty t₀).taken { doc with body := rewriteBody t [r] doc.body } =
      (Outline.single? doc.markers t (rewriteBody t [r] doc.body)).toList :=
    taken_single hlayout ht
  rw [hsingle] at htaken
  rw [← Section.given_unlines doc.markers (newline_not_mem_below hleads hheading hblock)]
  constructor
  · rintro ⟨r', hr', hvalue⟩
    obtain ⟨hkeeps, children, rfl⟩ := get?_load_of_taken htaken hr'
    refine ⟨hkeeps.symm, ?_⟩
    rw [← hvalue]
    exact (get?_fields_ofSection hmark doc.markers t _ s.level line _).symm
  · rintro ⟨hkeeps, hvalue⟩
    obtain ⟨r', hr', hfields⟩ := exists_get?_load_of_taken htaken time
    refine ⟨r', ?_, ?_⟩
    · rw [← hr']
      congr 1
      exact hkeeps.symm
    · rw [hfields, get?_fields_ofSection hmark, hvalue]

include hleads hheading hblock in
/-- The lines behind a rewritten heading hold the value of the record when no line that stays holds
another one. -/
theorem get?_held_iff (hlegal : r.dialect ≠ .fenced → ∀ e ∈ (r.writtenFields t).entries,
      r.dialect.Legal e)
    (hahead : told? (ahead r.dialect s.lines) = none)
    (htold : told? (Section.blockLines r.dialect (r.writtenFields t)) = some r.dialect)
    (hvalue : (r.writtenFields t).get? key = some value) :
    (Section.held ((Section.refilled r.dialect (r.writtenFields t) s.lines ++
        later.flatMap (Section.rewrittenLines t [r])).map Text.chomp)).get? key = some value ↔
      r.dialect = .table ∨ ∀ v, (r.dialect.read (Text.unlines
        ((Section.left t r s later).map Text.chomp))).get? key = some v → v = value := by
  have hempty : (r.writtenFields t).isEmpty = false := by
    rw [← Bool.not_eq_true, TextMap.isEmpty_iff]
    intro hnil
    rw [hnil] at hvalue
    simp at hvalue
  by_cases hd : r.dialect = .table
  · have hrow := Section.isRow_of_head?_rewritten
      (fun p hp ↦ Section.isCut_of_mem_cut (hleads.mem_of_mem_later hp)) hheading
    rw [hd] at hahead hlegal ⊢
    rw [Section.held_refilled_table hahead (hlegal (by simp)) hempty hrow]
    simp [hvalue]
  · rw [Section.get?_held_refilled hd hahead hblock hempty htold
      fun l hl ↦ Section.newline_not_mem_left hleads hheading hblock hl, hvalue]
    unfold Section.left
    simp only [hd, false_or]
    cases hleft : (r.dialect.read (Text.unlines ((behind r.dialect s.lines ++
        later.flatMap (Section.rewrittenLines t [r])).map Text.chomp))).get? key with
    | none => simp
    | some v => simp

end Rewritten

/-! ## Setting a field of a file -/

theorem gives_iff {d : Disk} {path : Path} {content : Text} (hread : d.read path = .ok content)
    (hdoc : Document.read? path content = some doc) :
    d.Gives path t₀ time n key value ↔
      ∃ r, ((empty t₀).load doc time).get? n = some r ∧ r.fields.get? key = some value :=
  exists_congr fun _ ↦ and_congr_left' (Disk.reloads_iff hread hdoc)

/-- The field of a record that was set and written into its file. -/
theorem gives_assign_iff {pre later : List Section} {s : Section}
    (hlayout : doc.markers.effectiveLayout ≠ .outline) (ht : t = doc.markers.statusTable?.getD t₀)
    (hleads : Section.Leads t doc.body pre s later) (hname : s.name t = r.name)
    (hplain : Heading.IsPlain r.name r.title) (hheaded : r.IsHeaded t)
    (hfrom : r.IsFrom doc.markers t s.text
      (Text.unlines (s.lines ++ later.flatMap Section.asLines)))
    (hkey : Text.isWord key) (hvalue : Text.isWord value) (hstatus : Entity.isStatusKey key = false)
    (hmark : Record.isMarkKey key = false) (now : Int)
    (hfence : r.dialect = .fenced → s.AdmitsFence ((assign t key value now r).writtenFields t))
    {d : Disk} {path : Path} {content : Text} (hread : d.read path = .ok content)
    (hdoc : Document.read? path content =
      some { doc with body := rewriteBody t [assign t key value now r] doc.body }) :
    d.Gives path t₀ time r.name key value ↔
      (assign t key value now r).KeepsName t ∧ (r.dialect = .table ∨ ∀ v, (r.dialect.read
        (Text.unlines ((s.left t (assign t key value now r) later).map Text.chomp))).get? key =
          some v → v = value) := by
  have hlegal : r.dialect ≠ .fenced →
      ∀ e ∈ ((assign t key value now r).writtenFields t).entries, r.dialect.Legal e :=
    fun hd e he ↦ hfrom.legal_assign hd hkey hvalue hstatus hmark now (TextMap.mem_entries_iff.1 he)
  have hget := hfrom.get?_assign hstatus hmark value now
  have hopen : told? (ahead r.dialect s.lines) = none ∧
      r.dialect.Survives ((assign t key value now r).writtenFields t) := by
    by_cases hd : r.dialect = .fenced
    · have hadmits := hfence hd
      rw [hd]
      exact ⟨hadmits.ahead, hadmits.survives⟩
    · exact ⟨Section.told?_ahead_of_leads hd hleads hfrom, survives_of_legal hd (hlegal hd)⟩
  have htold := Section.told?_block_of_isWord hkey hget hlegal []
  rw [List.append_nil] at htold
  have hdialect := Record.dialect_assign hstatus t value now r
  have hsame := Record.name_assign t key value now r
  have hheading : Heading.IsLine t (assign t key value now r).status (assign t key value now r).name
      (assign t key value now r).title := by
    rw [Record.status_assign hstatus, hsame, Record.title_assign hstatus]
    exact hplain.isLine hheaded.lines
  have hnamed :
      (Heading.ofText t (Text.trim (Heading.writtenText t (assign t key value now r).status
      (assign t key value now r).name (assign t key value now r).title))).name ≠ [] := by
    rw [Record.status_assign hstatus, hsame, Record.title_assign hstatus]
    exact hheaded.named
  rw [← hdialect] at hlegal hopen htold ⊢
  rw [gives_iff hread hdoc, ← hsame, exists_get?_rewritten_iff hlayout ht hleads
    (hname.trans hsame.symm) hheading hopen.2 hnamed hmark time,
    get?_held_iff hleads hheading hopen.2 hlegal hopen.1 htold hget]

/-- Whatever a file was read with, the built-in table can write it. -/
theorem isHeaded_of_mem_cut {s : Section} (hs : s ∈ Section.cut doc.body) (hne : s.name t ≠ [])
    {level line : Nat} {below : Text} {path : Path} {children : List Text}
    (hr : r = { Record.ofEntity (Entity.ofSection doc.markers t (Heading.ofText t s.text) level line
      below) path time with children := children })
    (h : t = .builtIn ∨ r.IsHeaded t) : r.IsHeaded t := by
  rcases h with rfl | h
  · have hplain := Section.isPlain_of_mem_cut hs hne
    refine ⟨StatusTable.hasLines_builtIn, StatusTable.isSettled_builtIn _, ?_⟩
    rw [hr]
    exact (Section.isApart_of_mem_cut hs hplain doc.markers level line below).name_ne hplain
  · exact h

/-- With the built-in table a heading keeps its name, unless the name is its own title and has two
spaced hyphens. -/
theorem keepsName_builtIn_iff {s : Section} (hs : s ∈ Section.cut doc.body)
    (hne : s.name .builtIn ≠ []) {level line : Nat} {below : Text} {path : Path}
    {children : List Text}
    (hr : r = { Record.ofEntity
      (Entity.ofSection doc.markers .builtIn (Heading.ofText .builtIn s.text) level line below)
      path time with children := children }) :
    r.KeepsName .builtIn ↔ (r.title = r.name → ¬ [' ', '-', '-', ' '] <:+: r.name) := by
  have hplain : Heading.IsPlain r.name r.title := by
    rw [hr]
    exact Section.isPlain_of_mem_cut hs hne
  have hapart : Heading.IsApart .builtIn r.status r.name r.title := by
    rw [hr] at hplain ⊢
    exact Section.isApart_of_mem_cut hs hplain doc.markers level line below
  constructor
  · intro hkeeps htitle hhyphens
    unfold Record.KeepsName at hkeeps
    rw [htitle] at hplain hkeeps
    exact Heading.name_ne_of_hyphens hplain hhyphens r.status hkeeps
  · exact fun hhyphens ↦ (hapart.readsBack ⟨hplain, hhyphens⟩).name_eq

/-- A set field in a file of one entity.  Setting the field and writing the entity back succeed.
The file then gives the entity the new value exactly when its heading keeps the name and, except in
a table, no line that stays holds another value of the key: a line of the section that was no field
line, or any line of a later section. -/
theorem setField_writeBackOne_single {d : Disk} {path : Path} {content : Text}
    (hread : d.read path = .ok content) (hdoc : Document.read? path content = some doc)
    (hlayout : doc.markers.effectiveLayout ≠ .outline) (ht : t = doc.markers.statusTable?.getD t₀)
    (hget : ((empty t₀).load doc time).get? n = some r) (hheaded : t = .builtIn ∨ r.IsHeaded t)
    (hkey : Text.isWord key) (hvalue : Text.isWord value) (hstatus : Entity.isStatusKey key = false)
    (hmark : Record.isMarkKey key = false) (now : Int) :
    ∃ pre s later s' r' d', Section.Leads t doc.body pre s later ∧ s.name t = n ∧
      ((empty t₀).load doc time).setField n key value now = .ok s' ∧
      s'.get? n = some r' ∧ r'.fields = r.fields.insert key value ∧ r'.dialect = r.dialect ∧
      s'.writeBackOne d n = .ok (some path, d') ∧
      ((r.dialect = .fenced → s.AdmitsFence (r'.writtenFields t)) → ∀ time',
        (d'.Gives path t₀ time' n key value ↔
          r'.KeepsName t ∧ (r.dialect = .table ∨ ∀ v, (r.dialect.read (Text.unlines
            ((s.left t r' later).map Text.chomp))).get? key = some v → v = value))) ∧
      (t = .builtIn → (r'.KeepsName t ↔ (r.title = n → ¬ [' ', '-', '-', ' '] <:+: n))) := by
  obtain ⟨pre, s, later, line, children, hleads, rfl, hr⟩ :=
    exists_leads_of_get?_load hlayout ht hget
  have hname : s.name t = r.name := (name_of_get? hget).symm
  have hplain : Heading.IsPlain r.name r.title := by
    rw [hr]
    exact Section.isPlain_of_mem_cut hleads.mem hleads.named
  have hheaded := isHeaded_of_mem_cut hleads.mem hleads.named hr hheaded
  have hfrom : r.IsFrom doc.markers t s.text
      (Text.unlines (s.lines ++ later.flatMap Section.asLines)) :=
    ⟨⟨_, _, _, _, _, hr⟩, hheaded.settled⟩
  have hprimary : r.primary = path := by
    rw [hr]
    exact Document.path_of_read? hdoc
  obtain ⟨s', d', content', hset, hget', hwrite, hread', hdoc'⟩ :=
    exists_stored hread hdoc hleads.body_ne_nil ht hget hprimary hstatus value now
  refine ⟨pre, s, later, s', assign t key value now r, d', hleads, rfl, hset, hget',
    Record.fields_assign hstatus _ _ _ _, Record.dialect_assign hstatus _ _ _ _, hwrite,
    fun hfence time' ↦ ?_, ?_⟩
  · rw [hname]
    exact gives_assign_iff hlayout ht hleads hname hplain hheaded hfrom hkey hvalue hstatus hmark
      now hfence hread' hdoc'
  · rintro rfl
    unfold Record.KeepsName
    rw [Record.status_assign hstatus, Record.name_assign, Record.title_assign hstatus,
      hname]
    exact keepsName_builtIn_iff hleads.mem hleads.named hr

/-- The owner of a file can be changed, when the file has no other section. -/
theorem setField_writeBackOne_single_owned :
    ∃ s' d', ((empty .builtIn).load (.filed Document.owned) 0).setField "Plan" "Owner" "bob" 1 =
        .ok s' ∧
      s'.writeBackOne (.plan (Document.filedLead ++ Document.owned)) "Plan" =
        .ok (some "plan.md", d') ∧
      d'.Gives "plan.md" .builtIn 0 "Plan" "Owner" "bob" := by
  obtain ⟨r, hget⟩ :
      ∃ r, ((empty .builtIn).load (.filed Document.owned) 0).get? "Plan" = some r := by
    rw [← Option.isSome_iff_exists]
    decide +kernel
  have hrecords : ∀ r ∈ ((empty .builtIn).load (.filed Document.owned) 0).records,
      r.dialect = .colons ∧
        (r.title = "Plan".toList → ¬ [' ', '-', '-', ' '] <:+: "Plan".toList) := by
    decide +kernel
  have hlength : (Section.cut Document.owned).length = 1 := by decide +kernel
  have hlayout : (Document.filed Document.owned).markers.effectiveLayout ≠ .outline := by decide
  have hkey : Text.isWord "Owner" := by decide
  have hvalue : Text.isWord "bob" := by decide
  obtain ⟨hdialect, hhyphens⟩ := hrecords r (mem_of_get? hget)
  obtain ⟨pre, s, later, s', r', d', hleads, -, hset, -, -, hsame, hwrite, hgives, hkeeps⟩ :=
    setField_writeBackOne_single (t := .builtIn)
      (Disk.read_plan (Document.filedLead ++ Document.owned))
      (Document.read?_filed Document.owned) hlayout rfl hget (.inl rfl) hkey hvalue (by decide)
      (by decide) 1
  have hcut := hleads.cut_eq
  have hlater : later = [] := by
    change Section.cut Document.owned = _ at hcut
    rw [hcut, List.length_append, List.length_cons] at hlength
    exact List.length_eq_zero_iff.1 (by omega)
  refine ⟨s', d', hset, hwrite,
    (hgives (fun hd ↦ ?_) 0).2 ⟨(hkeeps rfl).2 hhyphens, .inr fun v hv ↦ ?_⟩⟩
  · rw [hdialect] at hd
    simp at hd
  · rw [hlater, ← hsame, Section.read_left_nil hleads.mem] at hv
    simp at hv

/-- A file with an owner in its second section. -/
def nested : Text := "# Plan\n## Part\nOwner:: amy\n"

/-- The owner in a later section wins over the one that is written. -/
theorem not_setField_nested :
    ∃ s' d', ((empty .builtIn).load (.filed nested) 0).setField "Plan" "Owner" "bob" 1 = .ok s' ∧
      s'.writeBackOne (.plan (Document.filedLead ++ nested)) "Plan" = .ok (some "plan.md", d') ∧
      ¬ d'.Gives "plan.md" .builtIn 0 "Plan" "Owner" "bob" := by
  obtain ⟨r₀, hget₀⟩ : ∃ r, ((empty .builtIn).load (.filed nested) 0).get? "Plan" = some r := by
    rw [← Option.isSome_iff_exists]
    decide +kernel
  have hrecords : ∀ r₀ ∈ ((empty .builtIn).load (.filed nested) 0).records,
      r₀.primary.text = "plan.md".toList ∧
        ∀ r ∈ ((empty .builtIn).load (.filed (rewriteBody .builtIn
          [assign .builtIn "Owner" "bob" 1 r₀] nested)) 0).records,
            r.fields.get? "Owner" = some "amy".toList := by
    decide +kernel
  have hmem := mem_of_get? hget₀
  have hprimary : r₀.primary = "plan.md" := congrArg Path.mk (hrecords r₀ hmem).1
  have ht : StatusTable.builtIn = (Document.filed nested).markers.statusTable?.getD .builtIn := rfl
  have hstatus : Entity.isStatusKey "Owner" = false := by decide
  obtain ⟨s', d', content', hset, -, hwrite, hread, hdoc⟩ :=
    exists_stored (Disk.read_plan (Document.filedLead ++ nested)) (Document.read?_filed nested)
      (by decide) ht hget₀ hprimary hstatus "bob" 1
  refine ⟨s', d', hset, hwrite, ?_⟩
  rintro ⟨r, hreloads, hvalue⟩
  rw [Disk.reloads_iff hread hdoc] at hreloads
  rw [(hrecords r₀ hmem).2 r (mem_of_get? hreloads)] at hvalue
  revert hvalue
  decide

end Store

end Markbook
