import Markbook.Proofs.WriteBack.Rereads

/-!
# Prose Stays

A rewritten body is made of pieces: lines of the old body, the headings of records and the blocks
of their fields.  `Section.Becomes` says which pieces may come out of a section, and it allows one
new heading and at most one block, which stands where the first field line was or behind all lines.
So the pieces that are copied are the lines of the old body, in their order, without the headings
of the records and the field lines below them (`rewrite_prose`).  Writing one record back touches
no section of another name.
-/

namespace Markbook

namespace Section

/-- A piece of a rewritten body, without the line feed behind it. -/
inductive Piece where
  /-- A line of the old body. -/
  | copied (line : Text)
  /-- The heading of a record. -/
  | heading (line : Text)
  /-- The fields of a record, maybe on several lines. -/
  | block (text : Text)

namespace Piece

def text : Piece → Text
  | copied l => l
  | heading l => l
  | block s => s

/-- The line of the old body that the piece is, if it is one. -/
def line? : Piece → Option Text
  | copied l => some l
  | heading _ => none
  | block _ => none

end Piece

/-- The fields of a record as a piece; there is none without fields. -/
def blockOf (t : StatusTable) (r : Record) : List Piece :=
  if (r.writtenFields t).isEmpty then [] else [.block (r.dialect.write (r.writtenFields t))]

/-- The pieces that a section may be rewritten to. -/
inductive Becomes (t : StatusTable) (records : List Record) (s : Section) : List Piece → Prop where
  /-- No record has the name in the heading. -/
  | kept (h : recordOf? t records s = none) : Becomes t records s (s.asLines.map .copied)
  /-- The section has no field line. -/
  | appended {level : Nat} {r : Record} (h : recordOf? t records s = some (level, r))
      (hmask : true ∉ r.dialect.mask s.lines) :
      Becomes t records s (.heading (Heading.write t level r.status r.name r.title) ::
        (s.lines.map .copied ++ blockOf t r))
  /-- The line `l` is the first field line of the section. -/
  | replaced {level : Nat} {r : Record} {a : List Text} {l : Text} {rest : List (Text × Bool)}
      (h : recordOf? t records s = some (level, r))
      (hmask : s.lines.zip (r.dialect.mask s.lines) = a.map (·, false) ++ (l, true) :: rest) :
      Becomes t records s (.heading (Heading.write t level r.status r.name r.title) ::
        (a.map .copied ++ blockOf t r ++ (Dialect.unmarked rest).map .copied))

/-- The lines of a section, those marked that a record takes the place of: its heading and its field
lines. -/
def replacedLines (t : StatusTable) (records : List Record) (s : Section) : List (Text × Bool) :=
  match recordOf? t records s with
  | some (_, r) => (s.heading, true) :: s.lines.zip (r.dialect.mask s.lines)
  | none => s.asLines.map (·, false)

variable {t : StatusTable} {records : List Record} {s : Section} {ps : List Piece} {body : Text}

/-! ## One section -/

theorem withBlock_of_unmarked (block : Option Text) (a : List Text) :
    withBlock block (a.map (·, false)) = a ++ block.toList := by
  induction a with
  | nil => rfl
  | cons l r ih => rw [List.map_cons, withBlock, ih, List.cons_append]

theorem withBlock_of_marked (block : Option Text) (a : List Text) (l : Text)
    (rest : List (Text × Bool)) :
    withBlock block (a.map (·, false) ++ (l, true) :: rest) =
      a ++ block.toList ++ Dialect.unmarked rest := by
  induction a with
  | nil => rfl
  | cons m r ih =>
    rw [List.map_cons, List.cons_append, withBlock, ih, List.cons_append, List.cons_append]

/-- Marked lines have a first one, or there is none. -/
theorem marks_cases (pairs : List (Text × Bool)) :
    (∃ a : List Text, pairs = a.map (·, false)) ∨
      ∃ (a : List Text) (l : Text) (rest : List (Text × Bool)),
        pairs = a.map (·, false) ++ (l, true) :: rest := by
  induction pairs with
  | nil => exact .inl ⟨[], rfl⟩
  | cons p r ih =>
    obtain ⟨l, marked⟩ := p
    cases marked with
    | true => exact .inr ⟨[], l, r, rfl⟩
    | false =>
      rcases ih with ⟨a, rfl⟩ | ⟨a, m, rest, rfl⟩
      · exact .inl ⟨l :: a, rfl⟩
      · exact .inr ⟨l :: a, m, rest, rfl⟩

theorem map_text_copied (ls : List Text) : (ls.map Piece.copied).map Piece.text = ls := by
  rw [List.map_map]
  exact List.map_id ls

theorem filterMap_line?_copied (ls : List Text) :
    (ls.map Piece.copied).filterMap Piece.line? = ls := by
  rw [List.filterMap_map]
  exact List.filterMap_some

theorem map_text_blockOf (t : StatusTable) (r : Record) :
    (blockOf t r).map Piece.text =
      (if (r.writtenFields t).isEmpty then none
        else some (r.dialect.write (r.writtenFields t))).toList := by
  unfold blockOf
  split <;> rfl

theorem filterMap_line?_blockOf (t : StatusTable) (r : Record) :
    (blockOf t r).filterMap Piece.line? = [] := by
  unfold blockOf
  split <;> rfl

/-- Rewriting a section gives pieces that it may become. -/
theorem exists_becomes (t : StatusTable) (records : List Record) (s : Section) :
    ∃ ps, Becomes t records s ps ∧ rewritten t records s = ps.map Piece.text := by
  unfold rewritten
  cases h : recordOf? t records s with
  | none => exact ⟨_, .kept h, (map_text_copied s.asLines).symm⟩
  | some p =>
    obtain ⟨level, r⟩ := p
    unfold withFields
    rcases marks_cases (s.lines.zip (r.dialect.mask s.lines)) with ⟨a, ha⟩ | ⟨a, l, rest, ha⟩
    · have hlines : s.lines = a := by
        have hfst := Dialect.map_fst_zip_mask r.dialect s.lines
        rw [ha, List.map_map] at hfst
        exact hfst.symm.trans (List.map_id a)
      have hmask : true ∉ r.dialect.mask s.lines := by
        have hsnd := List.map_snd_zip (Dialect.length_mask r.dialect s.lines).le
        rw [ha, List.map_map] at hsnd
        simp [← hsnd]
      refine ⟨_, .appended h hmask, ?_⟩
      simp only [ha, withBlock_of_unmarked, List.map_cons, List.map_append, map_text_copied,
        map_text_blockOf, Piece.text]
      rw [hlines]
    · refine ⟨_, .replaced h ha, ?_⟩
      simp only [ha, withBlock_of_marked, List.map_cons, List.map_append, map_text_copied,
        map_text_blockOf, Piece.text]

theorem map_fst_replacedLines (t : StatusTable) (records : List Record) (s : Section) :
    (replacedLines t records s).map (·.1) = s.asLines := by
  unfold replacedLines
  split
  · rw [List.map_cons, Dialect.map_fst_zip_mask]
    rfl
  · rw [List.map_map]
    exact List.map_id _

/-- The copied pieces of a section are its lines that no record takes the place of. -/
theorem Becomes.lines_eq (h : Becomes t records s ps) :
    ps.filterMap Piece.line? = Dialect.unmarked (replacedLines t records s) := by
  unfold replacedLines
  cases h with
  | kept h =>
    rw [h]
    exact (filterMap_line?_copied _).trans (Dialect.unmarked_map_false _).symm
  | @appended level r h hmask =>
    have hzip : s.lines.zip (r.dialect.mask s.lines) = s.lines.map (·, false) := by
      have hreplicate : r.dialect.mask s.lines = List.replicate s.lines.length false := by
        refine List.eq_replicate_iff.2 ⟨Dialect.length_mask _ _, fun m hm ↦ ?_⟩
        simpa using fun htrue : m = true ↦ hmask (htrue ▸ hm)
      rw [hreplicate, ← List.map_const']
      exact Dialect.zip_map_self _ _
    rw [h]
    calc
      _ = (s.lines.map Piece.copied ++ blockOf t r).filterMap Piece.line? := rfl
      _ = s.lines := by
        rw [List.filterMap_append, filterMap_line?_copied, filterMap_line?_blockOf, List.append_nil]
      _ = Dialect.unmarked (s.lines.zip (r.dialect.mask s.lines)) := by
        rw [hzip, Dialect.unmarked_map_false]
  | @replaced level r a l rest h hmask =>
    rw [h]
    calc
      _ = (a.map Piece.copied ++ blockOf t r ++
          (Dialect.unmarked rest).map Piece.copied).filterMap Piece.line? := rfl
      _ = a ++ Dialect.unmarked rest := by
        rw [List.filterMap_append, List.filterMap_append, filterMap_line?_copied,
          filterMap_line?_blockOf, filterMap_line?_copied, List.append_nil]
      _ = Dialect.unmarked (a.map (·, false) ++ (l, true) :: rest) := by
        rw [Dialect.unmarked_append, Dialect.unmarked_map_false]
        rfl
      _ = Dialect.unmarked (s.lines.zip (r.dialect.mask s.lines)) := by rw [hmask]

/-- A section of another name is copied. -/
theorem Becomes.eq_of_name_ne {r : Record} (h : Becomes t [r] s ps) (hs : s.IsCut)
    (hne : s.name t ≠ r.name) : ps = s.asLines.map .copied := by
  have hnone : recordOf? t [r] s = none := by
    rw [recordOf?_singleton hs, if_neg hne]
  cases h with
  | kept => rfl
  | appended h => simp [hnone] at h
  | replaced h => simp [hnone] at h

/-! ## The whole body -/

/-- The pieces of a rewritten body, when its sections become these. -/
def pieces (body : Text) (ps : List (List Piece)) : List Piece :=
  (lead body).map .copied ++ ps.flatten

/-- The lines of a body, those marked that records take the place of. -/
def replacedIn (t : StatusTable) (records : List Record) (body : Text) : List (Text × Bool) :=
  (lead body).map (·, false) ++ (cut body).flatMap (replacedLines t records)

theorem map_fst_replacedIn (t : StatusTable) (records : List Record) (body : Text) :
    (replacedIn t records body).map (·.1) = Text.lines body := by
  unfold replacedIn
  rw [List.map_append, List.map_flatMap, lines_eq_lead_append_cut, List.map_map]
  congr 1
  · exact List.map_id _
  · exact List.flatMap_congr fun s _ ↦ map_fst_replacedLines t records s

theorem exists_forall₂_becomes (t : StatusTable) (records : List Record) (ss : List Section) :
    ∃ P, List.Forall₂ (Becomes t records) ss P ∧
      ss.flatMap (rewritten t records) = P.flatten.map Piece.text := by
  induction ss with
  | nil => exact ⟨[], .nil, rfl⟩
  | cons s r ih =>
    obtain ⟨ps, hps, htext⟩ := exists_becomes t records s
    obtain ⟨P, hP, hrest⟩ := ih
    refine ⟨ps :: P, .cons hps hP, ?_⟩
    rw [List.flatMap_cons, htext, hrest, List.flatten_cons, List.map_append]

theorem lines_of_forall₂_becomes {ss : List Section} {P : List (List Piece)}
    (h : List.Forall₂ (Becomes t records) ss P) :
    P.flatten.filterMap Piece.line? = Dialect.unmarked (ss.flatMap (replacedLines t records)) := by
  induction h with
  | nil => rfl
  | cons hps _ ih =>
    rw [List.flatten_cons, List.filterMap_append, hps.lines_eq, ih, List.flatMap_cons,
      Dialect.unmarked_append]

end Section

open Section

/-- A text is a document rewritten for some records, its sections becoming these pieces. -/
structure IsRewriting (t : StatusTable) (records : List Record) (content : Text)
    (P : List (List Piece)) (out : Text) : Prop where
  sections : List.Forall₂ (Becomes t records) (cut (Preamble.bodyOf content)) P
  /-- The preamble, and then the pieces. -/
  text : out = Preamble.leadOf content ++
    (pieces (Preamble.bodyOf content) P).flatMap fun p ↦ p.text ++ ['\n']
  /-- The copied pieces are the old lines, without those that records take the place of. -/
  copied : (pieces (Preamble.bodyOf content) P).filterMap Piece.line? =
    Dialect.unmarked (replacedIn t records (Preamble.bodyOf content))
  lines : (replacedIn t records (Preamble.bodyOf content)).map (·.1) =
    Text.lines (Preamble.bodyOf content)

variable {content : Text}

theorem exists_isRewriting (hne : Preamble.bodyOf content ≠ []) (t : StatusTable)
    (records : List Record) :
    ∃ P, IsRewriting t records content P (rewrite t records content) := by
  obtain ⟨P, hP, htext⟩ := exists_forall₂_becomes t records (cut (Preamble.bodyOf content))
  refine ⟨P, hP, ?_, ?_, map_fst_replacedIn t records _⟩
  · have hpieces : lead (Preamble.bodyOf content) ++
        (cut (Preamble.bodyOf content)).flatMap (rewritten t records) =
          (pieces (Preamble.bodyOf content) P).map Piece.text := by
      unfold pieces
      rw [htext, List.map_append, map_text_copied]
    rw [rewrite_eq_append, rewriteBody_eq_flatMap hne, hpieces, List.flatMap_map]
  · unfold pieces replacedIn
    rw [List.filterMap_append, filterMap_line?_copied, lines_of_forall₂_becomes hP,
      Dialect.unmarked_append, Dialect.unmarked_map_false]

/-- No prose is lost.  A document with a body is rewritten piece by piece, and the lines that no
record takes the place of are all copied, in their order.  Writing one record back rewrites its
file so; a section whose heading has another name than the record is copied, and the rest of the
disk stays.  In an indexed store the record has the name that it is asked for by. -/
theorem rewrite_prose (hne : Preamble.bodyOf content ≠ []) :
    (∀ t records, ∃ P, IsRewriting t records content P (rewrite t records content)) ∧
    ∀ (s : Store) (d : Disk) (n : Text) (r : Record), s.get? n = some r →
      d.read r.primary = .ok content →
      ∃ q d', s.writeBackOne d n = .ok (some r.primary, d') ∧
        d'.read r.primary = .ok (rewrite (s.tableFor content) [r] content) ∧
        (∀ sec ∈ cut (Preamble.bodyOf content), sec.name (s.tableFor content) ≠ r.name →
          ∀ ps, Becomes (s.tableFor content) [r] sec ps → ps = sec.asLines.map .copied) ∧
        (s.IsIndexed → r.name = n) ∧
        d.place? r.primary = .ok q ∧ ∀ x, x ≠ q → d'.item? x = d.item? x := by
  refine ⟨exists_isRewriting hne, fun s d n r hget hread ↦ ?_⟩
  have hcontent : content ≠ [] := by
    rintro rfl
    exact hne (by decide)
  obtain ⟨d', hfile, hread'⟩ := Store.exists_rewriteFile_of_ne_nil hread hcontent s [r]
  obtain ⟨q, hplace, hother⟩ := Disk.item?_write (Store.write_of_rewriteFile hread hfile)
    (Store.not_isNullDevice hcontent hread)
  refine ⟨q, d', Store.writeBackOne_of_rewriteFile hget hfile, hread',
    fun sec hsec hname ps hps ↦ ?_, fun hindexed ↦ Store.name_of_get? hget, hplace, hother⟩
  exact hps.eq_of_name_ne (isCut_of_mem_cut hsec) hname

/-- The owner of a plan is rewritten in place, and all around it stays. -/
theorem rewrite_prose_owned :
    Preamble.bodyOf (Document.planLead ++ Document.owned) ≠ [] ∧
      ∃ r d', ((Store.empty .builtIn).load (.plan Document.owned) 0).get? "Plan" = some r ∧
        (∃ P, IsRewriting .builtIn [r] (Document.planLead ++ Document.owned) P
          (rewrite .builtIn [r] (Document.planLead ++ Document.owned))) ∧
        ((Store.empty .builtIn).load (.plan Document.owned) 0).writeBackOne
          (.plan (Document.planLead ++ Document.owned)) "Plan" = .ok (some "plan.md", d') := by
  have hne : Preamble.bodyOf (Document.planLead ++ Document.owned) ≠ [] := by decide +kernel
  obtain ⟨hpieces, hstored⟩ := rewrite_prose hne
  obtain ⟨r, hget⟩ :
      ∃ r, ((Store.empty .builtIn).load (.plan Document.owned) 0).get? "Plan" = some r := by
    rw [← Option.isSome_iff_exists]
    decide +kernel
  have hlayout : (Document.plan Document.owned).markers.effectiveLayout = .outline := by decide
  have hprimary : r.primary = "plan.md" :=
    (Store.origin_of_mem_load hlayout rfl (Store.mem_of_get? hget)).primary
  have hread : (Disk.plan (Document.planLead ++ Document.owned)).read r.primary =
      .ok (Document.planLead ++ Document.owned) := by
    rw [hprimary]
    exact Disk.read_plan _
  obtain ⟨-, d', hwrite, -⟩ := hstored _ _ "Plan" r hget hread
  rw [hprimary] at hwrite
  exact ⟨hne, r, d', hget, hpieces .builtIn [r], hwrite⟩

end Markbook
