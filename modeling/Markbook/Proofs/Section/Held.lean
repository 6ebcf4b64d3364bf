import Markbook.Proofs.Dialect.Block
import Markbook.Proofs.Entity
import Markbook.Proofs.Section.Cut

/-!
# What a Section Holds

A section holds the fields that its lines say in the dialect they give away (`Section.held`).  A
section with a new block holds exactly the fields of the block when the lines ahead of the block
give no dialect away, the block is read back as it stands, and block and lines behind it give the
dialect away that the block is written in (`Section.held_refilled`).
-/

namespace Markbook

namespace Dialect

/-! ## Blank lines -/

theorem claims_nil (d : Dialect) : d.claims [] = false := by cases d <;> decide

theorem isQuiet_of_claims {d : Dialect} {ls : List Text}
    (h : ∀ l ∈ ls, d.claims (Text.trim l) = false) : d.IsQuiet ls := by
  cases d with
  | colons => exact h
  | packed => exact h
  | table => exact h
  | fenced =>
    have hzero : fences ls = 0 := fences_eq_zero_iff.2 h
    unfold IsQuiet
    simp only
    omega

theorem IsQuiet.append {d : Dialect} {a c : List Text}
    (ha : ∀ l ∈ a, d.claims (Text.trim l) = false) (hc : d.IsQuiet c) : d.IsQuiet (a ++ c) := by
  cases d
  case fenced =>
    have hzero : fences a = 0 := fences_eq_zero_iff.2 ha
    unfold IsQuiet at *
    simp only at *
    rw [fences_append]
    omega
  all_goals
    intro l hl
    rcases List.mem_append.1 hl with hl | hl
    · exact ha l hl
    · exact hc l hl

/-! ## Blocks that are read back -/

/-- The block of some fields, line by line, is read back as these fields. -/
structure Survives (d : Dialect) (fields : Fields) : Prop where
  lines : ∀ l ∈ Section.blockLines d fields, l.IsLine
  block : d = .fenced → fields.isEmpty = false → IsBlock (Section.blockLines d fields)
  read : TextMap.ofList (d.entries (Section.blockLines d fields)) = fields

variable {d : Dialect} {fields : Fields}

theorem entries_ne_nil (h : fields.isEmpty = false) : fields.entries ≠ [] := by
  unfold TextMap.isEmpty at h
  simpa using h

theorem survives_of_isEmpty (h : fields.isEmpty = true) : Survives d fields := by
  have hnil : Section.blockLines d fields = [] := by
    unfold Section.blockLines
    rw [if_pos h]
  have hentries : d.entries [] = [] := by cases d <;> rfl
  refine ⟨by simp [hnil], by simp [h], ?_⟩
  rw [hnil, hentries, TextMap.isEmpty_iff.1 h]
  rfl

/-- Legal fields of a line dialect are read back. -/
theorem survives_of_legal (hd : d ≠ .fenced) (h : ∀ e ∈ fields.entries, d.Legal e) :
    Survives d fields := by
  cases hempty : fields.isEmpty with
  | true => exact survives_of_isEmpty hempty
  | false =>
    have hne := entries_ne_nil hempty
    have hlines : Section.blockLines d fields = d.writtenLines fields := by
      unfold Section.blockLines
      rw [hempty]
      rfl
    refine ⟨?_, fun hfenced ↦ absurd hfenced hd, ?_⟩
    · rw [hlines]
      exact isLine_of_mem_writtenLines hd (fun e he ↦ (h e he).toIsField) hne
    · rw [hlines]
      exact TextMap.ofList_of_perm (entries_writtenLines hd h hne)

theorem head?_colonsLine {e : Text × Text} (h : IsField e) :
    (Text.trim (colonsLine e)).head? = e.1.head? := by
  have htrim : Text.trim (colonsLine e) = colonsLine e := isTrimmed_colonsLine h
  rw [htrim]
  unfold colonsLine
  split
  · exact h.head?_append _
  · rw [List.append_assoc]
    exact h.head?_append _

/-- Only one field a line can make a heading, by a key that starts with a hash. -/
theorem isHeading_of_mem_writtenLines (hd : d ≠ .fenced) (h : ∀ e ∈ fields.entries, IsField e)
    (hne : fields.entries ≠ [])
    (hcolons : d = .colons → ∀ e ∈ fields.entries, Heading.isHeading (colonsLine e) = false) :
    ∀ l ∈ d.writtenLines fields, Heading.isHeading l = false := by
  refine forall_mem_writtenLines hd hcolons (fun _ ↦ ?_)
    fun _ ↦ ⟨by decide, by decide, fun e _ ↦ ?_⟩
  · have htrim : Text.trim (packedLine fields.entries) = packedLine fields.entries :=
      isTrimmed_packedLine h hne
    apply Heading.isHeading_of_head?
    rw [htrim]
    simp [packedLine, mark]
  · have htrim : Text.trim (tableLine e) = tableLine e := isTrimmed_tableLine e
    apply Heading.isHeading_of_head?
    rw [htrim, tableLine_eq]
    simp

end Dialect

namespace Section

open Dialect

/-- The fields that some lines hold in the dialect they give away. -/
def held (ls : List Text) : Fields :=
  TextMap.ofList (((told? ls).getD .colons).entries (ls.map Text.chomp))

theorem entries_of_blank (d : Dialect) {ls : List Text} (h : ∀ l ∈ ls, Text.trim l = []) :
    d.entries ls = [] :=
  entries_eq_nil (isQuiet_of_claims fun l hl ↦ by rw [h l hl, claims_nil])

theorem trim_eq_nil_of_mem_lines {body : Text} (h : Text.trim body = []) :
    ∀ l ∈ Text.lines body, Text.trim l = [] := by
  rw [Text.trim_eq_nil_iff] at h
  exact fun l hl ↦ Text.trim_eq_nil_iff.2 fun c hc ↦ h c (Text.mem_of_mem_lines hl hc)

/-- A section that gives a dialect away is read in it. -/
theorem dialectOf_of_told?_lines (m : Markers) {body : Text} {d : Dialect}
    (h : told? (Text.lines body) = some d) : Entity.dialectOf m body = d := by
  unfold Entity.dialectOf
  rw [if_neg, Dialect.detect_eq, h]
  · rfl
  · rw [List.isEmpty_iff]
    intro hblank
    rw [blank_of_told?_eq_none_of_trim (trim_eq_nil_of_mem_lines hblank)] at h
    simp at h

/-- What an entity takes its fields from does not depend on the dialect that a blank section would
be read in. -/
theorem given_eq (m : Markers) (body : Text) :
    Entity.given m body =
      TextMap.ofList (((told? (Text.lines body)).getD .colons).entries (Text.lines body)) := by
  unfold Entity.given Entity.dialectOf Dialect.read
  split
  · next hblank =>
    have hlines := trim_eq_nil_of_mem_lines (List.isEmpty_iff.1 hblank)
    rw [entries_of_blank _ hlines, entries_of_blank _ hlines]
  · rfl

theorem given_body (m : Markers) {s : Section} (h : ∀ l ∈ s.lines, '\n' ∉ l) :
    Entity.given m s.body = held s.lines := by
  have hlines : Text.lines s.body = s.lines.map Text.chomp := Text.lines_terminated h
  rw [given_eq, hlines, told?_map Text.trim_chomp]
  rfl

theorem dialectOf_of_told? (m : Markers) {s : Section} (h : ∀ l ∈ s.lines, '\n' ∉ l) {d : Dialect}
    (htold : told? s.lines = some d) : Entity.dialectOf m s.body = d := by
  have hlines : Text.lines s.body = s.lines.map Text.chomp := Text.lines_terminated h
  apply dialectOf_of_told?_lines
  rw [hlines, told?_map Text.trim_chomp, htold]

variable {d : Dialect} {fields : Fields} {ls : List Text}

theorem blockLines_of_not_isEmpty (h : fields.isEmpty = false) :
    blockLines d fields = d.writtenLines fields := by
  unfold blockLines
  rw [h]
  rfl

theorem told?_refilled (hahead : told? (ahead d ls) = none) :
    told? (refilled d fields ls) = told? (blockLines d fields ++ behind d ls) := by
  unfold refilled
  rw [List.append_assoc, told?_append, hahead, Option.none_or]

/-- A section with a block in place of its field lines holds the fields of the block. -/
theorem held_refilled (hahead : told? (ahead d ls) = none) (hblock : d.Survives fields)
    (htold : (told? (blockLines d fields ++ behind d ls)).getD .colons = d) :
    held ((refilled d fields ls).map Text.chomp) = fields := by
  have htrim (l : Text) : Text.trim (Text.chomp (Text.chomp l)) = Text.trim l := by
    rw [Text.trim_chomp, Text.trim_chomp]
  have hclaims :
      ∀ l ∈ (ahead d ls).map (Text.chomp ∘ Text.chomp), d.claims (Text.trim l) = false := by
    intro l hl
    obtain ⟨l', hl', rfl⟩ := List.mem_map.1 hl
    rw [Function.comp_apply, htrim]
    exact claims_ahead_of_told?_eq_none hahead l' hl'
  have hquiet : d.IsQuiet ((behind d ls).map (Text.chomp ∘ Text.chomp)) :=
    (isQuiet_behind d ls).map htrim
  have hlines : (blockLines d fields).map (Text.chomp ∘ Text.chomp) = blockLines d fields := by
    rw [← List.map_map, Text.map_chomp_of_isLine hblock.lines,
      Text.map_chomp_of_isLine hblock.lines]
  have hread : TextMap.ofList (d.entries ((refilled d fields ls).map (Text.chomp ∘ Text.chomp))) =
      fields := by
    unfold refilled
    rw [List.map_append, List.map_append, hlines]
    cases hempty : fields.isEmpty with
    | true =>
      have hnil : blockLines d fields = [] := by
        unfold blockLines
        rw [if_pos hempty]
      rw [hnil, List.append_nil, entries_eq_nil (IsQuiet.append hclaims hquiet),
        TextMap.isEmpty_iff.1 hempty]
      rfl
    | false =>
      rw [entries_around hclaims hquiet fun hd ↦ hblock.block hd hempty, hblock.read]
  unfold held
  rw [told?_map Text.trim_chomp, told?_refilled hahead, htold, List.map_map, hread]

end Section

end Markbook
