import Markbook.Proofs.Dialect.Kept
import Markbook.Proofs.Section.Joined

/-!
# The Field Lines of a Section

A rewrite takes the lines that the mask of a dialect marks out of a section and leaves the other
ones in place.  The lines that stay hold no fields (`Dialect.entries_otherLines`).  The lines that
are taken out hold all fields of the section, and nothing else does, except in tables
(`Dialect.entries_fieldLines`): the mask marks the rows of every table, and only the first table of
a section is read.  Without the lines between them, the rows of the later tables go on with the
first.
-/

namespace Markbook.Dialect

/-- The lines that a mask takes in. -/
def marked (pairs : List (Text × Bool)) : List Text := (pairs.filter fun p ↦ p.2).map (·.1)

/-- The lines of a section that hold field data, as the mask has it. -/
def fieldLines (d : Dialect) (ls : List Text) : List Text := marked (ls.zip (d.mask ls))

/-- The lines of a section that the mask leaves out. -/
def otherLines (d : Dialect) (ls : List Text) : List Text := unmarked (ls.zip (d.mask ls))

variable {d : Dialect} {ls : List Text}

/-! ## One line at a time -/

theorem fieldLines_eq_filter (h : d ≠ .fenced) (ls : List Text) :
    d.fieldLines ls = ls.filter fun l ↦ d.claims (Text.trim l) := by
  unfold fieldLines marked
  rw [mask_eq_map h, zip_map_self, List.filter_map, List.map_map]
  exact List.map_id _

theorem otherLines_eq_filter (h : d ≠ .fenced) (ls : List Text) :
    d.otherLines ls = ls.filter fun l ↦ !d.claims (Text.trim l) := by
  unfold otherLines unmarked
  rw [mask_eq_map h, zip_map_self, List.filter_map, List.map_map]
  exact List.map_id _

/-- Lines without entries may be left out. -/
theorem flatMap_filter {f : Text → List (Text × Text)} {p : Text → Bool}
    (h : ∀ l, p l = false → f l = []) (ls : List Text) :
    (ls.filter p).flatMap f = ls.flatMap f := by
  induction ls with
  | nil => rfl
  | cons l r ih =>
    rw [List.flatMap_cons]
    cases hl : p l with
    | true => rw [List.filter_cons_of_pos hl, List.flatMap_cons, ih]
    | false => rw [List.filter_cons_of_neg (by simp [hl]), ih, h l hl, List.nil_append]

/-! ## Tables -/

/-- Where the reader of a table stands behind a row with these cells. -/
def TableState.next (state : TableState) (row : List Text) : TableState :=
  if row.length < 4 then state
  else
    match state with
    | .outside => .headed
    | .headed => if isRule row then .ruled else .headed
    | .ruled => .ruled

/-- What a row with these cells adds to the fields. -/
def TableState.entry (state : TableState) (row : List Text) : List (Text × Text) :=
  if row.length < 4 then []
  else
    match state with
    | .outside => []
    | .headed => if isRule row then [] else (rowField? row).toList
    | .ruled => (rowField? row).toList

theorem tableEntries_cons_row {l : Text} (h : isRow (Text.trim l) = true) (state : TableState)
    (r : List Text) :
    tableEntries state (l :: r) = state.entry (cells (Text.trim l)) ++
      tableEntries (state.next (cells (Text.trim l))) r := by
  unfold TableState.entry TableState.next
  cases state <;> simp only [tableEntries, h, Bool.not_true, Bool.false_eq_true, if_false]
  · split <;> rfl
  · split
    · rfl
    · split <;> rfl
  · split <;> rfl

/-- Reads to the end of the first table: where the reader stands there, and the lines behind it. -/
def pastTable : TableState → List Text → TableState × List Text
  | state, [] => (state, [])
  | state, l :: r =>
    if isRow (Text.trim l) then pastTable (state.next (cells (Text.trim l))) r
    else
      match state with
      | .outside => pastTable .outside r
      | .headed => (.headed, r)
      | .ruled => (.ruled, r)

theorem pastTable_cons_row {l : Text} (h : isRow (Text.trim l) = true) (state : TableState)
    (r : List Text) :
    pastTable state (l :: r) = pastTable (state.next (cells (Text.trim l))) r := by
  cases state <;> rw [pastTable, if_pos h]

/-- The entries of the rows behind the first table, read on as rows of it. -/
def strayRows (state : TableState) (ls : List Text) : List (Text × Text) :=
  tableEntries (pastTable state ls).1 ((pastTable state ls).2.filter fun l ↦ isRow (Text.trim l))

/-- The rows alone are read as one table. -/
theorem tableEntries_filter (state : TableState) (ls : List Text) :
    tableEntries state (ls.filter fun l ↦ isRow (Text.trim l)) =
      tableEntries state ls ++ strayRows state ls := by
  unfold strayRows
  induction ls generalizing state with
  | nil => cases state <;> rfl
  | cons l r ih =>
    by_cases hl : isRow (Text.trim l) = true
    · have hkeep : (l :: r).filter (fun l ↦ isRow (Text.trim l)) =
          l :: r.filter fun l ↦ isRow (Text.trim l) := List.filter_cons_of_pos hl
      rw [hkeep, tableEntries_cons_row hl, tableEntries_cons_row hl, pastTable_cons_row hl, ih,
        List.append_assoc]
    · have hdrop : (l :: r).filter (fun l ↦ isRow (Text.trim l)) =
          r.filter fun l ↦ isRow (Text.trim l) := List.filter_cons_of_neg hl
      rw [hdrop]
      -- A line that is no row ends the table, if one has begun.
      cases state with
      | outside =>
        have hskip : tableEntries .outside (l :: r) = tableEntries .outside r := by
          simp [tableEntries, hl]
        rw [hskip, ih, pastTable, if_neg hl]
      | headed => simp [tableEntries, pastTable, hl]
      | ruled => simp [tableEntries, pastTable, hl]

theorem strayRows_map {f : Text → Text} (hf : ∀ l, Text.trim (f l) = Text.trim l)
    (state : TableState) (ls : List Text) : strayRows state (ls.map f) = strayRows state ls := by
  have hrow (state : TableState) (ls : List Text) :
      tableEntries state (ls.map f) = tableEntries state ls := by
    induction ls generalizing state with
    | nil => rfl
    | cons l r ih => cases state <;> simp only [List.map_cons, tableEntries, hf, ih]
  have hpast (state : TableState) (ls : List Text) :
      pastTable state (ls.map f) = ((pastTable state ls).1, (pastTable state ls).2.map f) := by
    induction ls generalizing state with
    | nil => cases state <;> rfl
    | cons l r ih =>
      by_cases hl : isRow (Text.trim l) = true
      · have hfl : isRow (Text.trim (f l)) = true := by rw [hf, hl]
        rw [List.map_cons, pastTable_cons_row hfl, pastTable_cons_row hl, hf, ih]
      · cases state with
        | outside => simp only [List.map_cons, pastTable, hf, hl, if_false, ih, Bool.false_eq_true]
        | headed => simp only [List.map_cons, pastTable, hf, hl, if_false, Bool.false_eq_true]
        | ruled => simp only [List.map_cons, pastTable, hf, hl, if_false, Bool.false_eq_true]
  unfold strayRows
  rw [hpast]
  simp only [List.filter_map, hrow]
  congr 2
  funext l
  simp [hf]

/-! ## Fences -/

theorem marked_cons (l : Text) (b : Bool) (pairs : List (Text × Bool)) :
    marked ((l, b) :: pairs) = if b then l :: marked pairs else marked pairs := by
  unfold marked
  cases b <;> rfl

theorem fences_marked_le (pairs : List (Text × Bool)) :
    fences (marked pairs) ≤ fences (pairs.map (·.1)) := by
  unfold fences marked
  exact (List.filter_sublist.map _).countP_le

/-- A mask keeps closed blocks as they are; a fence that nothing closes opens none. -/
theorem blocks_fieldLines (inside : Option (List Text)) (ls : List Text) :
    blocks inside (marked (ls.zip (fencedMask inside.isSome ls))) = blocks inside ls := by
  induction ls generalizing inside with
  | nil => cases inside <;> rfl
  | cons l r ih =>
    cases inside with
    | some block =>
      have hnext := ih (if isFence (Text.trim l) then none else some (l :: block))
      rw [Option.isSome_some, fencedMask, List.zip_cons_cons, marked_cons, if_pos rfl, blocks,
        blocks]
      split at hnext
      · next hl => simpa [hl] using hnext
      · next hl => simpa [hl] using hnext
    | none =>
      rw [Option.isSome_none, fencedMask, List.zip_cons_cons, marked_cons]
      by_cases hl : isFence (Text.trim l) = true
      · cases hcloses : r.any fun l ↦ isFence (Text.trim l) with
        | true =>
          have hnext := ih (some [])
          simpa [hl, blocks] using hnext
        | false =>
          have hnone : fences r = 0 := by
            rw [fences_eq_zero_iff]
            simpa using hcloses
          have hmarked : fences (marked (r.zip (fencedMask false r))) = 0 := by
            have hle := fences_marked_le (r.zip (fencedMask false r))
            rw [List.map_fst_zip (by rw [length_fencedMask]), hnone] at hle
            omega
          have hopen : blocks (some []) r = [] := blocks_eq_nil_of_open hnone
          rw [blocks, if_pos hl, hopen, hl]
          simp only [Bool.and_false, Bool.false_eq_true, if_false]
          exact blocks_eq_nil (by omega)
      · have hnext := ih none
        simpa [hl, blocks] using hnext

/-! ## All dialects -/

/-- What the field lines of a section say that the section does not. -/
def strayEntries (d : Dialect) (ls : List Text) : List (Text × Text) :=
  match d with
  | .table => strayRows .outside ls
  | _ => []

/-- The field lines hold the entries of the section and, behind them, the stray ones. -/
theorem entries_fieldLines (d : Dialect) (ls : List Text) :
    d.entries (d.fieldLines ls) = d.entries ls ++ d.strayEntries ls := by
  cases d with
  | colons =>
    have hempty : ∀ l, Dialect.colons.claims (Text.trim l) = false → (colonsField? l).toList = [] :=
      fun l hl ↦ by rw [colonsField?_eq_none hl, Option.toList_none]
    unfold entries
    rw [fieldLines_eq_filter (by simp), List.filterMap_eq_flatMap_toList,
      List.filterMap_eq_flatMap_toList, flatMap_filter hempty]
    exact (List.append_nil _).symm
  | packed =>
    unfold entries
    rw [fieldLines_eq_filter (by simp), flatMap_filter fun l hl ↦ packedEntries_eq_nil hl]
    exact (List.append_nil _).symm
  | table =>
    unfold entries
    rw [fieldLines_eq_filter (by simp)]
    exact tableEntries_filter .outside ls
  | fenced =>
    have hblocks : blocks none (Dialect.fenced.fieldLines ls) = blocks none ls :=
      blocks_fieldLines none ls
    unfold entries
    rw [hblocks]
    exact (List.append_nil _).symm

theorem isQuiet_otherLines (d : Dialect) (ls : List Text) : d.IsQuiet (d.otherLines ls) := by
  by_cases h : d = .fenced
  · subst h
    exact fences_unmarked_le false ls
  · apply isQuiet_of_claims
    intro l hl
    rw [otherLines_eq_filter h, List.mem_filter] at hl
    simpa using hl.2

/-- The other lines hold nothing. -/
theorem entries_otherLines (d : Dialect) (ls : List Text) : d.entries (d.otherLines ls) = [] :=
  entries_eq_nil (isQuiet_otherLines d ls)

/-! ## As texts -/

theorem mask_map {f : Text → Text} (hf : ∀ l, Text.trim (f l) = Text.trim l) (d : Dialect)
    (ls : List Text) : d.mask (ls.map f) = d.mask ls := by
  have hfenced (inside : Bool) (ls : List Text) :
      fencedMask inside (ls.map f) = fencedMask inside ls := by
    induction ls generalizing inside with
    | nil => cases inside <;> rfl
    | cons l r ih => cases inside <;> simp [fencedMask, hf, ih, List.any_map, Function.comp_def]
  cases d with
  | fenced => exact hfenced false ls
  | colons => simp [mask, hf]
  | packed => simp [mask, hf]
  | table => simp [mask, hf]

theorem fieldLines_map {f : Text → Text} (hf : ∀ l, Text.trim (f l) = Text.trim l) (d : Dialect)
    (ls : List Text) : d.fieldLines (ls.map f) = (d.fieldLines ls).map f := by
  unfold fieldLines marked
  rw [mask_map hf, List.zip_map_left, List.filter_map, List.map_map, List.map_map]
  rfl

theorem strayEntries_map {f : Text → Text} (hf : ∀ l, Text.trim (f l) = Text.trim l) (d : Dialect)
    (ls : List Text) : d.strayEntries (ls.map f) = d.strayEntries ls := by
  cases d with
  | table => exact strayRows_map hf .outside ls
  | colons => rfl
  | packed => rfl
  | fenced => rfl

theorem mem_of_mem_fieldLines {l : Text} (h : l ∈ d.fieldLines ls) : l ∈ ls := by
  obtain ⟨p, hp, rfl⟩ := List.mem_map.1 h
  rw [← map_fst_zip_mask d ls]
  exact List.mem_map_of_mem (List.mem_of_mem_filter hp)

theorem mem_of_mem_otherLines {l : Text} (h : l ∈ d.otherLines ls) : l ∈ ls := by
  obtain ⟨p, hp, rfl⟩ := List.mem_map.1 h
  rw [← map_fst_zip_mask d ls]
  exact List.mem_map_of_mem (List.mem_of_mem_filter hp)

theorem read_unlines (d : Dialect) (h : ∀ l ∈ ls, '\n' ∉ l) :
    d.read (Text.unlines ls) = TextMap.ofList (d.entries (ls.map Text.chomp)) := by
  unfold read
  rw [entries_lines_unlines d h]

theorem read_fieldLines (d : Dialect) (h : ∀ l ∈ ls, '\n' ∉ l) :
    d.read (Text.unlines (d.fieldLines ls)) =
      TextMap.ofList (d.entries (ls.map Text.chomp) ++ d.strayEntries ls) := by
  rw [read_unlines d fun l hl ↦ h l (mem_of_mem_fieldLines hl), ← fieldLines_map Text.trim_chomp,
    entries_fieldLines, strayEntries_map Text.trim_chomp]

theorem read_otherLines (d : Dialect) (h : ∀ l ∈ ls, '\n' ∉ l) :
    d.read (Text.unlines (d.otherLines ls)) = .empty := by
  rw [read_unlines d fun l hl ↦ h l (mem_of_mem_otherLines hl), entries_eq_nil]
  · rfl
  · exact (isQuiet_otherLines d ls).map Text.trim_chomp

/-- What a rewrite takes out of a section and what it leaves there.  The lines that it leaves hold
no fields.  The lines that it takes out hold the fields of the section, in every dialect but the
table; in that one exactly when the rows behind the first table, read on as rows of it, say nothing
that the section does not. -/
theorem read_fieldLines_iff (d : Dialect) (h : ∀ l ∈ ls, '\n' ∉ l) :
    d.read (Text.unlines (d.otherLines ls)) = .empty ∧
      (d ≠ .table → d.read (Text.unlines (d.fieldLines ls)) = d.read (Text.unlines ls)) ∧
      (d.read (Text.unlines (d.fieldLines ls)) = d.read (Text.unlines ls) ↔
        ∀ k v, (TextMap.ofList (d.strayEntries ls)).get? k = some v →
          (d.read (Text.unlines ls)).get? k = some v) := by
  have hread := read_unlines d h
  have hfields := read_fieldLines d h
  refine ⟨read_otherLines d h, fun hd ↦ ?_, ?_⟩
  · have hstray : d.strayEntries ls = [] := by
      cases d with
      | table => exact absurd rfl hd
      | colons => rfl
      | packed => rfl
      | fenced => rfl
    rw [hfields, hread, hstray, List.append_nil]
  · rw [hfields, hread]
    exact TextMap.ofList_append_eq_iff

/-- A table, and below it one of its rows once more. -/
def repeated : List Text :=
  ["| Field | Value |", "|---|---|", "| Owner | amy |", "Also:", "| Owner | amy |"]

/-- A row that only repeats the table may be taken out with it. -/
theorem read_fieldLines_repeated :
    (∀ l ∈ repeated, '\n' ∉ l) ∧
      Dialect.table.fieldLines repeated ≠ repeated ∧
      Dialect.table.strayEntries repeated ≠ [] ∧
      Dialect.table.read (Text.unlines (Dialect.table.fieldLines repeated)) =
        Dialect.table.read (Text.unlines repeated) := by
  have hlines : ∀ l ∈ repeated, '\n' ∉ l := by decide
  have hstray : Dialect.table.strayEntries repeated = [("Owner".toList, "amy".toList)] := by
    decide +kernel
  have hread : (Dialect.table.read (Text.unlines repeated)).get? "Owner" = some "amy".toList := by
    decide +kernel
  refine ⟨hlines, by decide +kernel, by simp [hstray], ?_⟩
  refine (read_fieldLines_iff .table hlines).2.2.2 fun k v hget ↦ ?_
  rw [hstray] at hget
  obtain ⟨rfl, rfl⟩ : k = "Owner".toList ∧ v = "amy".toList := by
    simpa using TextMap.mem_of_get?_ofList hget
  exact hread

/-- A table of fields, and below it a table of something else. -/
def tables : List Text :=
  ["| Field | Value |", "|---|---|", "| Owner | amy |", "Estimate:", "| Part | Days |", "|---|---|",
    "| Login | 3 |"]

/-- The rows of a second table are taken out although they are not read. -/
theorem not_read_fieldLines_tables :
    (∀ l ∈ tables, '\n' ∉ l) ∧ "| Login | 3 |".toList ∈ Dialect.table.fieldLines tables ∧
      (Dialect.table.read (Text.unlines tables)).entries = [("Owner".toList, "amy".toList)] ∧
      Dialect.table.read (Text.unlines (Dialect.table.fieldLines tables)) ≠
        Dialect.table.read (Text.unlines tables) := by
  decide +kernel

end Markbook.Dialect
