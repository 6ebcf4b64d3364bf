import Markbook.Dialect.Read
import Markbook.Proofs.Text.Lines

/-!
# What Lines Give Away

The dialect of a section is the one its first telling line gives away (`Dialect.told?`).  A line
that gives away a dialect is claimed by it, so a line outside the mask of a dialect either gives
nothing away or gives away another one.  Lines that a dialect does not claim hold no fields in it,
and reading a block of field lines between such lines reads the block (`Dialect.entries_around`).
-/

namespace Markbook.Dialect

/-- The dialect that the first telling line gives away. -/
def told? (ls : List Text) : Option Dialect := ls.findSome? fun l ↦ ofLine? (Text.trim l)

theorem detect_eq (s : Text) : detect s = (told? (Text.lines s)).getD .colons := rfl

theorem told?_append (a b : List Text) : told? (a ++ b) = (told? a).or (told? b) :=
  List.findSome?_append

theorem told?_cons (l : Text) (r : List Text) :
    told? (l :: r) = (ofLine? (Text.trim l)).or (told? r) := by
  unfold told?
  rw [List.findSome?_cons]
  cases ofLine? (Text.trim l) <;> rfl

theorem told?_eq_none_iff {ls : List Text} :
    told? ls = none ↔ ∀ l ∈ ls, ofLine? (Text.trim l) = none := by
  unfold told?
  rw [List.findSome?_eq_none_iff]

/-- Only the trimmed lines count. -/
theorem told?_map {f : Text → Text} (hf : ∀ l, Text.trim (f l) = Text.trim l) (ls : List Text) :
    told? (ls.map f) = told? ls := by
  unfold told?
  rw [List.findSome?_map]
  congr 1
  funext l
  simp [hf]

/-! ## Claims -/

/-- A line that gives a dialect away is claimed by it. -/
theorem claims_of_ofLine? {d : Dialect} {line : Text} (h : ofLine? line = some d) :
    d.claims line = true := by
  unfold ofLine? at h
  split at h
  · next hf =>
    obtain rfl := Option.some.inj h
    exact hf
  · split at h
    · next hm =>
      obtain rfl := Option.some.inj h
      exact hm
    · split at h
      · next hc =>
        obtain rfl := Option.some.inj h
        unfold claims Text.has
        cases hk : Text.cut? mark line with
        | none => simp [hk] at hc
        | some p => simp
      · split at h
        · next hb =>
          obtain rfl := Option.some.inj h
          unfold claims
          cases hk : bareKey? line with
          | none => simp [hk] at hb
          | some k => simp
        · split at h
          · next hr =>
            obtain rfl := Option.some.inj h
            simp only [Bool.and_eq_true] at hr
            exact hr.1
          · simp at h

/-- A line that is blank gives nothing away. -/
theorem ofLine?_nil : ofLine? [] = none := by decide

theorem blank_of_told?_eq_none_of_trim {ls : List Text} (h : ∀ l ∈ ls, Text.trim l = []) :
    told? ls = none := by
  rw [told?_eq_none_iff]
  intro l hl
  rw [h l hl, ofLine?_nil]

/-! ## Lines without fields -/

theorem colonsField?_eq_none {l : Text} (h : Dialect.colons.claims (Text.trim l) = false) :
    colonsField? l = none := by
  simp only [claims, Bool.or_eq_false_iff, Text.has, Option.isSome_eq_false_iff,
    Option.isNone_iff_eq_none] at h
  simp [colonsField?, h.1, h.2]

theorem packedEntries_eq_nil {l : Text} (h : Dialect.packed.claims (Text.trim l) = false) :
    packedEntries l = [] := by
  simp only [claims] at h
  simp [packedEntries, Text.after?, h]

theorem tableEntries_eq_nil {ls : List Text} (h : ∀ l ∈ ls, isRow (Text.trim l) = false)
    (state : TableState) : tableEntries state ls = [] := by
  induction ls with
  | nil => cases state <;> rfl
  | cons l r ih =>
    rw [List.forall_mem_cons] at h
    unfold tableEntries
    simp only [h.1, Bool.not_false, if_true]
    cases state
    · exact ih h.2
    · rfl
    · rfl

/-- Rows alone are read as they would be in front of other lines that are no rows. -/
theorem tableEntries_append {c : List Text} (h : ∀ l ∈ c, isRow (Text.trim l) = false)
    (state : TableState) (ls : List Text) :
    tableEntries state (ls ++ c) = tableEntries state ls := by
  induction ls generalizing state with
  | nil =>
    rw [List.nil_append, tableEntries_eq_nil h state]
    cases state <;> rfl
  | cons l r ih =>
    rw [List.cons_append]
    cases state <;> simp only [tableEntries, ih]

theorem tableEntries_outside_append {a : List Text} (h : ∀ l ∈ a, isRow (Text.trim l) = false)
    (ls : List Text) : tableEntries .outside (a ++ ls) = tableEntries .outside ls := by
  induction a with
  | nil => rfl
  | cons l r ih =>
    rw [List.forall_mem_cons] at h
    rw [List.cons_append, tableEntries]
    simp only [h.1, Bool.not_false, if_true]
    exact ih h.2

/-! ## Fences -/

/-- The number of fences among some lines. -/
def fences (ls : List Text) : Nat := ls.countP fun l ↦ isFence (Text.trim l)

theorem fences_append (a b : List Text) : fences (a ++ b) = fences a + fences b :=
  List.countP_append

theorem fences_cons (l : Text) (r : List Text) :
    fences (l :: r) = fences r + if isFence (Text.trim l) then 1 else 0 := by
  unfold fences
  rw [List.countP_cons]

theorem fences_map {f : Text → Text} (hf : ∀ l, Text.trim (f l) = Text.trim l) (ls : List Text) :
    fences (ls.map f) = fences ls := by
  unfold fences
  rw [List.countP_map]
  congr 1
  funext l
  simp [hf]

theorem fences_eq_zero_iff {ls : List Text} :
    fences ls = 0 ↔ ∀ l ∈ ls, isFence (Text.trim l) = false := by
  unfold fences
  simp [List.countP_eq_zero]

/-- A block needs two fences. -/
theorem blocks_eq_nil_of_open {inside c : List Text} (h : fences c = 0) :
    blocks (some inside) c = [] := by
  induction c generalizing inside with
  | nil => rfl
  | cons l r ih =>
    rw [fences_eq_zero_iff, List.forall_mem_cons] at h
    rw [blocks, if_neg (by simp [h.1])]
    exact ih (fences_eq_zero_iff.2 h.2)

theorem blocks_eq_nil {c : List Text} (h : fences c ≤ 1) : blocks none c = [] := by
  induction c with
  | nil => rfl
  | cons l r ih =>
    rw [fences_cons] at h
    rw [blocks]
    split
    · next hf =>
      rw [if_pos hf] at h
      exact blocks_eq_nil_of_open (by omega)
    · next hf =>
      rw [if_neg hf] at h
      exact ih h

theorem blocks_append {a : List Text} (h : fences a = 0) (ls : List Text) :
    blocks none (a ++ ls) = blocks none ls := by
  induction a with
  | nil => rfl
  | cons l r ih =>
    rw [fences_eq_zero_iff, List.forall_mem_cons] at h
    rw [List.cons_append, blocks, if_neg (by simp [h.1])]
    exact ih (fences_eq_zero_iff.2 h.2)

theorem blocks_open_append {inner : List Text} (h : fences inner = 0) {l : Text}
    (hl : isFence (Text.trim l)) (inside c : List Text) :
    blocks (some inside) (inner ++ l :: c) = (inside.reverse ++ inner) :: blocks none c := by
  induction inner generalizing inside with
  | nil => simp [blocks, hl]
  | cons m r ih =>
    rw [fences_eq_zero_iff, List.forall_mem_cons] at h
    rw [List.cons_append, blocks, if_neg (by simp [h.1]), ih (fences_eq_zero_iff.2 h.2)]
    simp

/-! ## A block between other lines -/

/-- Lines behind a block that add nothing to it. -/
def IsQuiet (d : Dialect) (ls : List Text) : Prop :=
  match d with
  | .fenced => fences ls ≤ 1
  | d => ∀ l ∈ ls, d.claims (Text.trim l) = false

theorem IsQuiet.map {d : Dialect} {ls : List Text} (h : d.IsQuiet ls) {f : Text → Text}
    (hf : ∀ l, Text.trim (f l) = Text.trim l) : d.IsQuiet (ls.map f) := by
  cases d
  case fenced =>
    unfold IsQuiet at *
    rw [fences_map hf]
    exact h
  all_goals
    intro l hl
    obtain ⟨m, hm, rfl⟩ := List.mem_map.1 hl
    rw [hf]
    exact h m hm

theorem entries_eq_nil {d : Dialect} {ls : List Text} (h : d.IsQuiet ls) : d.entries ls = [] := by
  cases d with
  | colons => exact List.filterMap_eq_nil_iff.2 fun l hl ↦ colonsField?_eq_none (h l hl)
  | packed => exact List.flatMap_eq_nil_iff.2 fun l hl ↦ packedEntries_eq_nil (h l hl)
  | table => exact tableEntries_eq_nil h .outside
  | fenced =>
    unfold entries
    rw [blocks_eq_nil h]
    rfl

/-- The fences and the lines between them are one block. -/
def IsBlock (ls : List Text) : Prop :=
  ∃ inner, fences inner = 0 ∧ ls = ['-', '-', '-'] :: inner ++ [['-', '-', '-']]

/-- A block is read on its own when the lines in front of it hold nothing.  A table is not: the rows
behind it would go on with it. -/
theorem entries_append_block {d : Dialect} (hd : d ≠ .table) {a block : List Text}
    (ha : ∀ l ∈ a, d.claims (Text.trim l) = false) (hblock : d = .fenced → IsBlock block)
    (c : List Text) : d.entries (a ++ block ++ c) = d.entries block ++ d.entries c := by
  cases d with
  | table => exact absurd rfl hd
  | colons =>
    have hleft : a.filterMap colonsField? = [] :=
      List.filterMap_eq_nil_iff.2 fun l hl ↦ colonsField?_eq_none (ha l hl)
    simp [entries, hleft]
  | packed =>
    have hleft : a.flatMap packedEntries = [] :=
      List.flatMap_eq_nil_iff.2 fun l hl ↦ packedEntries_eq_nil (ha l hl)
    simp [entries, hleft]
  | fenced =>
    obtain ⟨inner, hinner, rfl⟩ := hblock rfl
    have hfence : isFence (Text.trim ['-', '-', '-']) = true := by decide
    have hread (c : List Text) :
        blocks none (['-', '-', '-'] :: inner ++ [['-', '-', '-']] ++ c) =
          inner :: blocks none c := by
      rw [List.cons_append, List.cons_append, List.append_assoc, blocks, if_pos hfence,
        List.singleton_append, blocks_open_append hinner hfence]
      rfl
    have halone := hread []
    rw [List.append_nil] at halone
    unfold entries
    rw [List.append_assoc, blocks_append (fences_eq_zero_iff.2 ha), hread c, halone,
      List.flatMap_cons, List.flatMap_cons]
    simp [blocks]

/-- A block is read alone when the lines in front of it hold nothing and those behind add
nothing. -/
theorem entries_around {d : Dialect} {a block c : List Text}
    (ha : ∀ l ∈ a, d.claims (Text.trim l) = false) (hc : d.IsQuiet c)
    (hblock : d = .fenced → IsBlock block) : d.entries (a ++ block ++ c) = d.entries block := by
  by_cases hd : d = .table
  · subst hd
    unfold entries
    rw [List.append_assoc, tableEntries_outside_append ha, tableEntries_append hc]
  · rw [entries_append_block hd ha hblock, entries_eq_nil hc, List.append_nil]

end Markbook.Dialect
