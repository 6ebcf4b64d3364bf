import Markbook.Proofs.Dialect.Told
import Markbook.Store.Rewrite

/-!
# Lines Around a Written Block

Write-back puts one block in the place of the field lines of a section.  The lines that stay are
those `ahead` of the first field line and those `behind` it.  A section that was read in a line
dialect is open to a block of that dialect: nothing ahead of the block gives another dialect away
(`Dialect.told?_ahead_of_told?`).  For fenced blocks that takes a fence that is closed.
-/

namespace Markbook

namespace Dialect

/-- The lines of a section in front of its first field line. -/
def ahead (d : Dialect) (ls : List Text) : List Text :=
  ((ls.zip (d.mask ls)).takeWhile fun p ↦ !p.2).map (·.1)

/-- The lines behind the first field line that hold no field. -/
def behind (d : Dialect) (ls : List Text) : List Text :=
  (((ls.zip (d.mask ls)).dropWhile fun p ↦ !p.2).filter fun p ↦ !p.2).map (·.1)

/-! ## Masks -/

theorem mask_eq_map {d : Dialect} (h : d ≠ .fenced) (ls : List Text) :
    d.mask ls = ls.map fun l ↦ d.claims (Text.trim l) := by
  cases d with
  | fenced => exact absurd rfl h
  | colons => rfl
  | packed => rfl
  | table => rfl

theorem zip_map_self {α β : Type} (f : α → β) (l : List α) :
    l.zip (l.map f) = l.map fun a ↦ (a, f a) := by
  induction l with
  | nil => rfl
  | cons a r ih => simp [ih]

theorem length_fencedMask (inside : Bool) (ls : List Text) :
    (fencedMask inside ls).length = ls.length := by
  induction ls generalizing inside with
  | nil => cases inside <;> rfl
  | cons l r ih => cases inside <;> simp [fencedMask, ih]

theorem length_mask (d : Dialect) (ls : List Text) : (d.mask ls).length = ls.length := by
  cases d <;> simp [mask, length_fencedMask]

theorem map_fst_zip_mask (d : Dialect) (ls : List Text) :
    (ls.zip (d.mask ls)).map (·.1) = ls := by
  rw [List.map_fst_zip]
  rw [length_mask]

/-- What is ahead begins the section. -/
theorem exists_ahead_append (d : Dialect) (ls : List Text) : ∃ r, ls = ahead d ls ++ r := by
  refine ⟨((ls.zip (d.mask ls)).dropWhile fun p ↦ !p.2).map (·.1), ?_⟩
  unfold ahead
  rw [← List.map_append, List.takeWhile_append_dropWhile, map_fst_zip_mask]

theorem mem_of_mem_ahead {d : Dialect} {ls : List Text} {l : Text} (h : l ∈ ahead d ls) :
    l ∈ ls := by
  obtain ⟨r, hr⟩ := exists_ahead_append d ls
  rw [hr]
  exact List.mem_append_left _ h

theorem mem_of_mem_behind {d : Dialect} {ls : List Text} {l : Text} (h : l ∈ behind d ls) :
    l ∈ ls := by
  unfold behind at h
  obtain ⟨p, hp, rfl⟩ := List.mem_map.1 h
  have hzip := (List.dropWhile_suffix _).subset (List.mem_of_mem_filter hp)
  rw [← map_fst_zip_mask d ls]
  exact List.mem_map_of_mem hzip

theorem claims_eq_false_of_mem {d : Dialect} (h : d ≠ .fenced) {ls : List Text} {p : Text × Bool}
    (hp : p ∈ ls.zip (d.mask ls)) (hfalse : p.2 = false) : d.claims (Text.trim p.1) = false := by
  rw [mask_eq_map h, zip_map_self] at hp
  obtain ⟨l, -, rfl⟩ := List.mem_map.1 hp
  exact hfalse

theorem claims_ahead {d : Dialect} (h : d ≠ .fenced) {ls : List Text} {l : Text}
    (hl : l ∈ ahead d ls) : d.claims (Text.trim l) = false := by
  unfold ahead at hl
  obtain ⟨p, hp, rfl⟩ := List.mem_map.1 hl
  refine claims_eq_false_of_mem h ((List.takeWhile_subset _) hp) ?_
  simpa using List.mem_takeWhile_imp hp

theorem claims_behind {d : Dialect} (h : d ≠ .fenced) {ls : List Text} {l : Text}
    (hl : l ∈ behind d ls) : d.claims (Text.trim l) = false := by
  unfold behind at hl
  obtain ⟨p, hp, rfl⟩ := List.mem_map.1 hl
  obtain ⟨hmem, hfalse⟩ := List.mem_filter.1 hp
  exact claims_eq_false_of_mem h ((List.dropWhile_suffix _).subset hmem) (by simpa using hfalse)

/-! ## Fences that stay -/

/-- The lines that a mask leaves out. -/
def unmarked (pairs : List (Text × Bool)) : List Text :=
  (pairs.filter fun p ↦ !p.2).map (·.1)

theorem unmarked_append (a b : List (Text × Bool)) :
    unmarked (a ++ b) = unmarked a ++ unmarked b := by
  unfold unmarked
  rw [List.filter_append, List.map_append]

theorem unmarked_map_false (ls : List Text) : unmarked (ls.map (·, false)) = ls := by
  induction ls with
  | nil => rfl
  | cons l r ih => exact congrArg (l :: ·) ih

/-- Of the fences of a section at most one stays: the last, when nothing closes it. -/
theorem fences_unmarked_le (inside : Bool) (ls : List Text) :
    fences (unmarked (ls.zip (fencedMask inside ls))) ≤ 1 := by
  induction ls generalizing inside with
  | nil => cases inside <;> decide
  | cons l r ih =>
    cases inside with
    | true =>
      have hstep : unmarked ((l :: r).zip (fencedMask true (l :: r))) =
          unmarked (r.zip (fencedMask (!isFence (Text.trim l)) r)) := by
        simp [unmarked, fencedMask]
      rw [hstep]
      exact ih _
    | false =>
      by_cases hopens : isFence (Text.trim l) && r.any fun l ↦ isFence (Text.trim l)
      · have hstep : unmarked ((l :: r).zip (fencedMask false (l :: r))) =
            unmarked (r.zip (fencedMask true r)) := by
          simp [unmarked, fencedMask, hopens]
        rw [hstep]
        exact ih _
      · have hstep : unmarked ((l :: r).zip (fencedMask false (l :: r))) =
            l :: unmarked (r.zip (fencedMask false r)) := by
          simp [unmarked, fencedMask, hopens]
        rw [hstep, fences_cons]
        by_cases hl : isFence (Text.trim l)
        · have hr : fences r = 0 := by
            rw [fences_eq_zero_iff]
            intro m hm
            simp only [hl, Bool.true_and, List.any_eq_true, not_exists, not_and] at hopens
            simpa using hopens m hm
          have hsub : fences (unmarked (r.zip (fencedMask false r))) ≤ fences r := by
            refine List.Sublist.countP_le ?_
            have := (List.filter_sublist (p := fun p : Text × Bool ↦ !p.2)
              (l := r.zip (fencedMask false r))).map (·.1)
            rwa [List.map_fst_zip (by rw [length_fencedMask])] at this
          rw [if_pos hl]
          omega
        · rw [if_neg hl]
          exact ih false

theorem ahead_append_behind (d : Dialect) (ls : List Text) :
    ahead d ls ++ behind d ls = unmarked (ls.zip (d.mask ls)) := by
  unfold ahead behind unmarked
  rw [← List.map_append]
  congr 1
  conv_rhs => rw [← List.takeWhile_append_dropWhile (p := fun p : Text × Bool ↦ !p.2)
    (l := ls.zip (d.mask ls)), List.filter_append]
  congr 1
  rw [List.filter_eq_self.2]
  intro q hq
  exact List.mem_takeWhile_imp (p := fun q : Text × Bool ↦ !q.2) hq

theorem isQuiet_behind (d : Dialect) (ls : List Text) : d.IsQuiet (behind d ls) := by
  by_cases h : d = .fenced
  · subst h
    have hle := fences_unmarked_le false ls
    have happend := ahead_append_behind .fenced ls
    unfold mask at happend
    rw [← happend, fences_append] at hle
    exact (Nat.le_add_left _ _).trans hle
  · have hline : ∀ l ∈ behind d ls, d.claims (Text.trim l) = false := fun l hl ↦ claims_behind h hl
    cases d with
    | fenced => exact absurd rfl h
    | colons => exact hline
    | packed => exact hline
    | table => exact hline

/-! ## Open sections -/

theorem claims_of_told? {d : Dialect} {ls : List Text} (h : told? ls = some d) :
    ∃ l ∈ ls, d.claims (Text.trim l) = true := by
  obtain ⟨l, hl, hd⟩ := List.exists_of_findSome?_eq_some h
  exact ⟨l, hl, claims_of_ofLine? hd⟩

/-- Nothing ahead of the first field line gives another dialect away than the section does. -/
theorem told?_ahead_of_told? {d : Dialect} {ls : List Text}
    (hclaims : ∀ l ∈ ahead d ls, d.claims (Text.trim l) = false)
    (h : told? ls = some d ∨ told? ls = none) : told? (ahead d ls) = none := by
  obtain ⟨r, hr⟩ := exists_ahead_append d ls
  have happend := told?_append (ahead d ls) r
  rw [← hr] at happend
  cases ha : told? (ahead d ls) with
  | none => rfl
  | some d' =>
    rw [ha] at happend
    rcases h with h | h
    · rw [h] at happend
      obtain rfl : d = d' := Option.some.inj happend
      obtain ⟨l, hl, hc⟩ := claims_of_told? ha
      rw [hclaims l hl] at hc
      exact absurd hc Bool.false_ne_true
    · rw [h] at happend
      simp at happend

theorem claims_ahead_of_told?_eq_none {d : Dialect} {ls : List Text}
    (h : told? (ahead d ls) = none) : ∀ l ∈ ahead d ls, d.claims (Text.trim l) = false := by
  by_cases hd : d = .fenced
  · subst hd
    intro l hl
    by_contra hfence
    simp only [Bool.not_eq_false] at hfence
    have hfence : isFence (Text.trim l) = true := hfence
    have := told?_eq_none_iff.1 h l hl
    simp [ofLine?, hfence] at this
  · exact fun l hl ↦ claims_ahead hd hl

end Dialect

namespace Section

theorem withBlock_eq (block : Option Text) (pairs : List (Text × Bool)) :
    withBlock block pairs = (pairs.takeWhile fun p ↦ !p.2).map (·.1) ++ block.toList ++
      ((pairs.dropWhile fun p ↦ !p.2).filter fun p ↦ !p.2).map (·.1) := by
  induction pairs with
  | nil => simp [withBlock]
  | cons p r ih =>
    obtain ⟨l, marked⟩ := p
    cases marked with
    | true => simp [withBlock]
    | false => simp [withBlock, ih]

/-- The lines of the block written for some fields. -/
def blockLines (d : Dialect) (fields : Fields) : List Text :=
  if fields.isEmpty then [] else d.writtenLines fields

/-- The lines of a section with a block in the place of its field lines. -/
def refilled (d : Dialect) (fields : Fields) (ls : List Text) : List Text :=
  Dialect.ahead d ls ++ blockLines d fields ++ Dialect.behind d ls

theorem withFields_eq (fields : Fields) (d : Dialect) (ls : List Text) :
    withFields fields d ls = Dialect.ahead d ls ++
      (if fields.isEmpty then [] else [d.write fields]) ++ Dialect.behind d ls := by
  unfold withFields
  rw [withBlock_eq]
  unfold Dialect.ahead Dialect.behind
  congr 2
  split <;> rfl

end Section

end Markbook
