import Markbook.Disk
import Mathlib.Tactic.Common

/-!
# Reading What Was Written

A file that was written reads as the text that was written to it, through whatever links its path
goes (`Disk.read_write`), and a file that can be read can be written (`Disk.exists_write_of_read`).
The null device is the exception: it forgets.
-/

namespace Markbook

theorem Path.beq_iff {p q : Path} : (p == q) = true ↔ p.parts = q.parts := by
  change (p.parts == q.parts) = true ↔ _
  exact beq_iff_eq

theorem Path.beq_refl (p : Path) : (p == p) = true := Path.beq_iff.2 rfl

namespace Disk

variable {d d' : Disk} {p : Path} {q : Place}

/-- Replacing entries keeps the places that they stand for. -/
theorem find?_replaced (items : List (Place × Item)) (q : Place) (i : Item) (x : Place) :
    (items.map fun e ↦ if e.1 = q then (q, i) else e).find? (fun e ↦ decide (e.1 = x)) =
      (items.find? fun e ↦ decide (e.1 = x)).map fun e ↦ if e.1 = q then (q, i) else e := by
  rw [List.find?_map]
  congr 2
  funext e
  simp only [Function.comp_apply]
  split
  · next he => rw [he]
  · rfl

/-- The entries hold what was put, whether it replaces an entry or not. -/
theorem find?_put (d : Disk) (q : Place) (i : Item) (x : Place) :
    ((d.put q i).items.find? fun e ↦ decide (e.1 = x)).map (·.2) =
      if x = q then some i else (d.items.find? fun e ↦ decide (e.1 = x)).map (·.2) := by
  have hplace {e : Place × Item} (he : d.items.find? (fun e ↦ decide (e.1 = x)) = some e) :
      e.1 = x := by
    simpa using List.find?_some he
  unfold put
  split
  · next hany =>
    dsimp only
    rw [find?_replaced]
    cases hfind : d.items.find? fun e ↦ decide (e.1 = x) with
    | none =>
      have hne : x ≠ q := by
        rintro rfl
        obtain ⟨e, he, heq⟩ := List.any_eq_true.1 hany
        exact List.find?_eq_none.1 hfind e he heq
      simp [hne]
    | some e => by_cases hxq : x = q <;> simp [hplace hfind, hxq]
  · next hany =>
    dsimp only
    rw [List.find?_append]
    by_cases hxq : x = q
    · subst hxq
      have hnone : d.items.find? (fun e ↦ decide (e.1 = x)) = none :=
        List.find?_eq_none.2 fun e he heq ↦ hany (List.any_eq_true.2 ⟨e, he, heq⟩)
      simp [hnone]
    · simp [hxq, Ne.symm hxq]

theorem item?_put (hq : q ≠ []) (i : Item) (x : Place) :
    (d.put q i).item? x = if x = q then some i else d.item? x := by
  unfold item?
  cases x with
  | nil =>
    rw [if_neg (Ne.symm hq)]
    rfl
  | cons s x => exact find?_put d q i (s :: x)

/-- Putting a file where there is a file, or nothing, leaves the ways to places alone. -/
theorem walk_put (hq : q ≠ []) (hfree : ∀ i, d.item? q = some i → ∃ c t, i = .file c t)
    (c : Contents) (t : Int) {links : Nat} {at_ x : Place} {parts : List PathPart}
    (h : d.walk links at_ parts = .ok x) : (d.put q (.file c t)).walk links at_ parts = .ok x := by
  have hother {y : Place} {i : Item} (hitem : d.item? y = some i) (hi : ∀ c t, i ≠ .file c t) :
      y ≠ q := by
    rintro rfl
    obtain ⟨c, t, heq⟩ := hfree i hitem
    exact hi c t heq
  fun_induction walk d links at_ parts with
  | case1 => simpa [walk] using h
  | case2 => simp at h
  | case3 links at_ r ih =>
    rw [walk]
    exact ih h
  | case4 => simp at h
  | case5 links at_ r hne ih =>
    rw [walk, if_neg hne]
    exact ih h
  | case6 links at_ s r hitem hr =>
    rw [walk, item?_put hq]
    by_cases heq : at_ ++ [s] = q
    · simpa [heq, hr] using h
    · simpa [heq, hitem, hr] using h
  | case7 => simp at h
  | case8 links at_ s r hitem ih =>
    rw [walk, item?_put hq, if_neg (hother hitem (by simp)), hitem]
    exact ih h
  | case9 links at_ s r c' t' hitem hr =>
    rw [walk, item?_put hq]
    by_cases heq : at_ ++ [s] = q
    · simpa [heq, hr] using h
    · simpa [heq, hitem, hr] using h
  | case10 => simp at h
  | case11 => simp at h
  | case12 at_ s r target hitem n ih =>
    rw [walk, item?_put hq, if_neg (hother hitem (by simp)), hitem]
    exact ih h

theorem place?_put (hq : q ≠ []) (hfree : ∀ i, d.item? q = some i → ∃ c t, i = .file c t)
    (c : Contents) (t : Int) {x : Place} (h : d.place? p = .ok x) :
    (d.put q (.file c t)).place? p = .ok x := by
  unfold place? at h ⊢
  split at h
  · simp at h
  · next hne =>
    rw [if_neg hne]
    exact walk_put hq hfree c t h

/-- The file that a path leads to is found, unless the path demands a folder. -/
theorem find_of_place? {c : Contents} {t : Int} (hplace : d.place? p = .ok q)
    (hitem : d.item? q = some (.file c t)) (hfolder : demandsFolder p = false) :
    d.find p = .ok (.file c t) := by
  unfold find
  rw [hplace]
  simp only [bind, Except.bind]
  rw [hitem]
  simp [hfolder]

/-- The text of the file that a path leads to. -/
theorem read_of_place? {c : Text} {t : Int} (hplace : d.place? p = .ok q)
    (hitem : d.item? q = some (.file (.text c) t)) (hfolder : demandsFolder p = false)
    (hnull : isNullDevice p = false) : d.read p = .ok c := by
  unfold read
  rw [hnull, find_of_place? hplace hitem hfolder]
  rfl

/-- A file that is put where a path leads is found there. -/
theorem read_put {c : Text} {t : Int} (hplace : d.place? p = .ok q) (hq : q ≠ [])
    (hfree : ∀ i, d.item? q = some i → ∃ c t, i = .file c t) (hfolder : demandsFolder p = false)
    (hnull : isNullDevice p = false) : (d.put q (.file (.text c) t)).read p = .ok c := by
  have hitem : (d.put q (.file (.text c) t)).item? q = some (.file (.text c) t) := by
    rw [item?_put hq, if_pos rfl]
  exact read_of_place? (place?_put hq hfree _ _ hplace) hitem hfolder hnull

/-- A text is written to the place that its path leads to, which holds no folder and no link. -/
theorem exists_put_of_write {s : Text} (h : d.write p s = .ok d') (hnull : isNullDevice p = false) :
    ∃ q t, d' = d.put q (.file (.text s) t) ∧ d.place? p = .ok q ∧ q ≠ [] ∧
      (∀ i, d.item? q = some i → ∃ c t, i = .file c t) ∧ demandsFolder p = false := by
  unfold write at h
  rw [hnull] at h
  simp only [Bool.false_eq_true, if_false] at h
  cases hplace : d.place? p with
  | error e =>
    rw [hplace] at h
    simp [bind, Except.bind] at h
  | ok q =>
    rw [hplace] at h
    simp only [bind, Except.bind] at h
    have hq (hitem : d.item? q ≠ some .folder) : q ≠ [] := by
      rintro rfl
      exact hitem rfl
    split at h
    · next hitem =>
      split at h
      · simp at h
      · next hfolder =>
        exact ⟨q, 0, (Except.ok.inj h).symm, rfl, hq (by simp [hitem]), by simp [hitem],
          by simpa using hfolder⟩
    · next c t hitem =>
      split at h
      · simp at h
      · next hfolder =>
        exact ⟨q, t, (Except.ok.inj h).symm, rfl, hq (by simp [hitem]), by simp [hitem],
          by simpa using hfolder⟩
    · simp at h

theorem read_write {s : Text} (h : d.write p s = .ok d') (hnull : isNullDevice p = false) :
    d'.read p = .ok s := by
  obtain ⟨q, t, rfl, hplace, hq, hfree, hfolder⟩ := exists_put_of_write h hnull
  exact read_put hplace hq hfree hfolder hnull

/-- Writing changes one place only. -/
theorem item?_write {s : Text} (h : d.write p s = .ok d') (hnull : isNullDevice p = false) :
    ∃ q, d.place? p = .ok q ∧ ∀ x, x ≠ q → d'.item? x = d.item? x := by
  obtain ⟨q, t, rfl, hplace, hq, -, -⟩ := exists_put_of_write h hnull
  refine ⟨q, hplace, fun x hx ↦ ?_⟩
  rw [item?_put hq, if_neg hx]

/-- What is found as a file is the file that the path leads to. -/
theorem exists_place_of_find {c : Contents} {t : Int} (h : d.find p = .ok (.file c t)) :
    ∃ q, d.place? p = .ok q ∧ d.item? q = some (.file c t) ∧ demandsFolder p = false := by
  unfold find at h
  cases hplace : d.place? p with
  | error e =>
    rw [hplace] at h
    simp [bind, Except.bind] at h
  | ok q =>
    rw [hplace] at h
    simp only [bind, Except.bind] at h
    split at h
    · simp at h
    · next c' t' hitem =>
      split at h
      · simp at h
      · next hfolder =>
        rw [← Except.ok.inj h]
        exact ⟨q, rfl, hitem, by simpa using hfolder⟩
    · next i hother hitem => exact absurd (Except.ok.inj h) (hother c t)

/-- A text is read from the file that its path leads to. -/
theorem exists_place_of_read {c : Text} (h : d.read p = .ok c) (hnull : isNullDevice p = false) :
    ∃ q t, d.place? p = .ok q ∧ d.item? q = some (.file (.text c) t) ∧ demandsFolder p = false := by
  unfold read at h
  rw [hnull] at h
  simp only [Bool.false_eq_true, if_false] at h
  split at h
  · simp at h
  · next c' t hfind =>
    obtain rfl := Except.ok.inj h
    obtain ⟨q, hplace⟩ := exists_place_of_find hfind
    exact ⟨q, t, hplace⟩
  · simp at h
  · simp at h

/-- A file with a text in it can be written. -/
theorem exists_write_of_read {s : Text} (h : d.read p = .ok s) (hnull : isNullDevice p = false)
    (s' : Text) : ∃ d', d.write p s' = .ok d' := by
  obtain ⟨q, t, hplace, hitem, hfolder⟩ := exists_place_of_read h hnull
  refine ⟨d.put q (.file (.text s') t), ?_⟩
  unfold write
  rw [hnull, hplace]
  simp [bind, Except.bind, hitem, hfolder]

/-- A name of its own, or in the current folder, leads to the file of the name. -/
theorem place?_of_parts {s : Text} {c : Contents} {t : Int}
    (hparts : p.parts = [.name s] ∨ p.parts = [.here, .name s]) (hne : p.text.isEmpty = false)
    (hitem : d.item? [s] = some (.file c t)) : d.place? p = .ok [s] := by
  have hwalk : d.walk linkLimit [] [.name s] = .ok [s] := by
    have hitem' : d.item? ([] ++ [s]) = some (.file c t) := hitem
    unfold walk
    simp only [hitem']
    rfl
  unfold place?
  rw [hne]
  simp only [Bool.false_eq_true, if_false]
  rcases hparts with hparts | hparts
  · rw [hparts, hwalk]
  · rw [hparts, walk, hwalk]

/-! ## A disk with one file -/

/-- The disk that holds one file, the plan. -/
def plan (content : Text) : Disk := ⟨[(["plan.md"], .file (.text content) 0)]⟩

theorem read_plan (content : Text) : (plan content).read "plan.md" = .ok content := by
  have hitem : (plan content).item? ["plan.md"] = some (.file (.text content) 0) := rfl
  have hparts : Path.parts "plan.md" = [.name "plan.md"] := by decide
  exact read_of_place? (place?_of_parts (.inl hparts) rfl hitem) hitem (by decide) (by decide)

end Disk

end Markbook
