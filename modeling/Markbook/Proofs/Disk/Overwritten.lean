import Markbook.Proofs.Disk

/-!
# Overwritten Files

A text that takes the place of another text leaves every path as it is (`Disk.Keeps`): paths lead to
the places they led to, and a file that could be read still can.
-/

namespace Markbook.Disk

variable {d d' d'' : Disk} {p p' : Path} {q : Place} {c : Text} {t : Int}

/-- The text of the file at a place. -/
def textAt? (d : Disk) (q : Place) : Option Text :=
  match d.item? q with
  | some (.file (.text c) _) => some c
  | _ => none

/-- Can the path be read, or is nothing there? -/
def IsReadable (d : Disk) (p : Path) : Prop :=
  d.read p = .error .missing ∨ ∃ c, d.read p = .ok c

def leadsTo (d : Disk) (p : Path) (q : Place) : Bool :=
  match d.place? p with
  | .ok x => x = q
  | .error _ => false

theorem leadsTo_iff : d.leadsTo p q ↔ d.place? p = .ok q := by
  unfold leadsTo
  cases d.place? p <;> simp

/-- A disk with other texts in some files. -/
structure Keeps (d d' : Disk) : Prop where
  place?_eq : ∀ p, d'.place? p = d.place? p
  isReadable : ∀ p, d.IsReadable p → d'.IsReadable p

theorem Keeps.refl (d : Disk) : d.Keeps d := ⟨fun _ ↦ rfl, fun _ h ↦ h⟩

theorem Keeps.trans (h : d.Keeps d') (h' : d'.Keeps d'') : d.Keeps d'' :=
  ⟨fun p ↦ (h'.place?_eq p).trans (h.place?_eq p), fun p hp ↦ h'.isReadable p (h.isReadable p hp)⟩

theorem Keeps.leadsTo_eq (h : d.Keeps d') (p : Path) (q : Place) :
    d'.leadsTo p q = d.leadsTo p q := by
  unfold leadsTo
  rw [h.place?_eq]

/-! ## Paths -/

theorem place?_of_isNullDevice (d : Disk) (h : isNullDevice p = true) :
    d.place? p = .error .missing := by
  have hparts : p.parts = [.root, .name "dev", .name "null"] := by
    have hnull : Path.parts "/dev/null" = [.root, .name "dev", .name "null"] := by decide
    rw [← hnull]
    simpa [isNullDevice] using h
  unfold place?
  rw [hparts]
  split
  · rfl
  · rw [walk]

/-- Only the parts of a path say where it leads. -/
theorem place?_eq_ok_iff (hq : q ≠ []) :
    d.place? p = .ok q ↔ d.walk linkLimit [] p.parts = .ok q := by
  unfold place?
  split
  · next hempty =>
    have hparts : p.parts = [] := by
      obtain ⟨text⟩ := p
      obtain rfl : text = [] := by simpa using hempty
      decide
    rw [hparts, walk]
    simp [Ne.symm hq]
  · rfl

theorem place?_of_beq (h : (p == p') = true) (hq : q ≠ []) (hplace : d.place? p = .ok q) :
    d.place? p' = .ok q := by
  rw [place?_eq_ok_iff hq] at hplace ⊢
  rwa [← Path.beq_iff.1 h]

/-! ## Reading -/

theorem ne_nil_of_item? {i : Item} (h : d.item? q = some i) (hi : i ≠ .folder) : q ≠ [] := by
  rintro rfl
  exact hi (Option.some.inj h).symm

theorem textAt?_eq_some_iff : d.textAt? q = some c ↔ ∃ t, d.item? q = some (.file (.text c) t) := by
  unfold textAt?
  constructor
  · intro h
    split at h
    · next t hitem =>
      obtain rfl := Option.some.inj h
      exact ⟨t, hitem⟩
    · simp at h
  · rintro ⟨t, h⟩
    rw [h]

theorem textAt?_of_read (h : d.read p = .ok c) (hplace : d.place? p = .ok q) :
    d.textAt? q = some c := by
  have hnull : isNullDevice p = false := by
    by_contra hnull
    rw [place?_of_isNullDevice d (by simpa using hnull)] at hplace
    simp at hplace
  obtain ⟨q', t, hplace', hitem, -⟩ := exists_place_of_read h hnull
  obtain rfl : q = q' := Except.ok.inj (hplace.symm.trans hplace')
  exact textAt?_eq_some_iff.2 ⟨t, hitem⟩

/-- A path that can be read has the text of its place. -/
theorem read_of_textAt? (h : d.IsReadable p) (hplace : d.place? p = .ok q)
    (htext : d.textAt? q = some c) : d.read p = .ok c := by
  rcases h with h | ⟨c', h⟩
  · -- A path to a file is never free.
    exfalso
    obtain ⟨t, hitem⟩ := textAt?_eq_some_iff.1 htext
    unfold read find at h
    rw [hplace] at h
    simp only [bind, Except.bind, hitem] at h
    cases hnull : isNullDevice p <;> cases hfolder : demandsFolder p <;>
      simp [hnull, hfolder] at h
  · rw [textAt?_of_read h hplace] at htext
    rw [h, Option.some.inj htext]

/-! ## Overwriting -/

/-- A file in the place of a file leaves the ways to places alone. -/
theorem walk_put_file {i : Contents} (hitem : d.item? q = some (.file i t)) (i' : Contents)
    (t' : Int) (links : Nat) (at_ : Place) (parts : List PathPart) :
    (d.put q (.file i' t')).walk links at_ parts = d.walk links at_ parts := by
  have hq : q ≠ [] := ne_nil_of_item? hitem (by simp)
  have hother {x : Place} {j : Option Item} (hx : d.item? x = j)
      (hj : ∀ c t, j ≠ some (.file c t)) :
      (d.put q (.file i' t')).item? x = j := by
    rw [item?_put hq, if_neg, hx]
    rintro rfl
    exact hj i t (hx.symm.trans hitem)
  fun_induction walk d links at_ parts with
  | case1 => rw [walk]
  | case2 => rw [walk]
  | case3 links at_ r ih => rw [walk, ih]
  | case4 links at_ r h => rw [walk, if_pos h]
  | case5 links at_ r h ih => rw [walk, if_neg h, ih]
  | case6 links at_ s r hnone hr =>
    rw [walk, hother hnone (by simp)]
    simp [hr]
  | case7 links at_ s r hnone hr =>
    rw [walk, hother hnone (by simp)]
    simp [hr]
  | case8 links at_ s r hfolder ih =>
    rw [walk, hother hfolder (by simp), ih]
  | case9 links at_ s r c t hfile hr =>
    rw [walk, item?_put hq]
    by_cases heq : at_ ++ [s] = q <;> simp [heq, hfile, hr]
  | case10 links at_ s r c t hfile hr =>
    rw [walk, item?_put hq]
    by_cases heq : at_ ++ [s] = q <;> simp [heq, hfile, hr]
  | case11 at_ s r target hlink =>
    rw [walk, hother hlink (by simp)]
  | case12 at_ s r target hlink n ih =>
    rw [walk, hother hlink (by simp)]
    exact ih

theorem place?_put_file {i : Contents} (hitem : d.item? q = some (.file i t)) (i' : Contents)
    (t' : Int) (p : Path) : (d.put q (.file i' t')).place? p = d.place? p := by
  unfold place?
  rw [walk_put_file hitem]

/-- A text in the place of a text. -/
theorem keeps_put (hitem : d.item? q = some (.file (.text c) t)) (c' : Text) (t' : Int) :
    d.Keeps (d.put q (.file (.text c') t')) := by
  have hq : q ≠ [] := ne_nil_of_item? hitem (by simp)
  refine ⟨place?_put_file hitem (.text c') t', fun p hp ↦ ?_⟩
  cases hnull : isNullDevice p with
  | true =>
    refine .inr ⟨[], ?_⟩
    unfold read
    rw [if_pos hnull]
  | false =>
    by_cases hplace : d.place? p = .ok q
    · obtain ⟨-, -, -, -, hfolder⟩ :=
        exists_place_of_read (read_of_textAt? hp hplace (textAt?_eq_some_iff.2 ⟨t, hitem⟩)) hnull
      have hfree : ∀ i, d.item? q = some i → ∃ c t, i = .file c t := by
        intro i hi
        exact ⟨_, _, Option.some.inj (hi.symm.trans hitem)⟩
      exact .inr ⟨c', read_put hplace hq hfree hfolder hnull⟩
    · have hread : (d.put q (.file (.text c') t')).read p = d.read p := by
        unfold read find
        rw [place?_put_file hitem]
        cases hx : d.place? p with
        | error e => rfl
        | ok x =>
          have hne : x ≠ q := fun heq ↦ hplace (heq ▸ hx)
          simp only [bind, Except.bind]
          rw [item?_put hq, if_neg hne]
      unfold IsReadable
      rwa [hread]

theorem textAt?_put (hq : q ≠ []) (c : Text) (t : Int) (x : Place) :
    (d.put q (.file (.text c) t)).textAt? x = if x = q then some c else d.textAt? x := by
  unfold textAt?
  rw [item?_put hq]
  by_cases hx : x = q
  · rw [if_pos hx, if_pos hx]
  · rw [if_neg hx, if_neg hx]

end Markbook.Disk
