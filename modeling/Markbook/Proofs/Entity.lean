import Markbook.Entity
import Markbook.Proofs.TextMap

/-!
# Taking Values Out of Fields

The type and the status of an entity are taken out of the fields of its section, each from the
first of two keys that has a value.  What was taken can be put back under its key, and is then
taken again (`Entity.take?_putBack`), as long as the keys are free in what is left
(`Entity.IsTaken`).  An empty field that is passed over on the way is taken out too
(`Entity.IsPassedOver`), and nothing puts it back (`Entity.get?_putBack_take?`).
-/

namespace Markbook.Entity

/-- What can be left of some fields when the first of two keys with a value has been taken out. -/
def IsTaken (first second : Text) (found : Option (Text × Text)) (rest : Fields) : Prop :=
  match found with
  | some (k, v) =>
    v ≠ [] ∧ rest.get? k = none ∧ (k = first ∨ k = second ∧ rest.get? first = none)
  | none => rest.get? first = none ∧ rest.get? second = none

/-- Puts a value that was taken out back under its key. -/
def putBack (found : Option (Text × Text)) (rest : Fields) : Fields :=
  match found with
  | some (k, v) => rest.insert k v
  | none => rest

variable {first second : Text} {found : Option (Text × Text)} {fields rest rest' : Fields}

theorem get?_erase_of_get?_eq_none {k k' : Text} (h : fields.get? k' = none) :
    (fields.erase k).get? k' = none := by
  rw [TextMap.get?_erase, h, ite_self]

theorem take?_of_first {v : Text} (hv : v ≠ []) (h : fields.get? first = some v) (second : Text) :
    take? first second fields = (some (first, v), fields.erase first) := by
  obtain ⟨c, r, rfl⟩ := List.exists_cons_of_ne_nil hv
  unfold take?
  rw [h]

/-- The second key counts when the first one has no value, or an empty one. -/
theorem take?_of_not_first (h : ∀ v, fields.get? first = some v → v = []) :
    take? first second fields =
      match (fields.erase first).get? second with
      | some (c :: v) => (some (second, c :: v), (fields.erase first).erase second)
      | _ => (none, (fields.erase first).erase second) := by
  unfold take?
  split
  · next c v hget => exact absurd (h _ hget) (List.cons_ne_nil c v)
  · rfl

/-- Taking leaves the keys free. -/
theorem isTaken_take? (first second : Text) (fields : Fields) :
    IsTaken first second (take? first second fields).1 (take? first second fields).2 := by
  unfold take?
  split
  · next c v hget =>
    exact ⟨List.cons_ne_nil c v, TextMap.get?_erase_self _ _, .inl rfl⟩
  · simp only
    have hfirst : (fields.erase first).get? first = none := TextMap.get?_erase_self _ _
    split
    · next c v hget =>
      exact ⟨List.cons_ne_nil c v, TextMap.get?_erase_self _ _,
        .inr ⟨rfl, get?_erase_of_get?_eq_none hfirst⟩⟩
    · exact ⟨get?_erase_of_get?_eq_none hfirst, TextMap.get?_erase_self _ _⟩

/-- What was taken is taken again when it has been put back. -/
theorem take?_putBack (hne : first ≠ second) (h : IsTaken first second found rest) :
    take? first second (putBack found rest) = (found, rest) := by
  cases found with
  | none =>
    obtain ⟨hfirst, hsecond⟩ := h
    have herase : (rest.erase first).erase second = rest := by
      rw [TextMap.erase_of_get?_eq_none hfirst, TextMap.erase_of_get?_eq_none hsecond]
    unfold putBack
    simp only
    rw [take?_of_not_first (by simp [hfirst]), TextMap.erase_of_get?_eq_none hfirst, hsecond]
    simp only
    rw [TextMap.erase_of_get?_eq_none hsecond]
  | some p =>
    obtain ⟨k, v⟩ := p
    obtain ⟨hv, hfree, rfl | ⟨rfl, hfirst⟩⟩ := h
    · unfold putBack
      simp only
      rw [take?_of_first hv (TextMap.get?_insert_self _ _ _), TextMap.erase_insert hfree]
    · have hget : (rest.insert k v).get? first = none := by
        rw [TextMap.get?_insert_of_ne hne, hfirst]
      obtain ⟨c, r, rfl⟩ := List.exists_cons_of_ne_nil hv
      unfold putBack
      simp only
      rw [take?_of_not_first (by simp [hget]), TextMap.erase_of_get?_eq_none hget,
        TextMap.get?_insert_self]
      simp only
      rw [TextMap.erase_insert hfree]

/-- Only the two keys have a meaning. -/
theorem IsTaken.congr (h : IsTaken first second found rest)
    (hfirst : rest.get? first = none → rest'.get? first = none)
    (hsecond : rest.get? second = none → rest'.get? second = none) :
    IsTaken first second found rest' := by
  cases found with
  | none => exact ⟨hfirst h.1, hsecond h.2⟩
  | some p =>
    obtain ⟨hv, hfree, rfl | ⟨rfl, hnone⟩⟩ := h
    · exact ⟨hv, hfirst hfree, .inl rfl⟩
    · exact ⟨hv, hsecond hfree, .inr ⟨rfl, hfirst hnone⟩⟩

theorem IsTaken.insert (h : IsTaken first second found rest) {k : Text} (hfirst : k ≠ first)
    (hsecond : k ≠ second) (v : Text) : IsTaken first second found (rest.insert k v) :=
  h.congr (fun hnone ↦ by rw [TextMap.get?_insert_of_ne hfirst.symm, hnone])
    (fun hnone ↦ by rw [TextMap.get?_insert_of_ne hsecond.symm, hnone])

/-- The key of what was taken is one of the two. -/
theorem IsTaken.key {k v : Text} (h : IsTaken first second (some (k, v)) rest) :
    k = first ∨ k = second := by
  obtain ⟨-, -, h | h⟩ := h
  · exact .inl h
  · exact .inr h.1

theorem get?_of_get?_erase {k k' v : Text} (h : (fields.erase k').get? k = some v) :
    fields.get? k = some v := by
  rw [TextMap.get?_erase] at h
  split at h
  · simp at h
  · exact h

theorem get?_take?_rest {k v : Text} (h : (take? first second fields).2.get? k = some v) :
    fields.get? k = some v := by
  unfold take? at h
  split at h
  · exact get?_of_get?_erase h
  · simp only at h
    split at h <;> exact get?_of_get?_erase (get?_of_get?_erase h)

theorem get?_of_take? {k v : Text} (h : (take? first second fields).1 = some (k, v)) :
    fields.get? k = some v := by
  unfold take? at h
  split at h
  · next hget =>
    simp only [Option.some.injEq, Prod.mk.injEq] at h
    obtain ⟨rfl, rfl⟩ := h
    exact hget
  · simp only at h
    split at h
    · next hget =>
      simp only [Option.some.injEq, Prod.mk.injEq] at h
      obtain ⟨rfl, rfl⟩ := h
      exact get?_of_get?_erase hget
    · simp at h

/-- Other keys are left alone. -/
theorem get?_take?_of_ne {k : Text} (hfirst : k ≠ first) (hsecond : k ≠ second) :
    (take? first second fields).2.get? k = fields.get? k := by
  unfold take?
  split
  · rw [TextMap.get?_erase_of_ne hfirst]
  · simp only
    split <;> rw [TextMap.get?_erase_of_ne hsecond, TextMap.get?_erase_of_ne hfirst]

/-! ## Fields that are passed over -/

variable {k : Text}

/-- Is the field under a key empty, and passed over when the first of two keys with a value is
taken? -/
def IsPassedOver (first second : Text) (fields : Fields) (k : Text) : Prop :=
  fields.get? k = some [] ∧ (k = first ∨ k = second ∧ ∀ v ∈ fields.get? first, v = [])

instance (first second : Text) (fields : Fields) (k : Text) :
    Decidable (IsPassedOver first second fields k) :=
  inferInstanceAs (Decidable (_ ∧ (_ ∨ _ ∧ _)))

theorem IsPassedOver.key (h : IsPassedOver first second fields k) : k = first ∨ k = second :=
  h.2.imp_right And.left

theorem isPassedOver_congr (hfirst : fields.get? first = rest.get? first)
    (hk : fields.get? k = rest.get? k) :
    IsPassedOver first second fields k ↔ IsPassedOver first second rest k := by
  unfold IsPassedOver
  rw [hfirst, hk]

/-- A field with a value is not passed over. -/
theorem not_isPassedOver {v : Text} (hv : v ≠ []) (hget : fields.get? k = some v) :
    ¬ IsPassedOver first second fields k :=
  fun h ↦ hv (Option.some.inj (hget.symm.trans h.1))

/-- When both keys are erased, what is lost is the one that is taken and the empty ones that are
passed over. -/
theorem get?_erase_erase (hfirst : ∀ v ∈ fields.get? first, v = [])
    (hsecond : found = none ∧ (∀ v ∈ fields.get? second, v = []) ∨ ∃ v, found = some (second, v))
    (k : Text) :
    ((fields.erase first).erase second).get? k =
      if found.map (·.1) = some k ∨ IsPassedOver first second fields k then none
      else fields.get? k := by
  rw [TextMap.get?_erase, TextMap.get?_erase]
  by_cases hks : k = second
  · subst hks
    rw [if_pos rfl]
    rcases hsecond with ⟨-, hempty⟩ | ⟨v, rfl⟩
    · cases hget : fields.get? k with
      | none => rw [ite_self]
      | some v =>
        obtain rfl := hempty v hget
        rw [if_pos (.inr ⟨hget, .inr ⟨rfl, hfirst⟩⟩)]
    · rw [if_pos (.inl rfl)]
  · have hfound : found.map (·.1) ≠ some k := by
      rcases hsecond with ⟨rfl, -⟩ | ⟨v, rfl⟩
      · simp
      · simpa using Ne.symm hks
    rw [if_neg hks]
    by_cases hkf : k = first
    · subst hkf
      rw [if_pos rfl]
      cases hget : fields.get? k with
      | none => rw [ite_self]
      | some v =>
        obtain rfl := hfirst v hget
        rw [if_pos (.inr ⟨hget, .inl rfl⟩)]
    · rw [if_neg hkf, if_neg (not_or.2 ⟨hfound, fun h ↦ h.key.elim hkf hks⟩)]

/-- Taking leaves all fields but the one that is taken and the empty ones that are passed over. -/
theorem get?_take?_snd (hne : first ≠ second) (fields : Fields) (k : Text) :
    (take? first second fields).2.get? k =
      if (take? first second fields).1.map (·.1) = some k ∨ IsPassedOver first second fields k
      then none
      else fields.get? k := by
  by_cases hfirst : ∀ v ∈ fields.get? first, v = []
  · have hsecond : (fields.erase first).get? second = fields.get? second :=
      TextMap.get?_erase_of_ne hne.symm fields
    rw [take?_of_not_first hfirst, hsecond]
    cases hget : fields.get? second with
    | none => exact get?_erase_erase hfirst (.inl ⟨rfl, by simp [hget]⟩) k
    | some v =>
      cases v with
      | nil => exact get?_erase_erase hfirst (.inl ⟨rfl, by simp [hget]⟩) k
      | cons c v => exact get?_erase_erase hfirst (.inr ⟨c :: v, rfl⟩) k
  · -- The first key has a value, so nothing is passed over.
    obtain ⟨v, hget, hv⟩ : ∃ v, fields.get? first = some v ∧ v ≠ [] := by
      simpa using hfirst
    have hpass : ¬ IsPassedOver first second fields k := by
      rintro ⟨hk, rfl | ⟨-, hempty⟩⟩
      · exact hv (Option.some.inj (hget.symm.trans hk))
      · exact hfirst hempty
    rw [take?_of_first hv hget, TextMap.get?_erase]
    simp only [Option.map_some, Option.some.injEq, hpass, or_false, eq_comm]

theorem get?_putBack_congr (h : rest.get? k = rest'.get? k) :
    (putBack found rest).get? k = (putBack found rest').get? k := by
  cases found with
  | none => exact h
  | some p =>
    unfold putBack
    simp only
    rw [TextMap.get?_insert, TextMap.get?_insert, h]

theorem get?_putBack_of_ne (h : ∀ p, found = some p → k ≠ p.1) :
    (putBack found rest).get? k = rest.get? k := by
  cases found with
  | none => rfl
  | some p => exact TextMap.get?_insert_of_ne (h p rfl) _ _

/-- What has been taken and put back is all there again, but for the empty fields that were passed
over. -/
theorem get?_putBack_take? (hne : first ≠ second) (fields : Fields) (k : Text) :
    (putBack (take? first second fields).1 (take? first second fields).2).get? k =
      if IsPassedOver first second fields k then none else fields.get? k := by
  have hsnd := get?_take?_snd hne fields k
  cases hfound : (take? first second fields).1 with
  | none =>
    rw [hfound] at hsnd
    simpa [putBack] using hsnd
  | some p =>
    obtain ⟨key, v⟩ := p
    have hget : fields.get? key = some v := get?_of_take? hfound
    by_cases hk : k = key
    · have htaken := isTaken_take? first second fields
      rw [hfound] at htaken
      rw [hk, if_neg (not_isPassedOver htaken.1 hget), hget]
      exact TextMap.get?_insert_self _ _ _
    · rw [get?_putBack_of_ne (by rintro _ ⟨⟩; exact hk), hsnd, hfound]
      simp [Ne.symm hk]

/-! ## The entity of a section -/

/-- Takes the type out of the fields of a section. -/
def typed (fields : Fields) : Option (Text × Text) × Fields := take? "Type" "type" fields

/-- Takes the status out of the fields, unless the heading has it. -/
def stated (headed : Bool) (fields : Fields) : Option (Text × Text) × Fields :=
  if headed then (none, fields) else take? "Status" "status" fields

/-- The status is taken like the type, unless the heading has one. -/
theorem get?_stated_snd (headed : Bool) (fields : Fields) (k : Text) :
    (stated headed fields).2.get? k =
      if (stated headed fields).1.map (·.1) = some k ∨
        headed = false ∧ IsPassedOver "Status" "status" fields k then none
      else fields.get? k := by
  cases headed with
  | true => simp [stated]
  | false =>
    have hne : "Status".toList ≠ "status".toList := by decide
    simp only [stated, Bool.false_eq_true, if_false, true_and]
    exact get?_take?_snd hne fields k

theorem key_of_stated {headed : Bool} {p : Text × Text} (h : (stated headed fields).1 = some p) :
    p.1 = "Status".toList ∨ p.1 = "status".toList := by
  unfold stated at h
  split at h
  · simp at h
  · have htaken := isTaken_take? "Status" "status" fields
    rw [h] at htaken
    exact htaken.key

/-- Does write-back leave the field under a key out?  It does when the field is an empty one that is
passed over, by the type or, if the heading has none, by the status. -/
def Drops (headed : Bool) (fields : Fields) (k : Text) : Prop :=
  IsPassedOver "Type" "type" fields k ∨ headed = false ∧ IsPassedOver "Status" "status" fields k

instance (headed : Bool) (fields : Fields) (k : Text) : Decidable (Drops headed fields k) :=
  inferInstanceAs (Decidable (_ ∨ _ ∧ _))

theorem Drops.get? {headed : Bool} (h : Drops headed fields k) : fields.get? k = some [] :=
  h.elim And.left fun h ↦ h.2.1

variable (m : Markers) (t : StatusTable) (h : Heading) (level line : Nat) (body : Text)

/-- The fields of a section, type and status included. -/
def given : Fields := (dialectOf m body).read body

theorem ofSection_name : (ofSection m t h level line body).name = h.name := rfl

theorem ofSection_title : (ofSection m t h level line body).title = h.title := rfl

theorem ofSection_level : (ofSection m t h level line body).level = level := rfl

theorem ofSection_dialect : (ofSection m t h level line body).dialect = dialectOf m body := rfl

theorem ofSection_type : (ofSection m t h level line body).type =
    ((typed (given m body)).1.map (·.2)).getD (m.type.getD []) := rfl

theorem ofSection_status : (ofSection m t h level line body).status =
    h.status.or (((stated h.status.isSome (typed (given m body)).2).1).map fun e ↦
      t.canonical e.2) := rfl

theorem ofSection_statusKey : (ofSection m t h level line body).statusKey =
    ((stated h.status.isSome (typed (given m body)).2).1).map (·.1) := rfl

theorem ofSection_fields : (ofSection m t h level line body).fields =
    (stated h.status.isSome (typed (given m body)).2).2 := rfl

end Markbook.Entity
