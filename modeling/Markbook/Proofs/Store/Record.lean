import Markbook.Proofs.Entity
import Markbook.Proofs.Heading
import Markbook.Store.Merge

/-!
# Records and Their Written Fields

The fields that are written for a record are its fields with type and status put back under their
keys.  An entity whose section holds just these has the type, the status and the fields of the
record again, when the keys of type and status are free in the fields (`Record.Marks`).  They are
free in the record of a single section (`Record.marks_ofEntity`), and a new field under any other
key leaves them so.
-/

namespace Markbook

namespace StatusTable

/-- A status without a form is one that the table does not know. -/
def IsSettled (t : StatusTable) (status : Option Text) : Prop :=
  ∀ s, status = some s → t.written? (t.canonical s) = none → t.canonical? s = none

theorem isSettled_builtIn (status : Option Text) : builtIn.IsSettled status := by
  intro s _ hform
  cases hs : builtIn.canonical? s with
  | none => rfl
  | some n =>
    obtain ⟨row, hrow, rfl⟩ := exists_declared_of_canonical? hs
    obtain ⟨c, hc⟩ := exists_glyph_of_declared hrow
    have hcanonical : builtIn.canonical s = row.1 := by simp [canonical, hs]
    have hwritten := (written?_builtIn hc).1
    rw [(written?_builtIn hc).2] at hwritten
    rw [hcanonical, hwritten] at hform
    simp at hform

/-- A value that names no status, even after the table has been asked, stays as it is. -/
theorem canonical_eq_self {t : StatusTable} {v : Text} (h : t.canonical? (t.canonical v) = none) :
    t.canonical v = v := by
  cases hv : t.canonical? v with
  | none => exact canonical_of_canonical?_eq_none hv
  | some n =>
    obtain ⟨row, hrow, rfl⟩ := exists_declared_of_canonical? hv
    have hcanonical : t.canonical v = row.1 := by simp [canonical, hv]
    have hknown := canonical?_name_isSome hrow
    rw [hcanonical] at h
    rw [h] at hknown
    simp at hknown

end StatusTable

namespace Record

open Entity

/-- The status as a field. -/
def shownStatus (r : Record) : Option (Text × Text) :=
  r.status.map fun s ↦ (r.statusKey.getD "Status", s)

/-- The status as a field, when no form in the heading can carry it. -/
def writtenStatus (t : StatusTable) (r : Record) : Option (Text × Text) :=
  if (Heading.marker? t r.status).isSome then none else r.shownStatus

/-- The keys of type and status are free in the fields of a record. -/
structure Marks (t : StatusTable) (r : Record) : Prop where
  type_taken : IsTaken "Type" "type" r.inlineType r.fields
  status_taken :
    Heading.marker? t r.status = none → IsTaken "Status" "status" r.shownStatus r.fields
  status_stays : Heading.marker? t r.status = none → ∀ s, r.status = some s → t.canonical s = s

variable {t : StatusTable} {r : Record} {k v : Text}

theorem Marks.type_key (h : r.Marks t) (hk : r.inlineType = some (k, v)) :
    k = "Type".toList ∨ k = "type".toList := by
  have := h.type_taken
  rw [hk] at this
  exact this.key

theorem Marks.status_key (h : r.Marks t) (hk : r.writtenStatus t = some (k, v)) :
    k = "Status".toList ∨ k = "status".toList := by
  unfold writtenStatus at hk
  split at hk
  · simp at hk
  · next hform =>
    have := h.status_taken (by simpa using hform)
    rw [hk] at this
    exact this.key

/-- Without a type in the fields only the status is put back. -/
theorem writtenFields_of_untyped (h : r.inlineType = none) :
    r.writtenFields t = putBack (r.writtenStatus t) r.fields := by
  unfold writtenFields writtenStatus shownStatus
  rw [h]
  cases r.status with
  | none => rfl
  | some s =>
    change (if (Heading.marker? t (some s)).isNone then _ else _) = _
    cases Heading.marker? t (some s) <;> rfl

theorem writtenFields_eq (h : r.Marks t) :
    r.writtenFields t = putBack (r.writtenStatus t) (putBack r.inlineType r.fields) := by
  cases hi : r.inlineType with
  | none => exact writtenFields_of_untyped hi
  | some p =>
    have hfree := h.type_taken
    rw [hi] at hfree
    have hnot : r.fields.has p.1 = false := by simp [TextMap.has, hfree.2.1]
    have htyped : r.writtenFields t =
        writtenFields { r with inlineType := none, fields := r.fields.insert p.1 p.2 } t := by
      unfold writtenFields
      rw [hi]
      simp only [hnot, Bool.false_eq_true, if_false]
    exact htyped.trans (writtenFields_of_untyped rfl)

theorem stated_putBack (h : r.Marks t) :
    stated (Heading.marker? t r.status).isSome (putBack (r.writtenStatus t) r.fields) =
      (r.writtenStatus t, r.fields) := by
  unfold stated writtenStatus
  cases hm : Heading.marker? t r.status with
  | some m => rfl
  | none => exact take?_putBack (by decide) (h.status_taken hm)

theorem typed_writtenFields (h : r.Marks t) :
    typed (r.writtenFields t) = (r.inlineType, putBack (r.writtenStatus t) r.fields) := by
  have htaken : IsTaken "Type" "type" r.inlineType (putBack (r.writtenStatus t) r.fields) := by
    cases hs : r.writtenStatus t with
    | none => exact h.type_taken
    | some p =>
      rcases h.status_key hs with hk | hk
      · exact h.type_taken.insert (by rw [hk]; decide) (by rw [hk]; decide) p.2
      · exact h.type_taken.insert (by rw [hk]; decide) (by rw [hk]; decide) p.2
  have hcomm : r.writtenFields t = putBack r.inlineType (putBack (r.writtenStatus t) r.fields) := by
    rw [writtenFields_eq h]
    cases hs : r.writtenStatus t with
    | none => rfl
    | some p =>
      cases hi : r.inlineType with
      | none => rfl
      | some q =>
        have hne : q.1 ≠ p.1 := by
          rcases h.status_key hs with hp | hp <;> rcases h.type_key hi with hq | hq <;>
            · rw [hp, hq]
              decide
        exact TextMap.insert_comm hne _ _ _
  rw [hcomm]
  exact take?_putBack (by decide) htaken

/-- The entity of a section that holds what is written for a record. -/
theorem ofSection_of_given (h : r.Marks t) {m : Markers} {heading : Heading} {body : Text}
    (hstatus : heading.status = if (Heading.marker? t r.status).isSome then r.status else none)
    (hgiven : given m body = r.writtenFields t) (level line : Nat) :
    (ofSection m t heading level line body).type = (r.inlineType.map (·.2)).getD (m.type.getD []) ∧
      (ofSection m t heading level line body).status = r.status ∧
      (ofSection m t heading level line body).fields = r.fields := by
  have hheaded : heading.status.isSome = (Heading.marker? t r.status).isSome := by
    rw [hstatus]
    cases hs : r.status with
    | none => rfl
    | some s => cases Heading.marker? t (some s) <;> rfl
  have htyped := typed_writtenFields h
  have hstated := stated_putBack h
  refine ⟨?_, ?_, ?_⟩
  · rw [ofSection_type, hgiven, htyped]
  · rw [ofSection_status, hgiven, htyped, hheaded, hstated, hstatus]
    unfold writtenStatus shownStatus
    cases hm : Heading.marker? t r.status with
    | some m =>
      cases hs : r.status with
      | none => simp [hs, Heading.marker?] at hm
      | some s => rfl
    | none =>
      cases hs : r.status with
      | none => rfl
      | some s =>
        have hstays := h.status_stays hm s hs
        simp [hstays]
  · rw [ofSection_fields, hgiven, htyped, hheaded, hstated]

/-! ## What is written -/

theorem get?_writtenFields (h : r.Marks t) (hv : (r.writtenFields t).get? k = some v) :
    r.fields.get? k = some v ∨ r.inlineType = some (k, v) ∨ r.writtenStatus t = some (k, v) := by
  have hback {found : Option (Text × Text)} {m : Fields}
      (hget : (putBack found m).get? k = some v) :
      found = some (k, v) ∨ m.get? k = some v := by
    cases found with
    | none => exact .inr hget
    | some p =>
      unfold putBack at hget
      simp only at hget
      rw [TextMap.get?_insert] at hget
      split at hget
      · next hk =>
        left
        rw [Option.some.injEq] at hget
        rw [hk, ← hget]
      · exact .inr hget
  rw [writtenFields_eq h] at hv
  rcases hback hv with hv | hv
  · exact .inr (.inr hv)
  · rcases hback hv with hv | hv
    · exact .inr (.inl hv)
    · exact .inl hv

/-- The keys that type and status are taken from. -/
def isMarkKey (k : Text) : Bool := Text.isOneOf k ["Type", "type", "Status", "status"]

theorem ne_of_isMarkKey (hk : isMarkKey k = false) :
    ∀ w ∈ ["Type", "type", "Status", "status"], k ≠ w.toList := by
  unfold isMarkKey Text.isOneOf at hk
  rw [List.any_eq_false] at hk
  exact fun w hw heq ↦ hk w hw (by simp [heq])

theorem get?_writtenFields_of_ne (h : r.Marks t) (hk : isMarkKey k = false) :
    (r.writtenFields t).get? k = r.fields.get? k := by
  have hne := ne_of_isMarkKey hk
  rw [writtenFields_eq h]
  have htype : (putBack r.inlineType r.fields).get? k = r.fields.get? k := by
    cases hi : r.inlineType with
    | none => rfl
    | some p =>
      refine TextMap.get?_insert_of_ne ?_ _ _
      rcases h.type_key hi with hp | hp <;> rw [hp] <;> exact hne _ (by simp)
  rw [← htype]
  cases hs : r.writtenStatus t with
  | none => rfl
  | some p =>
    refine TextMap.get?_insert_of_ne ?_ _ _
    rcases h.status_key hs with hp | hp <;> rw [hp] <;> exact hne _ (by simp)

/-! ## The record of a single section -/

section Single

variable {m : Markers} {heading : Heading} {level line : Nat} {body : Text}

/-- What an entity of a section says of its type. -/
theorem inlineType_ofEntity (path : Path) (time : Int) :
    (ofEntity (ofSection m t heading level line body) path time).inlineType =
      (typed (given m body)).1 := by
  change ((typed (given m body)).1.map (·.1)).map
    (fun k ↦ (k, ((typed (given m body)).1.map (·.2)).getD (m.type.getD []))) = _
  cases (typed (given m body)).1 <;> rfl

theorem type_ofEntity (path : Path) (time : Int) :
    (ofSection m t heading level line body).type =
      ((ofEntity (ofSection m t heading level line body) path time).inlineType.map (·.2)).getD
        (m.type.getD []) := by
  rw [inlineType_ofEntity, ofSection_type]

/-- A status that is in the heading has a form in a settled table. -/
theorem marker?_isSome_of_heading {s : Text} (hknown : t.canonical? s ≠ none)
    (hsettled : t.IsSettled (some s)) : (Heading.marker? t (some s)).isSome := by
  rw [Option.isSome_iff_ne_none]
  exact fun hnone ↦ hknown (hsettled s rfl hnone)

/-- A status that is written as a field is the one that was read from a field. -/
theorem shownStatus_ofEntity (path : Path) (time : Int)
    (hknown : ∀ s, heading.status = some s → t.canonical? s ≠ none)
    (hsettled : t.IsSettled (ofSection m t heading level line body).status)
    (hform : Heading.marker? t (ofSection m t heading level line body).status = none) :
    heading.status = none ∧
      (ofEntity (ofSection m t heading level line body) path time).shownStatus =
        (take? "Status" "status" (typed (given m body)).2).1 := by
  have hheading : heading.status = none := by
    cases hs : heading.status with
    | none => rfl
    | some s =>
      have hstatus : (ofSection m t heading level line body).status = some s := by
        rw [ofSection_status, hs]
        rfl
      rw [hstatus] at hsettled hform
      have := marker?_isSome_of_heading (hknown s hs) hsettled
      rw [hform] at this
      simp at this
  refine ⟨hheading, ?_⟩
  have hstated : stated heading.status.isSome (typed (given m body)).2 =
      take? "Status" "status" (typed (given m body)).2 := by
    rw [hheading]
    rfl
  have hstatus : (ofSection m t heading level line body).status =
      (take? "Status" "status" (typed (given m body)).2).1.map fun e ↦ t.canonical e.2 := by
    rw [ofSection_status, hstated, hheading, Option.none_or]
  unfold shownStatus
  change (ofSection m t heading level line body).status.map
    (fun s ↦ ((ofSection m t heading level line body).statusKey.getD "Status", s)) = _
  rw [ofSection_statusKey, hstated, hstatus]
  rw [hstatus] at hsettled hform
  cases htaken : (take? "Status" "status" (typed (given m body)).2).1 with
  | none => rfl
  | some p =>
    rw [htaken] at hsettled hform
    have hself : t.canonical p.2 = p.2 :=
      StatusTable.canonical_eq_self (hsettled (t.canonical p.2) rfl hform)
    simp [hself]

/-- Type and status of a section can be put back into its other fields. -/
theorem marks_ofEntity (path : Path) (time : Int)
    (hknown : ∀ s, heading.status = some s → t.canonical? s ≠ none)
    (hsettled : t.IsSettled (ofSection m t heading level line body).status) :
    (ofEntity (ofSection m t heading level line body) path time).Marks t := by
  have htype := isTaken_take? "Type" "type" (given m body)
  have hfields : (ofEntity (ofSection m t heading level line body) path time).fields =
      (stated heading.status.isSome (typed (given m body)).2).2 :=
    ofSection_fields m t heading level line body
  refine ⟨?_, fun hform ↦ ?_, fun hform s hs ↦ ?_⟩
  · rw [inlineType_ofEntity, hfields]
    refine htype.congr (fun hnone ↦ ?_) (fun hnone ↦ ?_)
    all_goals
      unfold stated
      split
      · exact hnone
      · rw [get?_take?_of_ne (by decide) (by decide)]
        exact hnone
  · obtain ⟨hheading, hshown⟩ := shownStatus_ofEntity path time hknown hsettled hform
    rw [hshown, hfields, hheading]
    exact isTaken_take? "Status" "status" _
  · have hs : (ofSection m t heading level line body).status = some s := hs
    have hform : Heading.marker? t (ofSection m t heading level line body).status = none := hform
    rw [hs] at hform
    exact StatusTable.canonical_of_canonical?_eq_none (hsettled s hs hform)

/-- The fields of the record of a section, its type and a written status are held by the section. -/
theorem given_of_fields (hv : (ofSection m t heading level line body).fields.get? k = some v) :
    (given m body).get? k = some v := by
  rw [ofSection_fields] at hv
  unfold stated at hv
  split at hv
  · exact get?_take?_rest hv
  · exact get?_take?_rest (get?_take?_rest hv)

theorem given_of_inlineType (path : Path) (time : Int)
    (hv : (ofEntity (ofSection m t heading level line body) path time).inlineType = some (k, v)) :
    (given m body).get? k = some v := by
  rw [inlineType_ofEntity] at hv
  exact get?_of_take? hv

theorem given_of_writtenStatus (path : Path) (time : Int)
    (hknown : ∀ s, heading.status = some s → t.canonical? s ≠ none)
    (hsettled : t.IsSettled (ofSection m t heading level line body).status)
    (hv : (ofEntity (ofSection m t heading level line body) path time).writtenStatus t =
      some (k, v)) : (given m body).get? k = some v := by
  unfold writtenStatus at hv
  split at hv
  · simp at hv
  · next hform =>
    obtain ⟨-, hshown⟩ := shownStatus_ofEntity path time hknown hsettled
      (Option.not_isSome_iff_eq_none.1 hform)
    rw [hshown] at hv
    exact get?_take?_rest (get?_of_take? hv)

end Single

/-! ## A new field -/

section Assign

/-- Setting a value changes the status, the fields and the sources at most. -/
theorem assign_frame (t : StatusTable) (key value : Text) (now : Int) (r : Record) :
    Store.assign t key value now r =
      { r with
        status := (Store.assign t key value now r).status
        fields := (Store.assign t key value now r).fields
        sources := (Store.assign t key value now r).sources } := by
  unfold Store.assign
  split <;> rfl

theorem name_assign (t : StatusTable) (key value : Text) (now : Int) (r : Record) :
    (Store.assign t key value now r).name = r.name := by rw [assign_frame]

theorem primary_assign (t : StatusTable) (key value : Text) (now : Int) (r : Record) :
    (Store.assign t key value now r).primary = r.primary := by rw [assign_frame]

variable {key : Text} (h : isStatusKey key = false) (t : StatusTable) (value : Text) (now : Int)
  (r : Record)

include h

/-- Setting a field changes the fields and their sources only. -/
theorem assign_eq :
    Store.assign t key value now r =
      { r with
        fields := r.fields.insert key value
        sources := (Store.assign t key value now r).sources } := by
  unfold Store.assign
  rw [h]
  rfl

theorem fields_assign : (Store.assign t key value now r).fields = r.fields.insert key value := by
  rw [assign_eq h]

theorem title_assign : (Store.assign t key value now r).title = r.title := by rw [assign_eq h]

theorem status_assign : (Store.assign t key value now r).status = r.status := by rw [assign_eq h]

theorem dialect_assign : (Store.assign t key value now r).dialect = r.dialect := by rw [assign_eq h]

/-- The table has no part in setting a field. -/
theorem assign_congr (t' : StatusTable) :
    Store.assign t key value now r = Store.assign t' key value now r := by
  unfold Store.assign
  rw [h]
  rfl

end Assign

theorem Marks.assign {key : Text} (hr : r.Marks t) (h : isStatusKey key = false)
    (hkey : isMarkKey key = false) (t' : StatusTable) (value : Text) (now : Int) :
    (Store.assign t' key value now r).Marks t := by
  have hne := ne_of_isMarkKey hkey
  rw [assign_eq h]
  refine ⟨?_, fun hform ↦ ?_, hr.status_stays⟩
  · exact hr.type_taken.insert (hne "Type" (by simp)) (hne "type" (by simp)) value
  · exact (hr.status_taken hform).insert (hne "Status" (by simp)) (hne "status" (by simp)) value

end Record

end Markbook
