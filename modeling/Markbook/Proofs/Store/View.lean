import Markbook.Proofs.TextMap
import Markbook.Store.Merge

/-!
# What a Record Says

A `View` of a record is what it says, without the sources it says it from.  Merging one more entity
changes the fields and the status at most, and nothing when the entity says what the record says
already (`Record.view_merge_of_view_eq`).
-/

namespace Markbook

/-- What a store says of an entity. -/
structure View where
  name : Text
  title : Text
  type : Text
  status : Option Text
  fields : Fields
  children : List Text
deriving DecidableEq

namespace View

/-- Adds children that are not there yet. -/
def link (children : List Text) (v : View) : View :=
  { v with
    children := children.foldl
      (fun l c ↦ if c = v.name || l.contains c then l else l ++ [c]) v.children }

theorem eq_of_children {v w : View} (h : { v with children := [] } = { w with children := [] })
    (hchildren : v.children = w.children) : v = w := by
  cases v
  cases w
  simp_all

end View

/-- What an entity says, before it is linked to its children. -/
def Entity.view (e : Entity) : View := ⟨e.name, e.title, e.type, e.status, e.fields, []⟩

namespace Record

def view (r : Record) : View := ⟨r.name, r.title, r.type, r.status, r.fields, r.children⟩

variable {path : Path} {time : Int} {e : Entity} {r : Record}

/-! ## Merging one entity -/

theorem view_seen (path : Path) (r : Record) : (r.seen path).view = r.view := by
  unfold seen
  split <;> rfl

theorem view_choosePrimary (e : Entity) (path : Path) (r : Record) :
    (r.choosePrimary e path).view = r.view := by
  unfold choosePrimary
  split <;> rfl

/-- Merging a field changes the fields at most. -/
theorem view_mergeField (path : Path) (time : Int) (r : Record) (k v : Text) :
    ∃ fields, (mergeField path time r k v).view = { r.view with fields := fields } ∧
      (r.fields.get? k = some v → fields = r.fields) := by
  unfold mergeField
  split
  · exact ⟨r.fields.insert k v, rfl, fun h ↦ TextMap.insert_of_get? h⟩
  · exact ⟨r.fields, rfl, fun _ ↦ rfl⟩

theorem view_foldl_mergeField (path : Path) (time : Int) (l : List (Text × Text)) (r : Record) :
    ∃ fields, (l.foldl (fun r f ↦ mergeField path time r f.1 f.2) r).view =
        { r.view with fields := fields } ∧
      ((∀ f ∈ l, r.fields.get? f.1 = some f.2) → fields = r.fields) := by
  induction l generalizing r with
  | nil => exact ⟨r.fields, rfl, fun _ ↦ rfl⟩
  | cons f l ih =>
    obtain ⟨one, hone, hsame⟩ := view_mergeField path time r f.1 f.2
    obtain ⟨all, hall, hsameAll⟩ := ih (mergeField path time r f.1 f.2)
    have hfields : (mergeField path time r f.1 f.2).fields = one := congrArg View.fields hone
    refine ⟨all, ?_, fun h ↦ ?_⟩
    · rw [List.foldl_cons, hall, hone]
    · rw [List.forall_mem_cons] at h
      have hone := hsame h.1
      rw [hsameAll fun g hg ↦ by rw [hfields, hone]; exact h.2 g hg, hfields, hone]

theorem view_mergeStatus (e : Entity) (path : Path) (time : Int) (r : Record) :
    (r.mergeStatus e path time).view = r.view ∨
      (r.mergeStatus e path time).view = { r.view with status := e.status } := by
  unfold mergeStatus
  split
  · next s hs =>
    split
    · right
      rw [hs]
      rfl
    · exact .inl rfl
  · exact .inl rfl

/-- Merging changes fields and status at most, and neither when they are the same already. -/
theorem view_merge (e : Entity) (path : Path) (time : Int) (r : Record) :
    ∃ fields status, (merge e path time r).view =
      { r.view with fields := fields, status := status } ∧
      (r.fields = e.fields → fields = r.fields) ∧ (status = r.status ∨ status = e.status) := by
  obtain ⟨fields, hfields, hsame⟩ :=
    view_foldl_mergeField path time e.fields.entries (r.seen path)
  have hseen := view_seen path r
  have hkeep : r.fields = e.fields → fields = r.fields := by
    intro h
    have hf : (r.seen path).fields = r.fields := congrArg View.fields hseen
    rw [hsame, hf]
    intro f hf'
    rw [hf, h]
    exact TextMap.mem_entries_iff.1 hf'
  unfold merge
  simp only [view_choosePrimary]
  rcases view_mergeStatus e path time
    (e.fields.entries.foldl (fun r f ↦ mergeField path time r f.1 f.2) (r.seen path)) with h | h
  · exact ⟨fields, r.status, by rw [h, hfields, hseen]; rfl, hkeep, .inl rfl⟩
  · exact ⟨fields, e.status, by rw [h, hfields, hseen], hkeep, .inr rfl⟩

theorem name_merge : (merge e path time r).name = r.name := by
  obtain ⟨_, _, h, -, -⟩ := view_merge e path time r
  exact congrArg View.name h

theorem children_merge : (merge e path time r).children = r.children := by
  obtain ⟨_, _, h, -, -⟩ := view_merge e path time r
  exact congrArg View.children h

/-- An entity that says what is known changes nothing. -/
theorem view_merge_of_view_eq (h : r.view = e.view) : (merge e path time r).view = e.view := by
  obtain ⟨fields, status, hview, hfields, hstatus⟩ := view_merge e path time r
  have hsame : fields = r.fields := hfields (congrArg View.fields h)
  have hsameStatus : status = r.status := by
    have heq : r.status = e.status := congrArg View.status h
    rcases hstatus with hs | hs
    · exact hs
    · rw [hs, heq]
  rw [hview, hsame, hsameStatus, ← h]
  rfl

/-- Merging changes the list of files only by the file of the entity. -/
theorem files_merge (e : Entity) (path : Path) (time : Int) (r : Record) :
    (merge e path time r).seenIn = (r.seen path).seenIn ∧
      ((merge e path time r).primary = r.primary ∨ (merge e path time r).primary = path) := by
  have hfold (l : List (Text × Text)) (r : Record) :
      (l.foldl (fun r f ↦ mergeField path time r f.1 f.2) r).seenIn = r.seenIn ∧
        (l.foldl (fun r f ↦ mergeField path time r f.1 f.2) r).primary = r.primary := by
    induction l generalizing r with
    | nil => exact ⟨rfl, rfl⟩
    | cons f l ih =>
      rw [List.foldl_cons, (ih _).1, (ih _).2]
      unfold mergeField
      split <;> exact ⟨rfl, rfl⟩
  have hstatus (r : Record) : (r.mergeStatus e path time).seenIn = r.seenIn ∧
      (r.mergeStatus e path time).primary = r.primary := by
    unfold mergeStatus
    split
    · split <;> exact ⟨rfl, rfl⟩
    · exact ⟨rfl, rfl⟩
  have hseen : (r.seen path).primary = r.primary := by
    unfold seen
    split <;> rfl
  obtain ⟨hstatusSeen, hstatusPrimary⟩ := hstatus
    (e.fields.entries.foldl (fun r f ↦ mergeField path time r f.1 f.2) (r.seen path))
  obtain ⟨hfoldSeen, hfoldPrimary⟩ := hfold e.fields.entries (r.seen path)
  unfold merge choosePrimary
  simp only
  split
  · exact ⟨hstatusSeen.trans hfoldSeen, .inr rfl⟩
  · exact ⟨hstatusSeen.trans hfoldSeen, .inl (hstatusPrimary.trans (hfoldPrimary.trans hseen))⟩

theorem primary_merge (h : r.primary = path) : (merge e path time r).primary = path := by
  rcases (files_merge e path time r).2 with hprimary | hprimary
  · exact hprimary.trans h
  · exact hprimary

end Record

end Markbook
