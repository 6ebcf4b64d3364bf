import Markbook.Proofs.Disk
import Markbook.Proofs.Store.Run

/-!
# Sound Stores

A store is sound when its list of names has the keys of its map, each once, every record stands
under its own name, the children of a record are distinct records of the store other than itself, a
record knows all files that its values come from, and values and sources belong to each other
(`Store.IsSound`).  Loading documents, setting values and writing new entities keep a store sound,
whether they succeed or fail, so every store that comes of an empty one is sound
(`Store.isSound_after`).
-/

namespace Markbook

/-! ## Records -/

namespace Record

/-- Is the file among those that mention the entity? -/
def IsSeen (r : Record) (p : Path) : Prop := ∃ q ∈ r.seenIn, (q == p) = true

/-- The children of a record are distinct, have known names, and are not the record itself. -/
structure HasChildren (names : List Text) (r : Record) : Prop where
  children_nodup : r.children.Nodup
  name_not_mem : r.name ∉ r.children
  children_known : ∀ c ∈ r.children, c ∈ names

/-- The files of a record are distinct, and its primary file and its sources are among them. -/
structure HasFiles (r : Record) : Prop where
  seen_ne_nil : r.seenIn ≠ []
  seen_distinct : r.seenIn.Pairwise fun p q ↦ (p == q) = false
  primary_seen : r.IsSeen r.primary
  sources_seen : ∀ k src, r.sources.get? k = some src → r.IsSeen src.path

/-- Each field has a source, each source is that of a field or of the status, and the status has a
source exactly when it is there. -/
structure HasSources (r : Record) : Prop where
  fields_sourced : ∀ k, r.fields.has k → r.sources.has k
  sources_used : ∀ k, r.sources.has k → r.fields.has k ∨ k = statusSource
  status_sourced : r.sources.has statusSource ↔ r.status.isSome

/-- A record of a store with these names, as it should be. -/
structure IsSound (names : List Text) (r : Record) : Prop extends
  r.HasChildren names, r.HasFiles, r.HasSources

variable {names : List Text} {r : Record} {e : Entity} {path : Path} {time : Int}

/-! ### Children -/

theorem HasChildren.mono {names' : List Text} (h : r.HasChildren names)
    (hsub : ∀ n ∈ names, n ∈ names') : r.HasChildren names' :=
  ⟨h.children_nodup, h.name_not_mem, fun c hc ↦ hsub c (h.children_known c hc)⟩

theorem hasChildren_of_nil (h : r.children = []) (names : List Text) : r.HasChildren names where
  children_nodup := by rw [h]; exact List.nodup_nil
  name_not_mem := by rw [h]; exact List.not_mem_nil
  children_known := by rw [h]; simp

theorem HasChildren.link {l : List Text} (h : r.HasChildren names) (hl : ∀ c ∈ l, c ∈ names) :
    (r.link l).HasChildren names := by
  unfold Record.link
  induction l generalizing r with
  | nil => exact h
  | cons c l ih =>
    rw [List.forall_mem_cons] at hl
    rw [List.foldl_cons]
    split
    · exact ih h hl.2
    · next hnot =>
      simp only [Bool.or_eq_true, decide_eq_true_eq, List.contains_eq_mem, not_or] at hnot
      apply ih (r := { r with children := r.children ++ [c] }) _ hl.2
      refine ⟨?_, ?_, ?_⟩
      · exact List.nodup_append.2 ⟨h.children_nodup, List.nodup_singleton c, by
          rintro a ha b hb rfl
          exact hnot.2 (List.mem_singleton.1 hb ▸ ha)⟩
      · simp only [List.mem_append, List.mem_singleton, not_or]
        exact ⟨h.name_not_mem, Ne.symm hnot.1⟩
      · simp only [List.mem_append, List.mem_singleton]
        rintro c' (hc' | rfl)
        · exact h.children_known c' hc'
        · exact hl.1

/-! ### Values and their sources -/

/-- Apart from a field named like the status, a value is there exactly when its source is; that
field needs a status. -/
theorem hasSources_iff :
    r.HasSources ↔
      (∀ x : Slot, x.IsOwn → (r.value? x).isSome = (r.sources.get? x.key).isSome) ∧
        ((r.fields.get? statusSource).isSome → r.status.isSome) := by
  constructor
  · intro h
    refine ⟨fun x hx ↦ ?_, fun hfield ↦ h.status_sourced.1 (h.fields_sourced _ hfield)⟩
    rw [Bool.eq_iff_iff]
    cases x with
    | status => exact h.status_sourced.symm
    | field k =>
      refine ⟨h.fields_sourced k, fun hsource ↦ ?_⟩
      rcases h.sources_used k hsource with hfield | rfl
      · exact hfield
      · exact absurd rfl hx
  · rintro ⟨hown, hfield⟩
    have hstatus : r.status.isSome = r.sources.has statusSource :=
      hown .status Slot.isOwn_status
    have hother {k : Text} (hk : k ≠ statusSource) : r.fields.has k = r.sources.has k :=
      hown (.field k) (Slot.isOwn_field hk)
    refine ⟨fun k hk ↦ ?_, fun k hk ↦ ?_, by rw [hstatus]⟩
    · by_cases hkey : k = statusSource
      · rw [hkey] at hk ⊢
        rw [← hstatus]
        exact hfield hk
      · rw [← hother hkey]
        exact hk
    · by_cases hkey : k = statusSource
      · exact .inr hkey
      · rw [← hother hkey] at hk
        exact .inl hk

theorem HasSources.merge (h : r.HasSources) (he : e.IsStated) :
    (Record.merge e path time r).HasSources := by
  obtain ⟨hown, hfield⟩ := hasSources_iff.1 h
  refine hasSources_iff.2 ⟨fun x hx ↦ ?_, fun hsome ↦ ?_⟩
  · have hheld := held_merge e path time r x
    have hmentions := Entity.mentions_iff he hx
    have hold := hown x hx
    change ((Record.merge e path time r).held x).value.isSome =
      ((Record.merge e path time r).held x).source.isSome
    rw [hheld]
    unfold Entity.mention?
    split
    · next hm =>
      change (Held.take (r.held x) _).value.isSome = (Held.take (r.held x) _).source.isSome
      unfold Held.take
      split
      · obtain ⟨v, hv⟩ := Option.isSome_iff_exists.1 (hmentions.1 hm)
        simp [hv]
      · exact hold
    · exact hold
  · obtain ⟨hfields, -, hstatus⟩ := get?_merge e path time r statusSource
    rw [hfields] at hsome
    rw [hstatus]
    split at hsome
    · next haccepts =>
      rw [if_pos haccepts]
      rw [Option.isSome_or, Bool.or_eq_true] at hsome ⊢
      exact hsome.imp he hfield
    · next haccepts =>
      rw [if_neg haccepts]
      exact hfield hsome

theorem HasSources.assign (h : r.HasSources) (t : StatusTable) (key value : Text) (now : Int) :
    (Store.assign t key value now r).HasSources := by
  obtain ⟨hown, hfield⟩ := hasSources_iff.1 h
  refine hasSources_iff.2 ⟨fun x hx ↦ ?_, fun hsome ↦ ?_⟩
  · change ((Store.assign t key value now r).held x).value.isSome =
      ((Store.assign t key value now r).held x).source.isSome
    rw [held_assign_of_isOwn t key value now r hx]
    split
    · rfl
    · exact hown x hx
  · have hfields : (Store.assign t key value now r).fields.get? statusSource =
        r.fields.get? statusSource :=
      (value?_assign t key value now r (.field statusSource)).trans (if_neg (Slot.isOwn_ofKey key))
    have hstatus := value?_assign t key value now r .status
    rw [hfields] at hsome
    change ((Store.assign t key value now r).value? .status).isSome
    rw [hstatus]
    split
    · rfl
    · exact hfield hsome

/-! ### Files -/

theorem isSeen_seen (path : Path) (r : Record) : (r.seen path).IsSeen path := by
  unfold seen
  split
  · next h => simpa [IsSeen] using h
  · exact ⟨path, by simp, Path.beq_refl path⟩

theorem IsSeen.seen {p : Path} (h : r.IsSeen p) (path : Path) : (r.seen path).IsSeen p := by
  obtain ⟨q, hq, heq⟩ := h
  unfold Record.seen
  split
  · exact ⟨q, hq, heq⟩
  · exact ⟨q, List.mem_append_left _ hq, heq⟩

theorem HasFiles.merge (h : r.HasFiles) (e : Entity) (path : Path) (time : Int) :
    (Record.merge e path time r).HasFiles := by
  obtain ⟨hseen, hprimary⟩ := files_merge e path time r
  have hnew : (Record.merge e path time r).IsSeen path := by
    unfold IsSeen
    rw [hseen]
    exact isSeen_seen path r
  have hold {p : Path} (hp : r.IsSeen p) : (Record.merge e path time r).IsSeen p := by
    unfold IsSeen
    rw [hseen]
    exact hp.seen path
  refine ⟨?_, ?_, ?_, fun k src hsrc ↦ ?_⟩
  · obtain ⟨p, hp, -⟩ := hnew
    exact List.ne_nil_of_mem hp
  · rw [hseen]
    unfold Record.seen
    split
    · exact h.seen_distinct
    · next hnot =>
      refine List.pairwise_append.2 ⟨h.seen_distinct, List.pairwise_singleton _ _, ?_⟩
      intro p hp q hq
      rw [List.mem_singleton.1 hq]
      simp only [List.any_eq_true, not_exists, not_and, Bool.not_eq_true] at hnot
      exact hnot p hp
  · rcases hprimary with hprimary | hprimary
    · rw [hprimary]
      exact hold h.primary_seen
    · rw [hprimary]
      exact hnew
  · obtain ⟨-, hsources, -⟩ := get?_merge e path time r k
    rw [hsources] at hsrc
    split at hsrc
    · rw [← Option.some.inj hsrc]
      exact hnew
    · exact hold (h.sources_seen k src hsrc)

theorem HasFiles.assign (h : r.HasFiles) (t : StatusTable) (key value : Text) (now : Int) :
    (Store.assign t key value now r).HasFiles := by
  have hseen : (Store.assign t key value now r).seenIn = r.seenIn := by rw [assign_frame]
  have hold {p : Path} (hp : r.IsSeen p) : (Store.assign t key value now r).IsSeen p := by
    unfold IsSeen
    rw [hseen]
    exact hp
  refine ⟨?_, ?_, ?_, fun k src hsrc ↦ ?_⟩
  · rw [hseen]
    exact h.seen_ne_nil
  · rw [hseen]
    exact h.seen_distinct
  · rw [primary_assign]
    exact hold h.primary_seen
  · rw [sources_assign, TextMap.get?_insert] at hsrc
    split at hsrc
    · rw [← Option.some.inj hsrc]
      unfold assigned
      cases hget : r.sources.get? (Slot.ofKey key).key with
      | none => exact hold h.primary_seen
      | some old => exact hold (h.sources_seen _ old hget)
    · exact hold (h.sources_seen k src hsrc)

/-! ### Sound records -/

theorem HasChildren.congr {r' : Record} (h : r.HasChildren names) (hname : r'.name = r.name)
    (hchildren : r'.children = r.children) : r'.HasChildren names := by
  refine ⟨?_, ?_, ?_⟩
  · rw [hchildren]
    exact h.children_nodup
  · rw [hname, hchildren]
    exact h.name_not_mem
  · rw [hchildren]
    exact h.children_known

theorem IsSound.mono {names' : List Text} (h : r.IsSound names)
    (hsub : ∀ n ∈ names, n ∈ names') : r.IsSound names' :=
  ⟨h.toHasChildren.mono hsub, h.toHasFiles, h.toHasSources⟩

/-- A record that comes from one file is sound when the key of the status is no field of its own. -/
theorem isSound_of_single (names : List Text) (hchildren : r.children = [])
    (hseen : r.seenIn = [r.primary])
    (hsources : ∀ k, r.sources.get? k =
      if (r.fields.get? k).isSome || (k = statusSource && r.status.isSome) then
        some ⟨r.primary, time⟩
      else none)
    (hstated : (r.fields.get? statusSource).isSome → r.status.isSome) : r.IsSound names := by
  have hprimary : r.IsSeen r.primary :=
    ⟨r.primary, by rw [hseen]; exact List.mem_singleton_self _, Path.beq_refl r.primary⟩
  have hhas (k : Text) :
      r.sources.has k = (r.fields.has k || (k = statusSource && r.status.isSome)) := by
    change (r.sources.get? k).isSome =
      ((r.fields.get? k).isSome || (k = statusSource && r.status.isSome))
    rw [hsources]
    split
    · next h =>
      rw [h]
      rfl
    · next h =>
      rw [Bool.not_eq_true] at h
      rw [h]
      rfl
  refine ⟨hasChildren_of_nil hchildren names, ⟨?_, ?_, hprimary, fun k src hsrc ↦ ?_⟩,
    ⟨fun k hk ↦ ?_, fun k hk ↦ ?_, ?_⟩⟩
  · rw [hseen]
    exact List.cons_ne_nil _ _
  · rw [hseen]
    exact List.pairwise_singleton _ _
  · rw [hsources] at hsrc
    split at hsrc
    · rw [← Option.some.inj hsrc]
      exact hprimary
    · simp at hsrc
  · rw [hhas, hk, Bool.true_or]
  · rw [hhas, Bool.or_eq_true, Bool.and_eq_true, decide_eq_true_eq] at hk
    exact hk.imp_right And.left
  · simp only [hhas, decide_true, Bool.true_and, Bool.or_eq_true]
    exact ⟨fun h ↦ h.elim hstated id, .inr⟩

theorem isSound_ofEntity (he : e.IsStated) (names : List Text) (path : Path) (time : Int) :
    (ofEntity e path time).IsSound names :=
  isSound_of_single names rfl rfl
    (fun k ↦ get?_single_source e.fields e.status.isSome ⟨path, time⟩ k) he

theorem IsSound.merge (h : r.IsSound names) (he : e.IsStated) (path : Path) (time : Int) :
    (Record.merge e path time r).IsSound names :=
  ⟨h.toHasChildren.congr name_merge children_merge, h.toHasFiles.merge e path time,
    h.toHasSources.merge he⟩

theorem IsSound.link {l : List Text} (h : r.IsSound names) (hl : ∀ c ∈ l, c ∈ names) :
    (r.link l).IsSound names where
  toHasChildren := h.toHasChildren.link hl
  toHasFiles := ⟨h.seen_ne_nil, h.seen_distinct, h.primary_seen, h.sources_seen⟩
  toHasSources := ⟨h.fields_sourced, h.sources_used, h.status_sourced⟩

theorem IsSound.assign (h : r.IsSound names) (t : StatusTable) (key value : Text) (now : Int) :
    (Store.assign t key value now r).IsSound names := by
  have hchildren : (Store.assign t key value now r).children = r.children := by rw [assign_frame]
  exact ⟨h.toHasChildren.congr (name_assign t key value now r) hchildren,
    h.toHasFiles.assign t key value now, h.toHasSources.assign t key value now⟩

/-- A new entity has no field with the key of its status. -/
theorem isSound_created (names : List Text) (t : StatusTable) (name title : Text) (given : Fields)
    (path : Path) (d : Dialect) (now : Int) :
    (Store.created t name title given path d now).IsSound names := by
  have hfree : (Entity.withoutStatus given).get? statusSource = none := by
    unfold Entity.withoutStatus
    rw [TextMap.get?_filter given fun k ↦ !Entity.isStatusKey k]
    exact if_neg (by decide)
  refine isSound_of_single names rfl rfl (fun k ↦ get?_single_source _ _ ⟨path, now⟩ k) fun h ↦ ?_
  change ((Entity.withoutStatus given).get? statusSource).isSome = true at h
  rw [hfree] at h
  simp at h

end Record

/-! ## Stores -/

namespace Store

/-- A store whose names and keys are in step, and whose records are sound. -/
structure IsSound (s : Store) : Prop extends s.IsIndexed where
  entities_sound : ∀ n r, s.entities.get? n = some r → r.IsSound s.entities.keys

variable {s : Store} {n : Text}

theorem isSound_of_records [s.IsIndexed] (h : ∀ r ∈ s.records, r.IsSound s.names) : s.IsSound where
  entities_sound n r hr := by
    refine (h r (mem_of_get? hr)).mono fun n hn ↦ ?_
    rw [names_eq_order] at hn
    exact (IsIndexed.mem_order_iff n).1 hn

theorem IsSound.records_sound (h : s.IsSound) : ∀ r ∈ s.records, r.IsSound s.names := by
  have hindexed := h.toIsIndexed
  intro r hr
  refine (h.entities_sound r.name r (get?_of_mem hr)).mono fun n hn ↦ ?_
  rw [names_eq_order]
  exact (IsIndexed.mem_order_iff n).2 hn

/-! ### Loading -/

theorem isSound_load (h : s.IsSound) (doc : Document) (time : Int) : (s.load doc time).IsSound := by
  have hindexed := h.toIsIndexed
  apply isSound_of_records
  rw [names_load]
  have hmem (n : Text) : n ∈ ((s.taken doc).foldl (mergeEntity doc.path time) s).names ↔
      n ∈ s.names ∨ ∃ e ∈ s.taken doc, e.name = n := mem_names_foldl
  have hstated : ∀ e ∈ s.taken doc, e.IsStated := fun e he ↦ isStated_of_mem_taken he
  apply load_induct
  · exact fun r hr ↦ (h.records_sound r hr).mono fun n hn ↦ (hmem n).2 (.inl hn)
  · exact fun e he ↦ Record.isSound_ofEntity (hstated e he) _ _ _
  · exact fun e he r hr _ ↦ hr.merge (hstated e he) _ _
  · exact fun p hp r hr ↦ hr.link fun c hc ↦
      (hmem c).2 (.inr (exists_of_mem_linksAll _ p hp c (List.mem_cons_of_mem _ hc)))

/-! ### Setting values -/

theorem isSound_change (h : s.IsSound) (c : Change) : (s.change c).IsSound := by
  have hindexed := h.toIsIndexed
  cases c with
  | load d =>
    change (s.loadNote d).IsSound
    unfold loadNote
    split
    · exact isSound_load h _ _
    · exact h
  | set name key value now =>
    apply isSound_of_records
    rw [change_set, names_modify (Record.name_assign s.table key value now)]
    exact forall_mem_modify h.records_sound (fun r hr ↦ hr.assign s.table key value now) name

/-! ### Writing new entities -/

/-- A record that has just been written may stand in the place of another one. -/
theorem isSound_register (h : s.IsSound) {r : Record} (hr : ∀ names, r.IsSound names) :
    (s.register r).IsSound := by
  have hindexed := h.toIsIndexed
  have hsub : ∀ n ∈ s.names, n ∈ (s.register r).names := by
    intro n hn
    rw [names_register]
    split
    · exact hn
    · exact List.mem_append_left _ hn
  have hold : ∀ r' ∈ s.records, r'.IsSound (s.register r).names := fun r' hr' ↦
    (h.records_sound r' hr').mono hsub
  apply isSound_of_records
  intro r' hr'
  obtain ⟨n, -, hget⟩ := mem_records_iff.1 hr'
  rw [get?_register] at hget
  split at hget
  · rw [← Option.some.inj hget]
    exact hr _
  · exact hold r' (mem_of_get? hget)

theorem eq_register_of_create {s' : Store} {d d' : Disk} {name title : Text} {fields : Fields}
    {path : Path} {level : Nat} {dialect : Dialect} {now : Int}
    (h : s.create d name title fields path level dialect now = .ok (s', d')) :
    s' = s.register (created s.table name title fields path dialect now) := by
  unfold create at h
  simp only at h
  split at h
  · simp at h
  · split at h
    · simp at h
    · exact (congrArg Prod.fst (Except.ok.inj h)).symm

/-! ### Steps -/

/-- One step in the life of a store: a change, a document that is loaded as it is, or a new entity
that is written to a file of a disk. -/
inductive Step where
  | change (c : Change)
  | load (doc : Document) (time : Int)
  | create (d : Disk) (name title : Text) (fields : Fields) (path : Path) (level : Nat)
    (dialect : Dialect) (now : Int)

/-- Takes a step.  One that fails leaves the store alone. -/
def step (s : Store) : Step → Store
  | .change c => s.change c
  | .load doc time => s.load doc time
  | .create d name title fields path level dialect now =>
    match s.create d name title fields path level dialect now with
    | .ok (s, _) => s
    | .error _ => s

def after (s : Store) (l : List Step) : Store := l.foldl step s

theorem isSound_step (h : s.IsSound) (a : Step) : (s.step a).IsSound := by
  cases a with
  | change c => exact isSound_change h c
  | load doc time => exact isSound_load h doc time
  | create d name title fields path level dialect now =>
    change Store.IsSound (match s.create d name title fields path level dialect now with
      | .ok (s, _) => s
      | .error _ => s)
    split
    · next s' d' hcreate =>
      rw [eq_register_of_create hcreate]
      exact isSound_register h fun names ↦ Record.isSound_created names _ _ _ _ _ _ _
    · exact h

theorem isSound_empty (t : StatusTable) : (empty t).IsSound :=
  isSound_of_records (by simp)

theorem IsSound.after (h : s.IsSound) (l : List Step) : (s.after l).IsSound := by
  induction l generalizing s with
  | nil => exact h
  | cons a l ih => exact ih (isSound_step h a)

instance isIndexed_after (t : StatusTable) (l : List Step) : ((empty t).after l).IsIndexed :=
  ((isSound_empty t).after l).toIsIndexed

/-- Whatever is done to an empty store, it stays sound. -/
theorem isSound_after (t : StatusTable) (l : List Step) : ((empty t).after l).IsSound :=
  (isSound_empty t).after l

end Store

end Markbook
