import Markbook.Proofs.Store.Sound

/-!
# Where Values Come From

A value of an entity has a source that names a file.  A load that gives the value gives its own
path; setting the value keeps the path that is there, and takes the primary file only for a key
without a source (`Store.Stamped`).  So the path of a value that was set may be that of a file
which neither has the value nor is the one that it is written to (`Store.sources_after`).  The
source of the status is kept under a key that a field may have, too, and a field with that key
follows it.
-/

namespace Markbook

namespace Held

variable {h : Held} {l : List Mention} {src : Source}

/-- Mentions with the source that is there change the value only, to the last one they have. -/
theorem foldl_take_same (hs : h.source = some src) (hl : ∀ m ∈ l, m.source = src) :
    (l.foldl take h).source = some src ∧
      ((∃ m ∈ l, m.value.isSome ∧ (l.foldl take h).value = m.value) ∨
        (∀ m ∈ l, m.value = none) ∧ (l.foldl take h).value = h.value) := by
  induction l generalizing h with
  | nil => exact ⟨hs, .inr ⟨by simp, rfl⟩⟩
  | cons m l ih =>
    rw [List.forall_mem_cons] at hl
    have htake : h.take m = ⟨m.value.or h.value, some src⟩ := by
      rw [take_of_admits (by simp [admits, hs, hl.1]), hl.1]
    obtain ⟨hsource, hvalue⟩ := ih (h := h.take m) (by rw [htake]) hl.2
    rw [List.foldl_cons]
    refine ⟨hsource, ?_⟩
    rcases hvalue with ⟨m', hm', hsome, hvalue⟩ | ⟨hnone, hvalue⟩
    · exact .inl ⟨m', List.mem_cons_of_mem _ hm', hsome, hvalue⟩
    · rw [hvalue, htake]
      cases hm : m.value with
      | some v => exact .inl ⟨m, List.mem_cons_self, by rw [hm]; rfl, by rw [hm]; rfl⟩
      | none => exact .inr ⟨List.forall_mem_cons.2 ⟨hm, hnone⟩, rfl⟩

/-- The mentions of one document, when what is held admits them. -/
theorem foldl_take_of_admits (hne : l ≠ []) (hl : ∀ m ∈ l, m.source = src)
    (hadmits : h.admits src.modified = true) :
    (l.foldl take h).source = some src ∧
      ((∃ m ∈ l, m.value.isSome ∧ (l.foldl take h).value = m.value) ∨
        (∀ m ∈ l, m.value = none) ∧ (l.foldl take h).value = h.value) := by
  obtain ⟨m, r, rfl⟩ := List.exists_cons_of_ne_nil hne
  have hm := hl m List.mem_cons_self
  -- The first mention would be taken by what is held with the new source, too.
  have hfold : (m :: r).foldl take h = (m :: r).foldl take ⟨h.value, some src⟩ := by
    rw [List.foldl_cons, List.foldl_cons, take_of_admits (by rwa [hm]),
      take_of_admits (by simp [admits, hm])]
  rw [hfold]
  exact foldl_take_same rfl hl

theorem foldl_take_of_not_admits (hl : ∀ m ∈ l, m.source = src)
    (hadmits : h.admits src.modified = false) : l.foldl take h = h := by
  induction l with
  | nil => rfl
  | cons m l ih =>
    rw [List.forall_mem_cons] at hl
    have htake : h.take m = h := by
      unfold take
      rw [hl.1, hadmits]
      rfl
    rw [List.foldl_cons, htake, ih hl.2]

end Held

/-- Does a document have this value for a field of an entity? -/
def Document.Carries (doc : Document) (t : StatusTable) (n k v : Text) : Prop :=
  ∃ e ∈ (Store.empty t).taken doc, e.name = n ∧ e.fields.get? k = some v

namespace Store

/-! ## Steps that give a key a new source -/

namespace Step

/-- The document that a step loads, with its time. -/
def loaded? : Step → Option (Document × Int)
  | .change (.load d) => (Document.read? d.path d.content).map fun doc ↦ (doc, d.time)
  | .change (.set ..) => none
  | .load doc time => some (doc, time)
  | .create .. => none

def IsCreate : Step → Prop
  | .create .. => True
  | _ => False

end Step

variable {s : Store} {t : StatusTable} {n k v : Text} {c : Step} {l a b : List Step}

/-- Does a step give a key of an entity a new source? -/
inductive Stamps (s : Store) (n k : Text) : Step → Prop where
  /-- A document that is not older mentions the key. -/
  | load {c : Step} {doc : Document} {time : Int} {e : Entity} (hc : c.loaded? = some (doc, time))
      (hadmits : (s.held n (.field k)).admits time = true) (he : e ∈ s.taken doc)
      (hname : e.name = n)
      (hmentions : e.mentions k = true) : Stamps s n k c
  | set {key value : Text} {now : Int} {r : Record} (hr : s.get? n = some r)
      (hkey : (Slot.ofKey key).key = k) : Stamps s n k (.change (.set n key value now))

/-- The source that a step gives a key, and why the field of the key has its value after the
step. -/
inductive Stamped (s : Store) (n k v : Text) : Step → Source → Prop where
  /-- A document with the value was loaded. -/
  | loaded {c : Step} {doc : Document} {time : Int} (hc : c.loaded? = some (doc, time))
      (hcarries : doc.Carries s.table n k v) : Stamped s n k v c ⟨doc.path, time⟩
  /-- The value was set. -/
  | set {r : Record} {now : Int} (hr : s.get? n = some r) (hkey : Entity.isStatusKey k = false) :
      Stamped s n k v (.change (.set n k v now)) (r.assigned k now)
  /-- A document was loaded that has a status only, and the field shares its source. -/
  | loadedStatus {c : Step} {doc : Document} {time : Int} (hc : c.loaded? = some (doc, time))
      (hk : k = Record.statusSource) (hold : (s.held n (.field k)).value = some v) :
      Stamped s n k v c ⟨doc.path, time⟩
  /-- The status was set, and the field shares its source. -/
  | setStatus {r : Record} {key value : Text} {now : Int} (hr : s.get? n = some r)
      (hkey : Entity.isStatusKey key = true) (hk : k = Record.statusSource)
      (hold : (s.held n (.field k)).value = some v) :
      Stamped s n k v (.change (.set n key value now)) (r.assigned key now)

theorem step_of_loaded {doc : Document} {time : Int} (h : c.loaded? = some (doc, time))
    (s : Store) :
    s.step c = s.load doc time := by
  cases c with
  | create => simp [Step.loaded?] at h
  | load doc' time' =>
    simp only [Step.loaded?, Option.some.injEq, Prod.mk.injEq] at h
    obtain ⟨rfl, rfl⟩ := h
    rfl
  | change c =>
    cases c with
    | set => simp [Step.loaded?] at h
    | load d =>
      obtain ⟨doc', hdoc, heq⟩ := Option.map_eq_some_iff.1 h
      obtain ⟨rfl, rfl⟩ := Prod.mk.inj heq
      simp [step, change, loadNote, hdoc]

/-- A step loads a document, sets a value or does nothing, unless it writes an entity. -/
theorem step_cases (hc : ¬ c.IsCreate) (s : Store) :
    (∃ doc time, c.loaded? = some (doc, time)) ∨
      (∃ name key value now, c = .change (.set name key value now)) ∨ s.step c = s := by
  cases c with
  | create => exact absurd trivial hc
  | load doc time => exact .inl ⟨doc, time, rfl⟩
  | change c =>
    cases c with
    | set name key value now => exact .inr (.inl ⟨name, key, value, now, rfl⟩)
    | load d =>
      cases hdoc : Document.read? d.path d.content with
      | some doc => exact .inl ⟨doc, d.time, by simp [Step.loaded?, hdoc]⟩
      | none =>
        refine .inr (.inr ?_)
        simp [step, change, loadNote, hdoc]

theorem table_step (hc : ¬ c.IsCreate) (s : Store) : (s.step c).table = s.table := by
  rcases step_cases hc s with ⟨doc, time, hdoc⟩ | ⟨name, key, value, now, rfl⟩ | hstep
  · rw [step_of_loaded hdoc, table_load]
  · exact table_change s _
  · rw [hstep]

theorem table_after (hl : ∀ c ∈ l, ¬ c.IsCreate) (s : Store) : (s.after l).table = s.table := by
  induction l generalizing s with
  | nil => rfl
  | cons c l ih =>
    rw [List.forall_mem_cons] at hl
    calc ((s.step c).after l).table
        = (s.step c).table := ih hl.2 (s.step c)
      _ = s.table := table_step hl.1 s

/-- Setting a value of an entity that is there. -/
theorem get?_set {r : Record} (hr : s.get? n = some r) (key value : Text) (now : Int) :
    (s.step (.change (.set n key value now))).get? n = some (assign s.table key value now r) := by
  change (s.change (.set n key value now)).get? n = _
  rw [change_set, get?_modify, hr, Option.map_some,
    if_pos rfl]

theorem held_set {r : Record} (hr : s.get? n = some r) (key value : Text) (now : Int) (x : Slot) :
    (s.step (.change (.set n key value now))).held n x =
      (assign s.table key value now r).held x := by
  unfold held
  rw [get?_set hr]
  rfl

theorem held_set_of_ne {name : Text} (h : name = n → s.get? n = none) (key value : Text) (now : Int)
    (x : Slot) : (s.step (.change (.set name key value now))).held n x = s.held n x := by
  change (s.change (.set name key value now)).held n x = _
  unfold held
  rw [change_set, get?_modify]
  by_cases hname : n = name
  · rw [h hname.symm]
    rfl
  · simp only [if_neg hname, Option.map_id']

theorem mem_mentions {x : Slot} {path : Path} {time : Int} {E : List Entity} {m : Mention} :
    m ∈ mentions n x path time E ↔
      ∃ e ∈ E, e.name = n ∧ e.mentions x.key = true ∧ m = ⟨e.value? x, ⟨path, time⟩⟩ := by
  unfold mentions Entity.mention?
  simp only [List.mem_filterMap, List.mem_filter, decide_eq_true_eq, Option.ite_none_right_eq_some,
    Option.some.injEq, and_assoc]
  simp only [eq_comm]

/-- A step that gives a key no new source leaves the field of the key alone. -/
theorem held_step_of_not_stamps (hc : ¬ c.IsCreate) (h : ¬ s.Stamps n k c) :
    (s.step c).held n (.field k) = s.held n (.field k) := by
  rcases step_cases hc s with ⟨doc, time, hdoc⟩ | ⟨name, key, value, now, rfl⟩ | hstep
  · have hsame :
        ∀ m ∈ mentions n (.field k) doc.path time (s.taken doc), m.source = ⟨doc.path, time⟩ :=
      fun m hm ↦ source_of_mem_mentions hm
    rw [step_of_loaded hdoc, held_load]
    cases hadmits : (s.held n (.field k)).admits time with
    | false => exact Held.foldl_take_of_not_admits hsame hadmits
    | true =>
      have hnil : mentions n (.field k) doc.path time (s.taken doc) = [] := by
        rw [List.eq_nil_iff_forall_not_mem]
        intro m hm
        obtain ⟨e, he, hname, hmentions, -⟩ := mem_mentions.1 hm
        exact h (.load hdoc hadmits he hname hmentions)
      rw [hnil]
      rfl
  · by_cases hname : name = n
    · subst hname
      cases hr : s.get? name with
      | none => exact held_set_of_ne (fun _ ↦ hr) key value now _
      | some r =>
        have hkey : k ≠ (Slot.ofKey key).key := fun hk ↦ h (.set hr hk.symm)
        have hslot : Slot.ofKey key ≠ .field k := fun hx ↦ hkey (by rw [hx]; rfl)
        rw [held_set hr, Record.held_assign, if_neg hslot]
        unfold held
        rw [hr]
        exact congrArg (Held.mk _) (if_neg hkey)
    · exact held_set_of_ne (fun heq ↦ absurd heq hname) key value now _
  · rw [hstep]

/-- A step that gives a key a new source, seen from the value that the field of the key then has. -/
theorem exists_stamped (h : s.Stamps n k c)
    (hv : ((s.step c).held n (.field k)).value = some v) :
    ∃ src, ((s.step c).held n (.field k)).source = some src ∧ Stamped s n k v c src := by
  cases h with
  | @load _ doc time e hdoc hadmits he hname hmentions =>
    have hne : mentions n (.field k) doc.path time (s.taken doc) ≠ [] :=
      List.ne_nil_of_mem (mem_mentions.2 ⟨e, he, hname, hmentions, rfl⟩)
    have hsame :
        ∀ m ∈ mentions n (.field k) doc.path time (s.taken doc), m.source = ⟨doc.path, time⟩ :=
      fun m hm ↦ source_of_mem_mentions hm
    obtain ⟨hsource, hvalue⟩ := Held.foldl_take_of_admits hne hsame hadmits
    rw [step_of_loaded hdoc, held_load] at hv ⊢
    refine ⟨⟨doc.path, time⟩, hsource, ?_⟩
    rcases hvalue with ⟨m, hm, -, hvalue⟩ | ⟨hnone, hvalue⟩
    · obtain ⟨e', he', hname', -, rfl⟩ := mem_mentions.1 hm
      rw [hvalue] at hv
      exact .loaded hdoc ⟨e', he', hname', hv⟩
    · -- A mention without a value is one of the status.
      have hk : k = Record.statusSource := by
        by_contra hk
        have hsome :=
          (Entity.mentions_iff (isStated_of_mem_taken he) (Slot.isOwn_field hk)).1 hmentions
        have hnone' := hnone _ (mem_mentions.2 ⟨e, he, hname, hmentions, rfl⟩)
        simp only at hnone'
        rw [hnone'] at hsome
        simp at hsome
      exact .loadedStatus hdoc hk (hvalue.symm.trans hv)
  | @set key value now r hr hkey =>
    rw [held_set hr, Record.held_assign] at hv ⊢
    refine ⟨r.assigned key now, if_pos hkey.symm, ?_⟩
    cases hstatus : Entity.isStatusKey key with
    | false =>
      rw [Slot.ofKey_eq_field hstatus] at hkey hv
      obtain rfl : key = k := hkey
      obtain rfl : value = v := by simpa [Slot.kept] using hv
      exact .set hr hstatus
    | true =>
      rw [Slot.ofKey_eq_status hstatus] at hkey hv
      have hold : (s.held n (.field k)).value = some v := by
        have hne : Slot.status ≠ .field k := nofun
        rw [if_neg hne] at hv
        unfold held
        rw [hr]
        exact hv
      exact .setStatus hr hstatus hkey.symm hold

/-! ## Runs -/

/-- The last step of a run that gives a key of an entity a new source, with the steps before and
after it. -/
structure LastStamp (s : Store) (n k : Text) (l a : List Step) (c : Step)
    (b : List Step) : Prop where
  split : l = a ++ c :: b
  stamps : (s.after a).Stamps n k c
  later : ∀ y c' z, b = y ++ c' :: z → ¬ (s.after (a ++ c :: y)).Stamps n k c'

theorem after_append (s : Store) (a b : List Step) : s.after (a ++ b) = (s.after a).after b :=
  List.foldl_append

theorem after_concat (s : Store) (a : List Step) (c : Step) :
    s.after (a ++ [c]) = (s.after a).step c := after_append s a [c]

theorem LastStamp.concat (h : s.LastStamp n k l a c b) {c' : Step}
    (hc' : ¬ (s.after l).Stamps n k c') : s.LastStamp n k (l ++ [c']) a c (b ++ [c']) where
  split := by rw [h.split]; simp
  stamps := h.stamps
  later := by
    intro y d z heq
    rcases List.eq_nil_or_concat z with rfl | ⟨z, d', rfl⟩
    · obtain ⟨rfl, rfl⟩ : b = y ∧ c' = d := by simpa using heq
      rwa [← h.split]
    · rw [List.concat_eq_append, ← List.cons_append, ← List.append_assoc] at heq
      exact h.later y d z (List.append_inj_left' heq rfl)

/-- There is only one last step. -/
theorem LastStamp.unique {a' b' : List Step} {c' : Step} (h : s.LastStamp n k l a c b)
    (h' : s.LastStamp n k l a' c' b') : a = a' ∧ c = c' := by
  have hsplit := h.split.symm.trans h'.split
  rcases List.append_eq_append_iff.1 hsplit with ⟨y, rfl, heq⟩ | ⟨y, rfl, heq⟩
  · cases y with
    | nil => exact ⟨(List.append_nil a).symm, (List.cons.inj heq).1⟩
    | cons d y =>
      obtain ⟨rfl, hb⟩ := List.cons.inj heq
      exact absurd h'.stamps (h.later y c' b' hb)
  · cases y with
    | nil => exact ⟨List.append_nil a', (List.cons.inj heq).1.symm⟩
    | cons d y =>
      obtain ⟨rfl, hb⟩ := List.cons.inj heq
      exact absurd h.stamps (h'.later y c b hb)

/-- A field that has a value got its source from the last step that gave it one. -/
theorem exists_lastStamp (hl : ∀ c ∈ l, ¬ c.IsCreate)
    (hv : (((empty t).after l).held n (.field k)).value = some v) :
    ∃ a c b src, (empty t).LastStamp n k l a c b ∧
      (((empty t).after l).held n (.field k)).source = some src ∧
      Stamped ((empty t).after a) n k v c src := by
  induction l using List.reverseRecOn with
  | nil => simp [after, held, get?, empty, Held.nothing] at hv
  | append_singleton l c ih =>
    have hc : ¬ c.IsCreate := hl c (by simp)
    rw [after_concat] at hv ⊢
    by_cases hstamps : ((empty t).after l).Stamps n k c
    · obtain ⟨src, hsource, hstamped⟩ := exists_stamped hstamps hv
      exact ⟨l, c, [], src, ⟨rfl, hstamps, by simp⟩, hsource, hstamped⟩
    · have hsame := held_step_of_not_stamps hc hstamps
      rw [hsame] at hv ⊢
      obtain ⟨a, c₀, b, src, hlast, hsource, hstamped⟩ :=
        ih (fun c' hc' ↦ hl c' (List.mem_append_left _ hc')) hv
      exact ⟨a, c₀, b ++ [c], src, hlast.concat hstamps, hsource, hstamped⟩

theorem primary_eq_assigned_iff (hkey : Entity.isStatusKey k = false) (r : Record) (now : Int) :
    r.primary == (r.assigned k now).path ↔
      ∀ old, r.sources.get? k = some old → r.primary == old.path := by
  have hslot : (Slot.ofKey k).key = k := congrArg Slot.key (Slot.ofKey_eq_field hkey)
  unfold Record.assigned
  rw [hslot]
  cases r.sources.get? k with
  | none => simp [Path.beq_refl]
  | some old => simp

theorem Stamped.exists_of_set {now : Int} {src : Source}
    (h : Stamped s n k v (.change (.set n k v now)) src) (hkey : Entity.isStatusKey k = false) :
    ∃ r, s.get? n = some r ∧ src = r.assigned k now := by
  cases h with
  | loaded hc => simp [Step.loaded?] at hc
  | loadedStatus hc => simp [Step.loaded?] at hc
  | set hr => exact ⟨_, hr, rfl⟩
  | setStatus hr hstatus => simp [hkey] at hstatus

/-- Did the run load a document from this path that has the value? -/
def IsLoadedFrom (t : StatusTable) (l : List Step) (n k v : Text) (p : Path) : Prop :=
  ∃ c ∈ l, ∃ doc time, c.loaded? = some (doc, time) ∧ doc.path == p ∧ doc.Carries t n k v

/-- A load that gives a field its source gives it the value, but for the field that shares the
source of the status. -/
theorem Stamped.isLoadedFrom {src : Source} (h : Stamped s n k v c src) (ht : s.table = t)
    (hc : c ∈ l)
    (hk : k ≠ Record.statusSource) (hload : c.loaded?.isSome) :
    IsLoadedFrom t l n k v src.path := by
  cases h with
  | @loaded _ doc time hdoc hcarries =>
    exact ⟨c, hc, doc, time, hdoc, Path.beq_refl doc.path, ht ▸ hcarries⟩
  | set => simp [Step.loaded?] at hload
  | loadedStatus _ hstatus => exact absurd hstatus hk
  | setStatus => simp [Step.loaded?] at hload

/-- Is the value from the file of this path?  Either a document from there has the value, or the
value was set, when the file was the primary one of the entity. -/
def IsTruthful (t : StatusTable) (l : List Step) (n k v : Text) (p : Path) : Prop :=
  IsLoadedFrom t l n k v p ∨
    ∃ a now b r, (empty t).LastStamp n k l a (.change (.set n k v now)) b ∧
      Entity.isStatusKey k = false ∧ ((empty t).after a).get? n = some r ∧ r.primary == p

/-- A value that is set keeps the path of its source, which is wrong when that is neither the
primary file nor a document with the value. -/
theorem exists_not_isTruthful_of_set {r : Record} {old : Source}
    (hget : ((empty t).after l).get? n = some r) (hkey : Entity.isStatusKey k = false)
    (hold : r.sources.get? k = some old) (hprimary : ¬ r.primary == old.path)
    (hloaded : ¬ IsLoadedFrom t l n k v old.path) (now : Int) :
    ∃ r' src, ((empty t).after (l ++ [.change (.set n k v now)])).get? n = some r' ∧
      r'.fields.get? k = some v ∧ r'.sources.get? k = some src ∧
      ¬ IsTruthful t (l ++ [.change (.set n k v now)]) n k v src.path := by
  have hslot := Slot.ofKey_eq_field hkey
  have hpath : (r.assigned k now).path = old.path := by
    unfold Record.assigned
    rw [hslot]
    change ((r.sources.get? k).map (·.path)).getD r.primary = _
    rw [hold]
    rfl
  have hset : (empty t).LastStamp n k (l ++ [.change (.set n k v now)]) l
      (.change (.set n k v now)) [] :=
    ⟨rfl, .set hget (congrArg Slot.key hslot), by simp⟩
  refine ⟨assign ((empty t).after l).table k v now r, r.assigned k now, ?_, ?_, ?_, ?_⟩
  · rw [after_concat, get?_set hget]
  · have hvalue := Record.value?_assign ((empty t).after l).table k v now r (.field k)
    rwa [if_pos hslot] at hvalue
  · rw [Record.sources_assign, hslot]
    exact TextMap.get?_insert_self _ _ _
  · rw [hpath]
    rintro (⟨c, hc, doc, time, hdoc, hfrom⟩ | ⟨a, now', b, r', hlast, -, hget', hprimary'⟩)
    · rcases List.mem_append.1 hc with hc | hc
      · exact hloaded ⟨c, hc, doc, time, hdoc, hfrom⟩
      · rw [List.mem_singleton.1 hc] at hdoc
        simp [Step.loaded?] at hdoc
    · obtain ⟨rfl, -⟩ := hlast.unique hset
      obtain rfl := Option.some.inj (hget.symm.trans hget')
      exact hprimary hprimary'

/-- After any loads and sets, the value of a field has the source that the last step about its key
gave it: the path of a document that has the value, the path that was there when the value was set,
or that of the primary file when there was none; or else the one of the status, for a field with
its key.  So the source is right after a load, and else exactly when a loaded document from there
has the value, or the value was set without a source or with the primary file as its source. -/
theorem sources_after {r : Record} (hl : ∀ c ∈ l, ¬ c.IsCreate)
    (hget : ((empty t).after l).get? n = some r) (hv : r.fields.get? k = some v) :
    ∃ a c b src, (empty t).LastStamp n k l a c b ∧ r.sources.get? k = some src ∧
      Stamped ((empty t).after a) n k v c src ∧
      (k ≠ Record.statusSource → c.loaded?.isSome → IsLoadedFrom t l n k v src.path) ∧
      (IsTruthful t l n k v src.path ↔ IsLoadedFrom t l n k v src.path ∨
        ∃ now r₀, c = .change (.set n k v now) ∧ Entity.isStatusKey k = false ∧
          ((empty t).after a).get? n = some r₀ ∧
          ∀ old, r₀.sources.get? k = some old → r₀.primary == old.path) := by
  have hheld : ((empty t).after l).held n (.field k) = r.held (.field k) := by
    unfold held
    rw [hget]
    rfl
  have hvalue : (((empty t).after l).held n (.field k)).value = some v := by
    rw [hheld]
    exact hv
  obtain ⟨a, c, b, src, hlast, hsource, hstamped⟩ := exists_lastStamp hl hvalue
  rw [hheld] at hsource
  have htable : ((empty t).after a).table = t := by
    apply table_after
    intro c' hc'
    exact hl c' (hlast.split ▸ List.mem_append_left _ hc')
  have hc : c ∈ l := by
    rw [hlast.split]
    exact List.mem_append_right _ List.mem_cons_self
  refine ⟨a, c, b, src, hlast, hsource, hstamped, hstamped.isLoadedFrom htable hc,
    or_congr_right ⟨?_, ?_⟩⟩
  · rintro ⟨a', now, b', r₀, hlast', hkey, hr₀, hprimary⟩
    obtain ⟨rfl, rfl⟩ := hlast.unique hlast'
    obtain ⟨r', hr', rfl⟩ := hstamped.exists_of_set hkey
    obtain rfl := Option.some.inj (hr₀.symm.trans hr')
    exact ⟨now, r₀, rfl, hkey, hr₀, (primary_eq_assigned_iff hkey r₀ now).1 hprimary⟩
  · rintro ⟨now, r₀, rfl, hkey, hr₀, hold⟩
    obtain ⟨r', hr', rfl⟩ := hstamped.exists_of_set hkey
    obtain rfl := Option.some.inj (hr₀.symm.trans hr')
    exact ⟨a, now, b, r₀, hlast, hkey, hr₀, (primary_eq_assigned_iff hkey r₀ now).2 hold⟩

/-- A plan is loaded, and its owner is set. -/
def reassigned : List Step :=
  [.load (.plan Document.owned) 5, .change (.set "Plan" "Owner" "bob" 9)]

/-- The new owner belongs to the plan, which is the primary file. -/
theorem sources_after_reassigned :
    ∃ r src, (∀ c ∈ reassigned, ¬ c.IsCreate) ∧
      ((empty .builtIn).after reassigned).get? "Plan" = some r ∧
      r.fields.get? "Owner" = some "bob".toList ∧ r.sources.get? "Owner" = some src ∧
      IsTruthful .builtIn reassigned "Plan" "Owner" "bob" src.path := by
  have hl : ∀ c ∈ reassigned, ¬ c.IsCreate := by simp [reassigned, Step.IsCreate]
  obtain ⟨r, hget⟩ : ∃ r, ((empty .builtIn).after reassigned).get? "Plan" = some r := by
    rw [← Option.isSome_iff_exists]
    decide +kernel
  obtain ⟨r₀, hget₀⟩ :
      ∃ r, ((empty .builtIn).after [.load (.plan Document.owned) 5]).get? "Plan" = some r := by
    rw [← Option.isSome_iff_exists]
    decide +kernel
  have hfields : ∀ r ∈ ((empty .builtIn).after reassigned).records,
      r.fields.get? "Owner" = some "bob".toList := by
    decide +kernel
  have hsources : ∀ r ∈ ((empty .builtIn).after [.load (.plan Document.owned) 5]).records,
      (r.sources.get? "Owner").all fun old ↦ r.primary == old.path := by
    decide +kernel
  have hset : (empty .builtIn).LastStamp "Plan" "Owner" reassigned
      [.load (.plan Document.owned) 5] (.change (.set "Plan" "Owner" "bob" 9)) [] :=
    ⟨rfl, .set hget₀ (by decide), by simp⟩
  have hv := hfields r (mem_of_get? hget)
  obtain ⟨a, c, b, src, hlast, hsource, -, -, htruthful⟩ := sources_after hl hget hv
  obtain ⟨rfl, rfl⟩ := hlast.unique hset
  refine ⟨r, src, hl, hget, hv, hsource, htruthful.2 (.inr ⟨9, r₀, rfl, by decide, hget₀, ?_⟩)⟩
  intro old hold
  have hprimary := hsources r₀ (mem_of_get? hget₀)
  rwa [hold] at hprimary

/-- A file with the owner of a task is loaded, then an older one that says more of the task. -/
def outgrown : List Step :=
  [.change (.load ⟨"thin.md", Document.planLead ++ ("## T\nOwner:: bob\n" : Text), 2000⟩),
    .change (.load
      ⟨"rich.md", Document.planLead ++ ("## T\nPart:: login\nSize:: L\n" : Text), 1000⟩)]

/-- When the owner is set then, it is said to come from the first file, which has another owner,
and it is written to the second one. -/
theorem not_isTruthful_outgrown :
    ∃ r src,
      ((empty .builtIn).after (outgrown ++ [.change (.set "T" "Owner" "amy" 3000)])).get? "T" =
        some r ∧
      r.fields.get? "Owner" = some "amy".toList ∧ r.sources.get? "Owner" = some src ∧
      ¬ IsTruthful .builtIn (outgrown ++ [.change (.set "T" "Owner" "amy" 3000)]) "T" "Owner" "amy"
        src.path := by
  obtain ⟨r, hget⟩ : ∃ r, ((empty .builtIn).after outgrown).get? "T" = some r := by
    rw [← Option.isSome_iff_exists]
    decide +kernel
  obtain ⟨old, hold⟩ : ∃ old, r.sources.get? "Owner" = some old := by
    have hsome : ∀ r ∈ ((empty .builtIn).after outgrown).records,
        (r.sources.get? "Owner").isSome := by
      decide +kernel
    exact Option.isSome_iff_exists.1 (hsome r (mem_of_get? hget))
  have hprimary : ¬ r.primary == old.path := by
    have hother : ∀ r ∈ ((empty .builtIn).after outgrown).records,
        (r.sources.get? "Owner").all fun old ↦ !(r.primary == old.path) := by
      decide +kernel
    have hother := hother r (mem_of_get? hget)
    rw [hold] at hother
    simpa using hother
  refine exists_not_isTruthful_of_set hget (by decide) hold hprimary ?_ 3000
  rintro ⟨c, hc, doc, time, hdoc, -, e, he, -, hamy⟩
  have hloaded : outgrown.all fun c ↦ c.loaded?.all fun p ↦
      ((empty .builtIn).taken p.1).all fun e ↦ e.fields.get? "Owner" ≠ some "amy".toList := by
    decide +kernel
  have hdocument := List.all_eq_true.1 hloaded c hc
  rw [hdoc] at hdocument
  have hentity := List.all_eq_true.1 hdocument e he
  exact of_decide_eq_true hentity hamy

end Store

end Markbook
