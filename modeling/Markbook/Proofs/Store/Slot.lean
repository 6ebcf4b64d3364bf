import Markbook.Proofs.Entity
import Markbook.Proofs.Store.Load

/-!
# Merging Value by Value

The status of an entity and each of its fields is a slot, which a record fills with a value and a
source (`Held`).  Whatever a document says of an entity is a mention of some slots, and a mention is
taken unless the source that is there is newer (`Held.take`).  Loading a document is, slot by slot,
taking the mentions one after another (`Store.held_load`).

A source is kept under a key, and the status shares its key with a field that is named `status`.
So a mention may come without a value: an entity with a status gives a new source to that field as
well, whether it has the field or not.  All other slots have a source of their own (`Slot.IsOwn`).
-/

namespace Markbook

/-- A place for a value of an entity. -/
inductive Slot where
  | status
  | field (key : Text)
deriving DecidableEq

namespace Slot

/-- The key of the source. -/
def key : Slot → Text
  | .status => Record.statusSource
  | .field k => k

/-- Is the source about this value? -/
def IsOwn (x : Slot) : Prop := x ≠ .field Record.statusSource

/-- The slot that is set under a key.  The word `status` in any case stands for the status. -/
def ofKey (key : Text) : Slot := if Entity.isStatusKey key then .status else .field key

/-- What a slot keeps of a value that is set. -/
def kept (t : StatusTable) (value : Text) : Slot → Text
  | .status => t.canonical value
  | .field _ => value

theorem ofKey_eq_status {key : Text} (h : Entity.isStatusKey key = true) : ofKey key = .status := by
  unfold ofKey
  rw [if_pos h]

theorem ofKey_eq_field {key : Text} (h : Entity.isStatusKey key = false) :
    ofKey key = .field key := by
  unfold ofKey
  rw [h]
  rfl

theorem eq_of_key_eq {x y : Slot} (hx : x.IsOwn) (hy : y.IsOwn) (h : x.key = y.key) : x = y := by
  cases x with
  | status =>
    cases y with
    | status => rfl
    | field k => exact absurd (congrArg Slot.field h.symm) hy
  | field k =>
    cases y with
    | status => exact absurd (congrArg Slot.field h) hx
    | field k' => exact congrArg Slot.field h

theorem isOwn_status : IsOwn .status := by
  unfold IsOwn
  simp

theorem isOwn_field {k : Text} (h : k ≠ Record.statusSource) : IsOwn (.field k) :=
  fun heq ↦ h (Slot.field.inj heq)

theorem isOwn_ofKey (key : Text) : (ofKey key).IsOwn := by
  unfold ofKey
  split
  · exact isOwn_status
  · next h =>
    apply isOwn_field
    rintro rfl
    exact h (by decide)

end Slot

/-! ## Taking mentions -/

/-- What an entity of a document says of a slot: its value, if it has one, and the new source. -/
structure Mention where
  value : Option Text
  source : Source

/-- What is in a slot. -/
structure Held where
  value : Option Text
  source : Option Source

namespace Held

/-- Nothing is known yet. -/
def nothing : Held := ⟨none, none⟩

/-- May a value of this time be taken? -/
def admits (h : Held) (time : Int) : Bool := h.source.all fun s ↦ s.modified ≤ time

/-- Takes a mention, unless what is held is newer. -/
def take (h : Held) (m : Mention) : Held :=
  if h.admits m.source.modified then ⟨m.value.or h.value, some m.source⟩ else h

variable {h : Held} {a b l : List Mention} {m : Mention} {s : Source} {v : Text}

theorem take_of_admits (hadmits : h.admits m.source.modified = true) :
    h.take m = ⟨m.value.or h.value, some m.source⟩ := by
  unfold take
  rw [if_pos hadmits]

theorem take_of_old (hs : h.source = some s) (hold : m.source.modified < s.modified) :
    h.take m = h := by
  unfold take admits
  rw [hs, if_neg]
  simpa using hold

/-- What is held comes from a mention. -/
theorem source_foldl_take (l : List Mention) (h : Held) :
    (l.foldl take h).source = h.source ∨
      ∃ m ∈ l, (l.foldl take h).source = some m.source := by
  induction l generalizing h with
  | nil => exact .inl rfl
  | cons m l ih =>
    rw [List.foldl_cons]
    rcases ih (h.take m) with hsame | ⟨m', hm', hsource⟩
    · rw [hsame]
      unfold take
      split
      · exact .inr ⟨m, List.mem_cons_self, rfl⟩
      · exact .inl rfl
    · exact .inr ⟨m', List.mem_cons_of_mem _ hm', hsource⟩

/-- Mentions with a value that are older than what is held leave the value alone. -/
theorem value_foldl_take_of_old (hs : h.source = some s)
    (hold : ∀ m ∈ l, m.value.isSome → m.source.modified < s.modified) :
    (l.foldl take h).value = h.value := by
  induction l generalizing h s with
  | nil => rfl
  | cons m l ih =>
    rw [List.forall_mem_cons] at hold
    rw [List.foldl_cons]
    by_cases htime : m.source.modified < s.modified
    · rw [take_of_old hs htime, ih hs hold.2]
    · -- A mention that is taken has no value, and what is held is newer from then on.
      have hvalue : m.value = none := by
        rw [← Option.not_isSome_iff_eq_none]
        exact fun hsome ↦ htime (hold.1 hsome)
      have hadmits : h.admits m.source.modified = true := by
        unfold admits
        rw [hs]
        simpa using htime
      have hlater : ∀ m' ∈ l, m'.value.isSome → m'.source.modified < m.source.modified :=
        fun m' hm' hsome ↦ Int.lt_of_lt_of_le (hold.2 m' hm' hsome) (Int.not_lt.1 htime)
      rw [take_of_admits hadmits, ih rfl hlater, hvalue, Option.none_or]

/-- Mentions that are older than what is held change nothing. -/
theorem foldl_take_of_old (hs : h.source = some s)
    (hold : ∀ m ∈ l, m.source.modified < s.modified) :
    l.foldl take h = h := by
  induction l with
  | nil => rfl
  | cons m l ih =>
    rw [List.forall_mem_cons] at hold
    rw [List.foldl_cons, take_of_old hs hold.1, ih hold.2]

/-- Without values no value comes in. -/
theorem value_foldl_take_of_none (hnone : ∀ m ∈ l, m.value = none) :
    (l.foldl take h).value = h.value := by
  induction l generalizing h with
  | nil => rfl
  | cons m l ih =>
    rw [List.forall_mem_cons] at hnone
    rw [List.foldl_cons, ih hnone.2]
    unfold take
    split
    · rw [hnone.1, Option.none_or]
    · rfl

/-- A value is replaced at most. -/
theorem isSome_value_foldl_take (hsome : h.value.isSome) : (l.foldl take h).value.isSome := by
  induction l generalizing h with
  | nil => exact hsome
  | cons m l ih =>
    rw [List.foldl_cons]
    refine ih ?_
    unfold take
    split
    · cases m.value with
      | none => exact hsome
      | some v => rfl
    · exact hsome

/-- A mention that nothing before it is newer than is taken. -/
theorem foldl_take_cons (ha : ∀ m' ∈ a, m'.source.modified ≤ m.source.modified) :
    (a ++ m :: b).foldl take nothing =
      b.foldl take ⟨m.value.or (a.foldl take nothing).value, some m.source⟩ := by
  have hadmits : (a.foldl take nothing).admits m.source.modified = true := by
    unfold admits
    rcases source_foldl_take a nothing with hsource | ⟨m', hm', hsource⟩
    · rw [hsource]
      rfl
    · rw [hsource]
      simpa using ha m' hm'
  rw [List.foldl_append, List.foldl_cons, take_of_admits hadmits]

/-- The latest value wins, whatever is mentioned without a value behind it from the same source. -/
theorem foldl_take_append (ha : ∀ m' ∈ a, m'.source.modified ≤ m.source.modified)
    (hv : m.value = some v) (hl : ∀ m' ∈ l, m'.source = m.source ∧ m'.value = none)
    (hb : ∀ m' ∈ b, m'.source.modified < m.source.modified) :
    (a ++ m :: (l ++ b)).foldl take nothing = ⟨some v, some m.source⟩ := by
  have hsame : l.foldl take ⟨some v, some m.source⟩ = ⟨some v, some m.source⟩ := by
    induction l with
    | nil => rfl
    | cons m' l ih =>
      rw [List.forall_mem_cons] at hl
      have htake : take ⟨some v, some m.source⟩ m' = ⟨some v, some m.source⟩ := by
        rw [take_of_admits (by simp [admits, hl.1.1]), hl.1.1, hl.1.2]
        rfl
      rw [List.foldl_cons, htake, ih hl.2]
  rw [foldl_take_cons ha, hv, List.foldl_append]
  change b.foldl take (l.foldl take ⟨some v, some m.source⟩) = _
  rw [hsame, foldl_take_of_old rfl hb]

/-- The latest mention wins. -/
theorem foldl_take (ha : ∀ m' ∈ a, m'.source.modified ≤ m.source.modified)
    (hv : m.value = some v) (hb : ∀ m' ∈ b, m'.source.modified < m.source.modified) :
    (a ++ m :: b).foldl take nothing = ⟨some v, some m.source⟩ :=
  foldl_take_append (l := []) ha hv (by simp) hb

end Held

/-! ## What an entity says -/

namespace Entity

variable {e : Entity}

/-- The value of an entity in a slot. -/
def value? (e : Entity) : Slot → Option Text
  | .status => e.status
  | .field k => e.fields.get? k

/-- Does the entity give a new source to a key? -/
def mentions (e : Entity) (key : Text) : Bool :=
  (e.fields.get? key).isSome || (key = Record.statusSource && e.status.isSome)

/-- What the entity says of a slot, in a document of a path and a time. -/
def mention? (x : Slot) (path : Path) (time : Int) (e : Entity) : Option Mention :=
  if e.mentions x.key then some ⟨e.value? x, ⟨path, time⟩⟩ else none

theorem mentions_of_value? {x : Slot} (h : (e.value? x).isSome) : e.mentions x.key = true := by
  unfold mentions
  cases x with
  | status =>
    have h : e.status.isSome = true := h
    simp [Slot.key, h]
  | field k =>
    have h : (e.fields.get? k).isSome = true := h
    simp [Slot.key, h]

theorem value?_of_not_mentions {x : Slot} (h : e.mentions x.key = false) : e.value? x = none := by
  rw [← Option.not_isSome_iff_eq_none]
  intro hsome
  rw [mentions_of_value? hsome] at h
  simp at h

/-- A field with the key `status` comes with a status only. -/
def IsStated (e : Entity) : Prop := (e.fields.get? Record.statusSource).isSome → e.status.isSome

/-- In a slot of its own an entity mentions a value only with the value. -/
theorem mentions_iff {x : Slot} (he : e.IsStated) (hx : x.IsOwn) :
    e.mentions x.key = true ↔ (e.value? x).isSome := by
  refine ⟨fun h ↦ ?_, mentions_of_value?⟩
  unfold mentions at h
  simp only [Bool.or_eq_true, Bool.and_eq_true, decide_eq_true_eq] at h
  cases x with
  | status =>
    rcases h with h | h
    · exact he h
    · exact h.2
  | field k =>
    rcases h with h | h
    · exact h
    · exact absurd (congrArg Slot.field h.1) hx

/-- The entity of a section has a field with the key `status` only when its status was found in the
heading or under `Status`. -/
theorem isStated_ofSection (m : Markers) (t : StatusTable) (h : Heading) (level line : Nat)
    (body : Text) : (ofSection m t h level line body).IsStated := by
  intro hfield
  rw [ofSection_fields] at hfield
  rw [ofSection_status]
  cases hs : h.status with
  | some s => rfl
  | none =>
    rw [hs] at hfield
    have htaken := isTaken_take? "Status" "status" (typed (given m body)).2
    change ((take? "Status" "status" (typed (given m body)).2).2.get? Record.statusSource).isSome
      at hfield
    change (((take? "Status" "status" (typed (given m body)).2).1).map _).isSome
    rw [Option.isSome_map]
    cases hfound : (take? "Status" "status" (typed (given m body)).2).1 with
    | some p => rfl
    | none =>
      rw [hfound] at htaken
      have hfree : (take? "Status" "status" (typed (given m body)).2).2.get? Record.statusSource =
          none := htaken.2
      rw [hfree] at hfield
      simp at hfield

end Entity

/-! ## Records -/

namespace Record

variable {path : Path} {time : Int}

/-- The value of a record in a slot. -/
def value? (r : Record) : Slot → Option Text
  | .status => r.status
  | .field k => r.fields.get? k

/-- What a record holds in a slot. -/
def held (x : Slot) (r : Record) : Held := ⟨r.value? x, r.sources.get? x.key⟩

theorem accepts_eq (r : Record) (k : Text) (time : Int) :
    r.accepts k time = (r.sources.get? k).all fun s ↦ s.modified ≤ time := by
  unfold accepts
  cases r.sources.get? k <;> rfl

theorem get?_sources_mergeField (path : Path) (time : Int) (r : Record) (k v k' : Text) :
    (mergeField path time r k v).sources.get? k' =
      if r.accepts k time ∧ k' = k then some ⟨path, time⟩ else r.sources.get? k' := by
  unfold mergeField
  cases r.accepts k time with
  | false => simp
  | true => simp [TextMap.get?_insert]

theorem get?_fields_mergeField (path : Path) (time : Int) (r : Record) (k v k' : Text) :
    (mergeField path time r k v).fields.get? k' =
      if r.accepts k time ∧ k' = k then some v else r.fields.get? k' := by
  unfold mergeField
  cases r.accepts k time with
  | false => simp
  | true => simp [TextMap.get?_insert]

/-- A document that may give one value of a slot may give another one after it. -/
theorem accepts_mergeField (path : Path) (time : Int) (r : Record) (k v k' : Text) :
    (mergeField path time r k v).accepts k' time = r.accepts k' time := by
  rw [accepts_eq, get?_sources_mergeField]
  split
  · next h =>
    rw [h.2, h.1]
    simp
  · rw [accepts_eq]

theorem accepts_foldl_mergeField (path : Path) (time : Int) (l : List (Text × Text)) (r : Record)
    (k : Text) :
    (l.foldl (fun r f ↦ mergeField path time r f.1 f.2) r).accepts k time = r.accepts k time := by
  induction l generalizing r with
  | nil => rfl
  | cons f l ih => rw [List.foldl_cons, ih, accepts_mergeField]

theorem status_mergeField (path : Path) (time : Int) (r : Record) (k v : Text) :
    (mergeField path time r k v).status = r.status := by
  unfold mergeField
  split <;> rfl

/-- Merging fields, key by key: the last value counts, when the source that is there admits it. -/
theorem foldl_mergeField (path : Path) (time : Int) (l : List (Text × Text)) (r : Record)
    (k : Text) :
    (l.foldl (fun r f ↦ mergeField path time r f.1 f.2) r).fields.get? k =
        (if r.accepts k time then ((TextMap.ofList l).get? k).or (r.fields.get? k)
          else r.fields.get? k) ∧
      (l.foldl (fun r f ↦ mergeField path time r f.1 f.2) r).sources.get? k =
        (if r.accepts k time ∧ ((TextMap.ofList l).get? k).isSome then some ⟨path, time⟩
          else r.sources.get? k) ∧
      (l.foldl (fun r f ↦ mergeField path time r f.1 f.2) r).status = r.status := by
  induction l generalizing r with
  | nil =>
    have hnil : (TextMap.ofList ([] : List (Text × Text))).get? k = none := rfl
    simp [hnil]
  | cons f l ih =>
    obtain ⟨hfields, hsources, hstatus⟩ := ih (mergeField path time r f.1 f.2)
    have hone : (TextMap.ofList [f]).get? k = if k = f.1 then some f.2 else none := by
      change (TextMap.empty.insert f.1 f.2).get? k = _
      rw [TextMap.get?_insert, TextMap.get?_empty]
    have hlist : (TextMap.ofList (f :: l)).get? k =
        ((TextMap.ofList l).get? k).or (if k = f.1 then some f.2 else none) := by
      rw [← hone, ← TextMap.get?_ofList_append, List.singleton_append]
    rw [List.foldl_cons, hfields, hsources, hstatus, accepts_mergeField, get?_fields_mergeField,
      get?_sources_mergeField, status_mergeField, hlist]
    by_cases hk : k = f.1
    · subst hk
      cases r.accepts f.1 time with
      | false => simp
      | true => cases (TextMap.ofList l).get? f.1 <;> simp
    · simp [hk]

theorem get?_mergeStatus (e : Entity) (path : Path) (time : Int) (r : Record) (k : Text) :
    (r.mergeStatus e path time).fields = r.fields ∧
      (r.mergeStatus e path time).sources.get? k =
        (if r.accepts statusSource time ∧ k = statusSource ∧ e.status.isSome then some ⟨path, time⟩
          else r.sources.get? k) ∧
      (r.mergeStatus e path time).status =
        if r.accepts statusSource time then e.status.or r.status else r.status := by
  unfold mergeStatus
  cases e.status with
  | none => simp
  | some s =>
    cases r.accepts statusSource time with
    | false => simp
    | true => simp [TextMap.get?_insert]

/-- Noting a file says nothing of the values. -/
theorem values_seen (path : Path) (r : Record) :
    (r.seen path).fields = r.fields ∧ (r.seen path).sources = r.sources ∧
      (r.seen path).status = r.status := by
  unfold seen
  split <;> exact ⟨rfl, rfl, rfl⟩

theorem values_choosePrimary (e : Entity) (path : Path) (r : Record) :
    (r.choosePrimary e path).fields = r.fields ∧ (r.choosePrimary e path).sources = r.sources ∧
      (r.choosePrimary e path).status = r.status := by
  unfold choosePrimary
  split <;> exact ⟨rfl, rfl, rfl⟩

/-- Merging an entity, key by key: what it says counts, when the source that is there admits it. -/
theorem get?_merge (e : Entity) (path : Path) (time : Int) (r : Record) (k : Text) :
    (merge e path time r).fields.get? k =
        (if r.accepts k time then (e.fields.get? k).or (r.fields.get? k) else r.fields.get? k) ∧
      (merge e path time r).sources.get? k =
        (if r.accepts k time ∧ e.mentions k then some ⟨path, time⟩ else r.sources.get? k) ∧
      (merge e path time r).status =
        if r.accepts statusSource time then e.status.or r.status else r.status := by
  have hseen := values_seen path r
  have hlist : TextMap.ofList e.fields.entries = e.fields :=
    TextMap.ofList_of_perm (List.Perm.refl _)
  have haccepts (k : Text) : (r.seen path).accepts k time = r.accepts k time := by
    rw [accepts_eq, accepts_eq, hseen.2.1]
  have hfold (k : Text) := foldl_mergeField path time e.fields.entries (r.seen path) k
  simp only [hlist, haccepts, hseen] at hfold
  -- The fields do not change what the source of the status admits.
  have hstatus := (accepts_foldl_mergeField path time e.fields.entries (r.seen path)
    statusSource).trans (haccepts statusSource)
  unfold merge
  generalize e.fields.entries.foldl (fun r f ↦ mergeField path time r f.1 f.2) (r.seen path) = r'
    at hfold hstatus
  obtain ⟨hfields, hsources, hvalue⟩ := get?_mergeStatus e path time r' k
  obtain ⟨hfields', hsources', hvalue'⟩ := values_choosePrimary e path (r'.mergeStatus e path time)
  refine ⟨?_, ?_, ?_⟩
  · rw [hfields', hfields, (hfold k).1]
  · rw [hsources', hsources, hstatus, (hfold k).2.1]
    unfold Entity.mentions
    by_cases hk : k = statusSource
    · subst hk
      cases r.accepts statusSource time with
      | false => simp
      | true => cases e.status <;> simp
    · simp [hk]
  · rw [hvalue', hvalue, hstatus, (hfold k).2.2]

/-- Merging an entity is taking its mention of each slot. -/
theorem held_merge (e : Entity) (path : Path) (time : Int) (r : Record) (x : Slot) :
    (merge e path time r).held x = (e.mention? x path time).elim (r.held x) (r.held x).take := by
  obtain ⟨hfields, hsources, hstatus⟩ := get?_merge e path time r x.key
  have hvalue : (merge e path time r).value? x =
      if r.accepts x.key time then (e.value? x).or (r.value? x) else r.value? x := by
    cases x with
    | status => exact hstatus
    | field k => exact hfields
  have hadmits : (r.held x).admits time = r.accepts x.key time := by
    rw [accepts_eq]
    rfl
  unfold held Entity.mention?
  rw [hsources, hvalue]
  cases hm : e.mentions x.key with
  | true =>
    change _ = Held.take (r.held x) _
    unfold Held.take
    rw [hadmits]
    cases r.accepts x.key time <;> rfl
  | false =>
    rw [Entity.value?_of_not_mentions hm]
    simp

/-- One source for all fields, and for the status if there is one. -/
theorem get?_single_source (fields : Fields) (stated : Bool) (src : Source) (k : Text) :
    (if stated then (fields.map fun _ _ ↦ src).insert statusSource src
      else fields.map fun _ _ ↦ src).get? k =
      if (fields.get? k).isSome || (k = statusSource && stated) then some src else none := by
  have hmap : (fields.map fun _ _ ↦ src).get? k = (fields.get? k).map fun _ ↦ src :=
    TextMap.get?_map _ _ _
  cases stated with
  | false => cases hf : fields.get? k <;> simp [hmap, hf]
  | true =>
    by_cases hk : k = statusSource
    · simp [hk]
    · cases hf : fields.get? k <;> simp [TextMap.get?_insert, hmap, hf, hk]

theorem get?_sources_ofEntity (e : Entity) (path : Path) (time : Int) (k : Text) :
    (ofEntity e path time).sources.get? k = if e.mentions k then some ⟨path, time⟩ else none :=
  get?_single_source e.fields e.status.isSome ⟨path, time⟩ k

/-- A new record holds what its entity mentions. -/
theorem held_ofEntity (e : Entity) (path : Path) (time : Int) (x : Slot) :
    (ofEntity e path time).held x = (e.mention? x path time).elim .nothing Held.nothing.take := by
  have hvalue : (ofEntity e path time).value? x = e.value? x := by cases x <;> rfl
  unfold held Entity.mention?
  rw [get?_sources_ofEntity, hvalue]
  cases hm : e.mentions x.key with
  | true =>
    change _ = Held.take .nothing _
    rw [Held.take_of_admits rfl]
    simp [Held.nothing]
  | false =>
    rw [Entity.value?_of_not_mentions hm]
    rfl

end Record

/-! ## Stores -/

namespace Store

variable {path : Path} {time : Int} {s : Store} {n : Text} {x : Slot}

/-- What a store holds of an entity in a slot. -/
def held (s : Store) (n : Text) (x : Slot) : Held := (s.get? n).elim .nothing (Record.held x)

/-- The mentions of a slot of an entity, in the order of the entities of a document. -/
def mentions (n : Text) (x : Slot) (path : Path) (time : Int) (E : List Entity) : List Mention :=
  (E.filter fun e ↦ e.name = n).filterMap (Entity.mention? x path time)

theorem held_mergeEntity (e : Entity) :
    (mergeEntity path time s e).held n x =
      if e.name = n then (e.mention? x path time).elim (s.held n x) (s.held n x).take
      else s.held n x := by
  unfold held
  rw [get?_mergeEntity]
  by_cases h : e.name = n
  · rw [if_pos h, if_pos h.symm]
    cases s.get? n with
    | none => exact Record.held_ofEntity e path time x
    | some r => exact Record.held_merge e path time r x
  · rw [if_neg h, if_neg (Ne.symm h)]

theorem held_foldl (E : List Entity) :
    (E.foldl (mergeEntity path time) s).held n x =
      (mentions n x path time E).foldl .take (s.held n x) := by
  induction E generalizing s with
  | nil => rfl
  | cons e l ih =>
    rw [List.foldl_cons, ih, held_mergeEntity]
    unfold mentions
    by_cases h : e.name = n
    · rw [if_pos h, List.filter_cons_of_pos (by simpa using h), List.filterMap_cons]
      cases e.mention? x path time <;> rfl
    · rw [if_neg h, List.filter_cons_of_neg (by simpa using h)]

/-- Loading a document is taking its mentions one after another. -/
theorem held_load (s : Store) (doc : Document) (time : Int) (n : Text) (x : Slot) :
    (s.load doc time).held n x =
      (mentions n x doc.path time (s.taken doc)).foldl .take (s.held n x) := by
  rw [← held_foldl]
  unfold held
  rw [get?_load]
  cases ((s.taken doc).foldl (mergeEntity doc.path time) s).get? n with
  | none => rfl
  | some r => cases x <;> rfl

end Store

end Markbook
