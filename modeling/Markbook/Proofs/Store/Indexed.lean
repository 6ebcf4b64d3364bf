import Markbook.Proofs.Store.View

/-!
# Indexed Stores

A store keeps records in a map and names in a list.  The two are in step when the list has each key
of the map once and each record stands under its own name (`Store.IsIndexed`).  An empty store is
indexed, and all operations keep a store so; the instances below give this to every store that is
built from an empty one.  In an indexed store the names of the records are the list, and a record
is found by its name.
-/

namespace Markbook.Store

variable {path : Path} {time : Int} {s : Store} {n : Text} {r : Record}

/-! ## Look-ups -/

theorem get?_empty (t : StatusTable) (n : Text) : (empty t).get? n = none := rfl

theorem get?_modify (f : Record → Record) (n' : Text) :
    (s.modify n' f).get? n = (s.get? n).map fun r ↦ if n = n' then f r else r :=
  TextMap.get?_map _ _ _

theorem get?_register (s : Store) (r : Record) :
    (s.register r).get? n = if n = r.name then some r else s.get? n :=
  TextMap.get?_insert _ _ _ _

theorem get?_register_self (s : Store) (r : Record) : (s.register r).get? r.name = some r :=
  TextMap.get?_insert_self _ _ _

/-- An entity of a new name is registered as a record of its own. -/
theorem mergeEntity_of_get? {e : Entity} (h : s.get? e.name = none) :
    mergeEntity path time s e = s.register (Record.ofEntity e path time) := by
  have hnew : s.entities.has e.name = false := by
    change (s.get? e.name).isSome = false
    rw [h]
    rfl
  have hname : (Record.ofEntity e path time).name = e.name := rfl
  unfold mergeEntity register
  simp only [hname, hnew, Bool.false_eq_true, if_false]

theorem mergeEntity_of_isSome {e : Entity} (h : (s.get? e.name).isSome) :
    mergeEntity path time s e = s.modify e.name (Record.merge e path time) :=
  if_pos h

theorem get?_mergeEntity (e : Entity) :
    (mergeEntity path time s e).get? n =
      if n = e.name then
        some ((s.get? n).elim (Record.ofEntity e path time) (Record.merge e path time))
      else s.get? n := by
  cases hold : s.get? e.name with
  | none =>
    rw [mergeEntity_of_get? hold, get?_register]
    change (if n = e.name then _ else _) = _
    by_cases hn : n = e.name
    · rw [if_pos hn, if_pos hn, hn, hold]
      rfl
    · rw [if_neg hn, if_neg hn]
  | some r =>
    rw [mergeEntity_of_isSome (Option.isSome_of_eq_some hold), get?_modify]
    by_cases hn : n = e.name
    · rw [if_pos hn, hn, hold]
      simp
    · simp [hn]

/-! ## Records in order -/

@[simp]
theorem records_empty (t : StatusTable) : (empty t).records = [] := rfl

@[simp]
theorem names_empty (t : StatusTable) : (empty t).names = [] := rfl

theorem mem_records_iff : r ∈ s.records ↔ ∃ n ∈ s.order, s.get? n = some r := List.mem_filterMap

theorem names_modify {f : Record → Record} (hf : ∀ r, (f r).name = r.name) (n' : Text) :
    (s.modify n' f).names = s.names := by
  unfold names records
  rw [List.map_filterMap, List.map_filterMap]
  congr 1
  funext n
  rw [get?_modify, Option.map_map]
  congr 1
  funext r
  simp only [Function.comp_apply]
  split
  · exact hf r
  · rfl

/-- A property of records that a change keeps. -/
theorem forall_mem_modify {P : Record → Prop} {f : Record → Record} (h : ∀ r ∈ s.records, P r)
    (hf : ∀ r, P r → P (f r)) (n : Text) : ∀ r ∈ (s.modify n f).records, P r := by
  intro r hr
  obtain ⟨n', hn', hget⟩ := mem_records_iff.1 hr
  rw [get?_modify] at hget
  obtain ⟨r', hr', rfl⟩ := Option.map_eq_some_iff.1 hget
  have hold : P r' := h r' (mem_records_iff.2 ⟨n', hn', hr'⟩)
  split
  · exact hf r' hold
  · exact hold

/-! ## Names and keys in step -/

/-- The list of names has each key of the map once, and each record stands under its own name. -/
class IsIndexed (s : Store) : Prop where
  order_nodup : s.order.Nodup
  mem_order_iff : ∀ n, n ∈ s.order ↔ n ∈ s.entities.keys
  name_eq : ∀ n r, s.entities.get? n = some r → r.name = n

section Indexed

variable [s.IsIndexed]

theorem name_of_get? (h : s.get? n = some r) : r.name = n := IsIndexed.name_eq n r h

theorem mem_order_iff_isSome : n ∈ s.order ↔ (s.get? n).isSome := by
  rw [IsIndexed.mem_order_iff, TextMap.mem_keys_iff]
  rfl

theorem mem_of_get? (h : s.get? n = some r) : r ∈ s.records :=
  mem_records_iff.2 ⟨n, mem_order_iff_isSome.2 (Option.isSome_of_eq_some h), h⟩

/-- A record of an indexed store is found by its name. -/
theorem get?_of_mem (h : r ∈ s.records) : s.get? r.name = some r := by
  obtain ⟨n, -, hr⟩ := mem_records_iff.1 h
  rw [name_of_get? hr]
  exact hr

theorem names_eq_order (s : Store) [s.IsIndexed] : s.names = s.order := by
  unfold names records
  rw [List.map_filterMap]
  calc s.order.filterMap (fun n ↦ (s.get? n).map (·.name))
      = s.order.filterMap some := by
        refine List.filterMap_congr fun n hn ↦ ?_
        obtain ⟨r, hr⟩ := Option.isSome_iff_exists.1 (mem_order_iff_isSome.1 hn)
        rw [hr, Option.map_some, name_of_get? hr]
    _ = s.order := List.filterMap_some

theorem names_nodup (s : Store) [s.IsIndexed] : s.names.Nodup := by
  rw [names_eq_order]
  exact IsIndexed.order_nodup

theorem get?_isSome_iff : (s.get? n).isSome ↔ n ∈ s.names := by
  rw [names_eq_order, mem_order_iff_isSome]

theorem exists_of_mem_names (h : n ∈ s.names) : ∃ r, s.get? n = some r ∧ r.name = n := by
  obtain ⟨r, hr⟩ := Option.isSome_iff_exists.1 (get?_isSome_iff.2 h)
  exact ⟨r, hr, name_of_get? hr⟩

theorem get?_eq_find? (s : Store) [s.IsIndexed] (n : Text) :
    s.get? n = s.records.find? fun r ↦ r.name = n := by
  cases hfind : s.records.find? fun r ↦ decide (r.name = n) with
  | none =>
    rw [← Option.not_isSome_iff_eq_none, get?_isSome_iff]
    intro hmem
    obtain ⟨r, hr, hname⟩ := List.mem_map.1 hmem
    simpa [hname] using List.find?_eq_none.1 hfind r hr
  | some r =>
    have hname : r.name = n := by simpa using List.find?_some hfind
    rw [← hname]
    exact get?_of_mem (List.mem_of_find?_eq_some hfind)

end Indexed

/-! ## Operations keep them in step -/

instance isIndexed_empty (t : StatusTable) : (empty t).IsIndexed where
  order_nodup := List.nodup_nil
  mem_order_iff _ := Iff.rfl
  name_eq _ _ h := by simp [empty] at h

theorem isIndexed_modify [s.IsIndexed] {f : Record → Record} (hf : ∀ r, (f r).name = r.name)
    (n : Text) : (s.modify n f).IsIndexed where
  order_nodup := IsIndexed.order_nodup (s := s)
  mem_order_iff n' := by
    rw [TextMap.mem_keys_iff]
    change n' ∈ s.order ↔ ((s.modify n f).get? n').isSome
    rw [get?_modify, Option.isSome_map, mem_order_iff_isSome]
  name_eq n' r h := by
    change (s.modify n f).get? n' = some r at h
    rw [get?_modify] at h
    obtain ⟨r', hr', rfl⟩ := Option.map_eq_some_iff.1 h
    split
    · rw [hf, name_of_get? hr']
    · exact name_of_get? hr'

theorem order_register (s : Store) [s.IsIndexed] (r : Record) :
    (s.register r).order = if r.name ∈ s.order then s.order else s.order ++ [r.name] := by
  simp only [mem_order_iff_isSome]
  rfl

instance isIndexed_register [s.IsIndexed] (r : Record) : (s.register r).IsIndexed where
  order_nodup := by
    rw [order_register]
    split
    · exact IsIndexed.order_nodup
    · next hnot =>
      exact IsIndexed.order_nodup.append (List.nodup_singleton _) (by simpa using hnot)
  mem_order_iff n := by
    rw [TextMap.mem_keys_iff, order_register]
    change _ ↔ ((s.register r).get? n).isSome
    rw [get?_register]
    by_cases hn : n = r.name
    · rw [if_pos hn, hn]
      split
      · next hmem => simpa using hmem
      · simp
    · rw [if_neg hn, ← mem_order_iff_isSome]
      split
      · rfl
      · simp [hn]
  name_eq n r' h := by
    change (s.register r).get? n = some r' at h
    rw [get?_register] at h
    split at h
    · next hn => rw [← Option.some.inj h, hn]
    · exact name_of_get? h

theorem names_register (s : Store) [s.IsIndexed] (r : Record) :
    (s.register r).names = if r.name ∈ s.names then s.names else s.names ++ [r.name] := by
  rw [names_eq_order, names_eq_order, order_register]

instance isIndexed_mergeEntity [s.IsIndexed] (e : Entity) :
    (mergeEntity path time s e).IsIndexed := by
  cases hold : s.get? e.name with
  | none =>
    rw [mergeEntity_of_get? hold]
    infer_instance
  | some r =>
    rw [mergeEntity_of_isSome (Option.isSome_of_eq_some hold)]
    exact isIndexed_modify (fun r ↦ Record.name_merge) _

theorem names_mergeEntity [s.IsIndexed] (e : Entity) :
    (mergeEntity path time s e).names =
      if e.name ∈ s.names then s.names else s.names ++ [e.name] := by
  cases hold : s.get? e.name with
  | none =>
    rw [mergeEntity_of_get? hold]
    exact names_register s _
  | some r =>
    have hsome : (s.get? e.name).isSome := Option.isSome_of_eq_some hold
    rw [mergeEntity_of_isSome hsome, if_pos (get?_isSome_iff.1 hsome)]
    exact names_modify (fun r ↦ Record.name_merge) _

instance isIndexed_foldl [s.IsIndexed] (E : List Entity) :
    (E.foldl (mergeEntity path time) s).IsIndexed := by
  induction E generalizing s with
  | nil => assumption
  | cons e l ih => exact ih

mutual

theorem isIndexed_mergeTree : ∀ (t : Tree Entity) (s : Store) [s.IsIndexed],
    (mergeTree path time s t).IsIndexed
  | .node e l, s, _ => by
    have hbelow : (mergeTrees path time (mergeEntity path time s e) l).IsIndexed :=
      isIndexed_mergeTrees l _
    have hlink (r : Record) : (r.link (l.map fun t ↦ t.value.name)).name = r.name := rfl
    rw [mergeTree]
    exact isIndexed_modify hlink e.name

theorem isIndexed_mergeTrees : ∀ (l : List (Tree Entity)) (s : Store) [s.IsIndexed],
    (mergeTrees path time s l).IsIndexed
  | [], _, h => h
  | t :: r, s, _ => by
    have hfirst : (mergeTree path time s t).IsIndexed := isIndexed_mergeTree t s
    rw [mergeTrees]
    exact isIndexed_mergeTrees r _

end

instance isIndexed_load [s.IsIndexed] (doc : Document) (time : Int) : (s.load doc time).IsIndexed :=
  have h : (mergeTrees doc.path time s (forest s.table doc)).IsIndexed :=
    isIndexed_mergeTrees (forest s.table doc) s
  ⟨h.order_nodup, h.mem_order_iff, h.name_eq⟩

end Markbook.Store
