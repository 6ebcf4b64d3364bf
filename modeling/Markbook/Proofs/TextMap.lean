import Markbook.TextMap
import Mathlib.Data.List.Nodup
import Mathlib.Tactic.Common

/-!
# Looking Up in Maps

A map is determined by what its keys look up (`TextMap.ext_get?`), and each operation by its effect
on one look-up.  Collecting a list of entries keeps the last value of each key, so the order of
entries with different keys has no meaning (`TextMap.ofList_of_perm`).
-/

namespace Markbook.TextMap

variable {β γ : Type}

/-! ## Entries and look-ups -/

theorem entries_injective {m m' : TextMap β} (h : m.entries = m'.entries) : m = m' := by
  cases m
  cases m'
  simp only at h
  subst h
  rfl

theorem keys_nodup (m : TextMap β) : m.keys.Nodup := by
  unfold keys
  rw [List.nodup_iff_pairwise_ne, List.pairwise_map]
  refine m.ascending.imp fun {a b} hlt heq ↦ ?_
  rw [heq] at hlt
  exact List.lt_irrefl _ hlt

theorem mem_entries_iff {m : TextMap β} {k : Text} {v : β} :
    (k, v) ∈ m.entries ↔ m.get? k = some v := by
  have hnodup := m.keys_nodup
  unfold keys at hnodup
  unfold get?
  generalize m.entries = l at hnodup
  induction l with
  | nil => simp
  | cons e r ih =>
    rw [List.map_cons, List.nodup_cons] at hnodup
    rw [List.mem_cons, List.find?_cons]
    by_cases he : e.1 = k
    · have hr : (k, v) ∉ r := fun hmem ↦ hnodup.1 (he ▸ List.mem_map_of_mem hmem)
      simp only [he, decide_true, Option.map_some, Option.some.injEq, hr, or_false]
      constructor
      · rintro rfl
        rfl
      · rintro rfl
        rw [← he]
    · have hne : (k, v) ≠ e := by
        rintro rfl
        exact he rfl
      simp only [hne, false_or, he, decide_false]
      exact ih hnodup.2

theorem get?_eq_none_iff {m : TextMap β} {k : Text} : m.get? k = none ↔ k ∉ m.keys := by
  unfold get? keys
  simp only [Option.map_eq_none_iff, List.find?_eq_none, decide_eq_true_eq, List.mem_map,
    not_exists, not_and]

theorem mem_keys_iff {m : TextMap β} {k : Text} : k ∈ m.keys ↔ (m.get? k).isSome := by
  rw [← Option.ne_none_iff_isSome, ne_eq, get?_eq_none_iff, not_not]

theorem ext_get? {m m' : TextMap β} (h : ∀ k, m.get? k = m'.get? k) : m = m' := by
  apply entries_injective
  have hnodup (m : TextMap β) : m.entries.Nodup := List.Nodup.of_map _ m.keys_nodup
  have hperm : m.entries.Perm m'.entries := by
    rw [List.perm_ext_iff_of_nodup (hnodup m) (hnodup m')]
    rintro ⟨k, v⟩
    rw [mem_entries_iff, mem_entries_iff, h]
  refine hperm.eq_of_pairwise (fun a b _ _ hab hba ↦ ?_) m.ascending m'.ascending
  exact absurd (List.lt_trans hab hba) (List.lt_irrefl _)

/-! ## Operations -/

@[simp]
theorem get?_empty (k : Text) : (empty : TextMap β).get? k = none := rfl

theorem find?_place (k k' : Text) (v : β) (l : List (Text × β)) :
    ((place k v l).find? fun e ↦ e.1 = k').map (·.2) =
      if k' = k then some v else (l.find? fun e ↦ e.1 = k').map (·.2) := by
  induction l with
  | nil =>
    by_cases hk : k' = k
    · simp [place, hk]
    · simp [place, hk, Ne.symm hk]
  | cons e r ih =>
    unfold place
    split
    · by_cases hk : k' = k
      · simp [hk]
      · simp [hk, Ne.symm hk]
    · split
      · next heq =>
        by_cases hk : k' = k
        · simp [hk]
        · simp [hk, Ne.symm hk, ← heq]
      · next hne =>
        by_cases he : e.1 = k'
        · have hk : k' ≠ k := fun hk ↦ hne (hk ▸ he.symm)
          simp [he, hk]
        · simp only [List.find?_cons, he, decide_false]
          exact ih

theorem get?_insert (m : TextMap β) (k k' : Text) (v : β) :
    (m.insert k v).get? k' = if k' = k then some v else m.get? k' :=
  find?_place k k' v m.entries

@[simp]
theorem get?_insert_self (m : TextMap β) (k : Text) (v : β) : (m.insert k v).get? k = some v := by
  rw [get?_insert, if_pos rfl]

theorem get?_insert_of_ne {k k' : Text} (h : k' ≠ k) (m : TextMap β) (v : β) :
    (m.insert k v).get? k' = m.get? k' := by
  rw [get?_insert, if_neg h]

theorem get?_filter (m : TextMap β) (keep : Text → Bool) (k : Text) :
    (m.filter fun k _ ↦ keep k).get? k = if keep k then m.get? k else none := by
  unfold filter get?
  rw [List.find?_filter]
  cases hk : keep k with
  | true =>
    congr 2
    funext e
    by_cases he : e.1 = k
    · simp [he, hk]
    · simp [he]
  | false =>
    simp only [Bool.false_eq_true, if_false, Option.map_eq_none_iff, List.find?_eq_none,
      decide_eq_true_eq, not_and]
    rintro e - hkeep rfl
    rw [hk] at hkeep
    simp at hkeep

theorem get?_erase (m : TextMap β) (k k' : Text) :
    (m.erase k).get? k' = if k' = k then none else m.get? k' := by
  unfold erase
  rw [get?_filter m (fun k' ↦ k' ≠ k)]
  by_cases hk : k' = k <;> simp [hk]

@[simp]
theorem get?_erase_self (m : TextMap β) (k : Text) : (m.erase k).get? k = none := by
  rw [get?_erase, if_pos rfl]

theorem get?_erase_of_ne {k k' : Text} (h : k' ≠ k) (m : TextMap β) :
    (m.erase k).get? k' = m.get? k' := by
  rw [get?_erase, if_neg h]

theorem get?_map (m : TextMap β) (f : Text → β → γ) (k : Text) :
    (m.map f).get? k = (m.get? k).map (f k) := by
  unfold map get?
  rw [List.find?_map]
  have hkey : ((fun e : Text × γ ↦ decide (e.1 = k)) ∘ fun e : Text × β ↦ (e.1, f e.1 e.2)) =
      fun e ↦ decide (e.1 = k) := rfl
  rw [hkey]
  cases h : m.entries.find? fun e ↦ decide (e.1 = k) with
  | none => rfl
  | some e =>
    have he : e.1 = k := by simpa using List.find?_some h
    simp [he]

theorem erase_of_get?_eq_none {m : TextMap β} {k : Text} (h : m.get? k = none) : m.erase k = m := by
  apply ext_get?
  intro k'
  rw [get?_erase]
  split
  · next hk => rw [hk, h]
  · rfl

theorem insert_of_get? {m : TextMap β} {k : Text} {v : β} (h : m.get? k = some v) :
    m.insert k v = m := by
  apply ext_get?
  intro k'
  rw [get?_insert]
  split
  · next hk => rw [hk, h]
  · rfl

theorem isEmpty_iff {m : TextMap β} : m.isEmpty = true ↔ m = empty := by
  unfold isEmpty
  rw [List.isEmpty_iff]
  constructor
  · intro h
    exact entries_injective h
  · rintro rfl
    rfl

theorem erase_insert {m : TextMap β} {k : Text} (h : m.get? k = none) (v : β) :
    (m.insert k v).erase k = m := by
  apply ext_get?
  intro k'
  rw [get?_erase, get?_insert]
  split
  · next hk => rw [hk, h]
  · rfl

theorem insert_comm {k k' : Text} (hne : k ≠ k') (m : TextMap β) (v v' : β) :
    (m.insert k v).insert k' v' = (m.insert k' v').insert k v := by
  apply ext_get?
  intro x
  simp only [get?_insert]
  split
  · next hx => rw [if_neg (hx ▸ hne.symm)]
  · rfl

/-! ## Collecting entries -/

theorem get?_foldl_insert (l : List (Text × β)) (m : TextMap β) (k : Text) :
    (l.foldl (fun m e ↦ m.insert e.1 e.2) m).get? k =
      ((l.reverse.find? fun e ↦ e.1 = k).map (·.2)).or (m.get? k) := by
  induction l generalizing m with
  | nil => rfl
  | cons e r ih =>
    rw [List.foldl_cons, ih, List.reverse_cons, List.find?_append, get?_insert]
    cases r.reverse.find? fun e ↦ decide (e.1 = k) with
    | some e' => rfl
    | none =>
      by_cases hk : k = e.1
      · simp [hk]
      · simp [hk, Ne.symm hk]

/-- The last entry of a key decides. -/
theorem get?_ofList (l : List (Text × β)) (k : Text) :
    (ofList l).get? k = (l.reverse.find? fun e ↦ e.1 = k).map (·.2) := by
  unfold ofList
  rw [get?_foldl_insert, get?_empty, Option.or_none]

theorem get?_ofList_append (a b : List (Text × β)) (k : Text) :
    (ofList (a ++ b)).get? k = ((ofList b).get? k).or ((ofList a).get? k) := by
  rw [get?_ofList, get?_ofList, get?_ofList, List.reverse_append, List.find?_append, Option.map_or]

/-- Entries behind others change nothing when they say nothing new. -/
theorem ofList_append_eq_iff {a b : List (Text × β)} :
    ofList (a ++ b) = ofList a ↔
      ∀ k v, (ofList b).get? k = some v → (ofList a).get? k = some v := by
  constructor
  · intro h k v hv
    rw [← h, get?_ofList_append, hv, Option.some_or]
  · intro h
    apply ext_get?
    intro k
    rw [get?_ofList_append]
    cases hv : (ofList b).get? k with
    | none => rw [Option.none_or]
    | some v => rw [h k v hv, Option.some_or]

theorem mem_of_get?_ofList {l : List (Text × β)} {k : Text} {v : β}
    (h : (ofList l).get? k = some v) : (k, v) ∈ l := by
  rw [get?_ofList] at h
  obtain ⟨e, he, rfl⟩ := Option.map_eq_some_iff.1 h
  have hk := List.find?_some he
  simp only [decide_eq_true_eq] at hk
  rw [← hk]
  exact List.mem_reverse.1 (List.mem_of_find?_eq_some he)

theorem get?_ofList_eq_none_iff {l : List (Text × β)} {k : Text} :
    (ofList l).get? k = none ↔ k ∉ l.map (·.1) := by
  rw [get?_ofList]
  simp only [Option.map_eq_none_iff, List.find?_eq_none, List.mem_reverse, decide_eq_true_eq,
    List.mem_map, not_exists, not_and]

/-- The entries of a map give the map, in whatever order they are collected. -/
theorem ofList_of_perm {m : TextMap β} {l : List (Text × β)} (h : l.Perm m.entries) :
    ofList l = m := by
  apply ext_get?
  intro k
  cases hv : m.get? k with
  | none =>
    rw [get?_ofList_eq_none_iff, (h.map _).mem_iff]
    exact get?_eq_none_iff.1 hv
  | some v =>
    have hmem : (k, v) ∈ l := h.mem_iff.2 (mem_entries_iff.2 hv)
    cases hl : (ofList l).get? k with
    | none => exact absurd (List.mem_map_of_mem hmem) (get?_ofList_eq_none_iff.1 hl)
    | some w =>
      have hw := mem_entries_iff.1 (h.mem_iff.1 (mem_of_get?_ofList hl))
      rw [hv] at hw
      exact hw.symm

end Markbook.TextMap
