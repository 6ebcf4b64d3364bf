import Markbook.Proofs.Store.Note
import Mathlib.Data.Int.Order.Basic
import Mathlib.Data.Set.Finite.Lemmas

/-!
# The Order of Loading

Texts of distinct times give the same names, the same status and sources and the same fields in
whatever order they are loaded, apart from a field with the key `status`: each other value is taken
from the latest text that has it (`Store.held_loads_of_latest`).

A field with the key `status` has its source under the key that the status of the entity has.  When
a text gives the entity a later status without giving the field, the field is dropped if its text
comes after, and kept if it comes before.  So the order has no part in that field exactly when the
latest text with a status has the field, whenever there is one at all (`Store.loads_perm`).
-/

namespace Markbook

/-- The field that has its source under the key of the status. -/
def Slot.shadowed : Slot := .field Record.statusSource

namespace Store

variable {t : StatusTable} {l : List Note} {n : Text} {x : Slot}

/-- Loads texts into an empty store, one after another. -/
def loads (t : StatusTable) (l : List Note) : Store := l.foldl loadNote (empty t)

/-- Two stores have the same entities with the same status, the same sources and the same fields,
whatever may be under the key `status`. -/
structure Agrees (s s' : Store) : Prop where
  names : ∀ n, n ∈ s.names ↔ n ∈ s'.names
  status : ∀ n r r', s.get? n = some r → s'.get? n = some r' → r.status = r'.status
  sources : ∀ n r r', s.get? n = some r → s'.get? n = some r' → r.sources = r'.sources
  fields : ∀ n r r' k, s.get? n = some r → s'.get? n = some r' → k ≠ Record.statusSource →
    r.fields.get? k = r'.fields.get? k

/-- Two stores have the same entities with the same status, the same sources and the same fields. -/
structure AgreesFully (s s' : Store) : Prop extends s.Agrees s' where
  all_fields : ∀ n r r', s.get? n = some r → s'.get? n = some r' → r.fields = r'.fields

/-! ## What is held after loading -/

theorem held_foldl_loadNote (s : Store) (l : List Note) (n : Text) (x : Slot) :
    (l.foldl loadNote s).held n x =
      (l.flatMap fun d ↦ mentions n x d.path d.time (d.entities s.table)).foldl .take
        (s.held n x) := by
  induction l generalizing s with
  | nil => rfl
  | cons d l ih =>
    rw [List.foldl_cons, ih, table_loadNote, held_loadNote, List.flatMap_cons, List.foldl_append]

theorem held_loads (t : StatusTable) (l : List Note) (n : Text) (x : Slot) :
    (loads t l).held n x =
      (l.flatMap fun d ↦ mentions n x d.path d.time (d.entities t)).foldl .take .nothing :=
  held_foldl_loadNote (empty t) l n x

/-- In a slot of its own only the values of the slot have a part. -/
theorem held_loads_of_isOwn (hx : x.IsOwn) (t : StatusTable) (l : List Note) (n : Text) :
    (loads t l).held n x =
      ((l.flatMap fun d ↦ d.offers t n x).map Offer.mention).foldl .take .nothing := by
  rw [held_loads, List.map_flatMap]
  simp only [Note.mentions_eq_offers hx]

instance isIndexed_foldl_loadNote {s : Store} [s.IsIndexed] (l : List Note) :
    (l.foldl loadNote s).IsIndexed := by
  induction l generalizing s with
  | nil => assumption
  | cons d l ih => exact ih

instance isIndexed_loads (t : StatusTable) (l : List Note) : (loads t l).IsIndexed :=
  isIndexed_foldl_loadNote l

theorem mem_names_loads : n ∈ (loads t l).names ↔ ∃ d ∈ l, ∃ e ∈ d.entities t, e.name = n := by
  have hfold (s : Store) [s.IsIndexed] : n ∈ (l.foldl loadNote s).names ↔
      n ∈ s.names ∨ ∃ d ∈ l, ∃ e ∈ d.entities s.table, e.name = n := by
    induction l generalizing s with
    | nil => simp
    | cons d l ih =>
      rw [List.foldl_cons, ih, mem_names_loadNote, table_loadNote, List.exists_mem_cons_iff,
        or_assoc]
  rw [loads, hfold, names_empty]
  simp only [List.not_mem_nil, false_or]
  rfl

/-- The source of the shadowed field is that of the status. -/
theorem source_held_shadowed (s : Store) (n : Text) :
    (s.held n .shadowed).source = (s.held n .status).source := by
  unfold held
  cases s.get? n <;> rfl

/-! ## The latest text -/

theorem exists_latest {P : Note → Prop} (h : ∃ d ∈ l, P d) :
    ∃ d ∈ l, P d ∧ ∀ d' ∈ l, P d' → d'.time ≤ d.time := by
  have hfinite : {d | d ∈ l ∧ P d}.Finite := (List.finite_toSet l).subset fun d hd ↦ hd.1
  obtain ⟨d, ⟨hd, hP⟩, hmax⟩ := Set.exists_max_image _ Note.time hfinite h
  exact ⟨d, hd, hP, fun d' hd' hP' ↦ hmax d' ⟨hd', hP'⟩⟩

/-- The latest text that mentions a slot with a value decides it, by its last value. -/
theorem held_loads_of_latest (hdistinct : (l.map Note.time).Nodup) {d : Note} (hd : d ∈ l)
    (hne : d.offers t n x ≠ [])
    (hlatest : ∀ d' ∈ l, mentions n x d'.path d'.time (d'.entities t) ≠ [] → d'.time ≤ d.time) :
    (loads t l).held n x = ⟨some ((d.offers t n x).getLast hne).value, some ⟨d.path, d.time⟩⟩ := by
  have hsource := Note.source_of_mem_offers (List.getLast_mem hne)
  obtain ⟨before, behind, hmentions, hbehind⟩ :=
    Note.exists_mentions_of_offers (List.dropLast_append_getLast hne).symm
  generalize (d.offers t n x).getLast hne = o at hsource hmentions ⊢
  obtain ⟨a, b, rfl⟩ := List.append_of_mem hd
  have htime {d' : Note} (hd' : d' ∈ b) : d'.time ≠ d.time := by
    rw [List.map_append, List.map_cons, List.nodup_append] at hdistinct
    exact fun heq ↦ (List.nodup_cons.1 hdistinct.2.1).1 (heq ▸ List.mem_map_of_mem hd')
  have hsplit : ((a ++ d :: b).flatMap fun d ↦ mentions n x d.path d.time (d.entities t)) =
      ((a.flatMap fun d ↦ mentions n x d.path d.time (d.entities t)) ++ before) ++
        o.mention :: (behind ++ b.flatMap fun d ↦ mentions n x d.path d.time (d.entities t)) := by
    simp [hmentions]
  have hown {m : Mention} (hm : m ∈ before ++ o.mention :: behind) : m.source = ⟨d.path, d.time⟩ :=
    source_of_mem_mentions (hmentions ▸ hm)
  have hother {l' : List Note} {m : Mention}
      (hm : m ∈ l'.flatMap fun d ↦ mentions n x d.path d.time (d.entities t)) :
      ∃ d' ∈ l', m.source = ⟨d'.path, d'.time⟩ ∧
        mentions n x d'.path d'.time (d'.entities t) ≠ [] := by
    obtain ⟨d', hd', hm⟩ := List.mem_flatMap.1 hm
    exact ⟨d', hd', source_of_mem_mentions hm, List.ne_nil_of_mem hm⟩
  rw [held_loads, hsplit, ← hsource]
  apply Held.foldl_take_append (m := o.mention) _ rfl
  · intro m hm
    exact ⟨(hown (by simp [hm])).trans hsource.symm, hbehind m hm⟩
  · intro m hm
    obtain ⟨d', hd', hsource', hne⟩ := hother hm
    have hle := hlatest d' (by simp [hd']) hne
    change m.source.modified < o.source.modified
    rw [hsource', hsource]
    exact lt_of_le_of_ne hle (htime hd')
  · intro m hm
    change m.source.modified ≤ o.source.modified
    rcases List.mem_append.1 hm with hm | hm
    · obtain ⟨d', hd', hsource', hne⟩ := hother hm
      rw [hsource', hsource]
      exact hlatest d' (by simp [hd']) hne
    · rw [hown (List.mem_append_left _ hm), hsource]

theorem exists_held_loads_single {d : Note} (h : d.offers t n x ≠ []) :
    ∃ v, (loads t [d]).held n x = ⟨some v, some ⟨d.path, d.time⟩⟩ :=
  ⟨_, held_loads_of_latest (l := [d]) (List.nodup_singleton d.time) (List.mem_singleton_self d) h
    (by simp)⟩

/-! ## Slots of their own -/

theorem offers_ne_nil_of_mentions (hx : x.IsOwn) {d : Note}
    (h : mentions n x d.path d.time (d.entities t) ≠ []) : d.offers t n x ≠ [] := by
  rw [Note.mentions_eq_offers hx] at h
  exact fun hnil ↦ h (by rw [hnil]; rfl)

/-- What a slot of its own holds does not depend on the order. -/
theorem held_loads_perm (hx : x.IsOwn) (hdistinct : (l.map Note.time).Nodup) {l' : List Note}
    (hperm : l'.Perm l) (n : Text) : (loads t l').held n x = (loads t l).held n x := by
  have hdistinct' : (l'.map Note.time).Nodup := (hperm.map Note.time).nodup_iff.2 hdistinct
  by_cases h : ∃ d ∈ l, d.offers t n x ≠ []
  · obtain ⟨d, hd, hne, hlatest⟩ := exists_latest h
    rw [held_loads_of_latest hdistinct hd hne fun d' hd' hne' ↦
        hlatest d' hd' (offers_ne_nil_of_mentions hx hne'),
      held_loads_of_latest hdistinct' (hperm.mem_iff.2 hd) hne fun d' hd' hne' ↦
        hlatest d' (hperm.mem_iff.1 hd') (offers_ne_nil_of_mentions hx hne')]
  · have hnone {l' : List Note} (hsub : ∀ d ∈ l', d ∈ l) : (loads t l').held n x = .nothing := by
      have hnil : (l'.flatMap fun d ↦ d.offers t n x) = [] := by
        rw [List.flatMap_eq_nil_iff]
        intro d hd
        by_contra hne
        exact h ⟨d, hsub d hd, hne⟩
      rw [held_loads_of_isOwn hx, hnil]
      rfl
    rw [hnone fun d hd ↦ hperm.mem_iff.1 hd, hnone fun d hd ↦ hd]

theorem agrees_of_held {s s' : Store} (hnames : ∀ n, n ∈ s.names ↔ n ∈ s'.names)
    (h : ∀ n x, Slot.IsOwn x → s.held n x = s'.held n x) : s.Agrees s' := by
  have hrecord {n : Text} {r r' : Record} (hr : s.get? n = some r) (hr' : s'.get? n = some r')
      {x : Slot} (hx : x.IsOwn) : r.held x = r'.held x := by
    have hheld := h n x hx
    unfold held at hheld
    rw [hr, hr'] at hheld
    exact hheld
  refine ⟨hnames, fun n r r' hr hr' ↦ ?_, fun n r r' hr hr' ↦ ?_, fun n r r' k hr hr' hk ↦ ?_⟩
  · exact congrArg Held.value (hrecord hr hr' Slot.isOwn_status)
  · apply TextMap.ext_get?
    intro k
    by_cases hk : k = Record.statusSource
    · subst hk
      exact congrArg Held.source (hrecord hr hr' Slot.isOwn_status)
    · exact congrArg Held.source (hrecord hr hr' (Slot.isOwn_field hk))
  · exact congrArg Held.value (hrecord hr hr' (Slot.isOwn_field hk))

theorem agrees_loads_perm (hdistinct : (l.map Note.time).Nodup) {l' : List Note}
    (hperm : l'.Perm l) : (loads t l').Agrees (loads t l) := by
  apply agrees_of_held
  · intro n
    simp only [mem_names_loads, hperm.mem_iff]
  · exact fun n x hx ↦ held_loads_perm hx hdistinct hperm n

/-! ## The shadowed field -/

/-- Whenever any text gives an entity the shadowed field, one does that is not older than any text
with a status of the entity. -/
def IsCovered (t : StatusTable) (l : List Note) : Prop :=
  ∀ n, (∃ d ∈ l, d.offers t n .shadowed ≠ []) →
    ∃ d ∈ l, d.offers t n .shadowed ≠ [] ∧ ∀ d' ∈ l, d'.offers t n .status ≠ [] → d'.time ≤ d.time

/-- The shadowed field is mentioned together with the status. -/
theorem offers_status_ne_nil_of_mentions {d : Note}
    (h : mentions n .shadowed d.path d.time (d.entities t) ≠ []) : d.offers t n .status ≠ [] := by
  obtain ⟨m, hm⟩ := List.exists_mem_of_ne_nil _ h
  obtain ⟨e, he, hmention⟩ := List.mem_filterMap.1 hm
  have hstated : e.IsStated := Note.isStated_of_mem (List.mem_of_mem_filter he)
  have hkey : e.mentions (Slot.key .status) = true := by
    unfold Entity.mention? at hmention
    split at hmention
    · next hkey => exact hkey
    · simp at hmention
  obtain ⟨v, hv⟩ :=
    Option.isSome_iff_exists.1 ((Entity.mentions_iff hstated Slot.isOwn_status).1 hkey)
  exact List.ne_nil_of_mem (List.mem_filterMap.2 ⟨e, he, by rw [hv]; rfl⟩)

theorem value_held_loads_of_offers_nil (h : ∀ d ∈ l, d.offers t n x = []) :
    ((loads t l).held n x).value = none := by
  rw [held_loads]
  apply Held.value_foldl_take_of_none
  intro m hm
  obtain ⟨d, hd, hm⟩ := List.mem_flatMap.1 hm
  rw [← Option.not_isSome_iff_eq_none]
  exact fun hv ↦ Note.offers_ne_nil_of_mention hm hv (h d hd)

/-- In covered texts the shadowed field does not depend on the order either. -/
theorem value_held_shadowed_perm (hcovered : IsCovered t l) (hdistinct : (l.map Note.time).Nodup)
    {l' : List Note} (hperm : l'.Perm l) (n : Text) :
    ((loads t l').held n .shadowed).value = ((loads t l).held n .shadowed).value := by
  have hdistinct' : (l'.map Note.time).Nodup := (hperm.map Note.time).nodup_iff.2 hdistinct
  by_cases h : ∃ d ∈ l, d.offers t n .shadowed ≠ []
  · obtain ⟨d, hd, hne, hlatest⟩ := hcovered n h
    rw [held_loads_of_latest hdistinct hd hne fun d' hd' hne' ↦
        hlatest d' hd' (offers_status_ne_nil_of_mentions hne'),
      held_loads_of_latest hdistinct' (hperm.mem_iff.2 hd) hne fun d' hd' hne' ↦
        hlatest d' (hperm.mem_iff.1 hd') (offers_status_ne_nil_of_mentions hne')]
  · have hnil : ∀ d ∈ l, d.offers t n .shadowed = [] := fun d hd ↦ by
      by_contra hne
      exact h ⟨d, hd, hne⟩
    rw [value_held_loads_of_offers_nil hnil,
      value_held_loads_of_offers_nil fun d hd ↦ hnil d (hperm.mem_iff.1 hd)]

/-- A later status drops the shadowed field of all texts that come after it. -/
theorem value_held_shadowed_of_head {d : Note} (hstatus : d.offers t n .status ≠ [])
    (hlater : ∀ d' ∈ d :: l, d'.offers t n .shadowed ≠ [] → d'.time < d.time) :
    ((loads t (d :: l)).held n .shadowed).value = none := by
  obtain ⟨v, hheld⟩ := exists_held_loads_single hstatus
  have hsource : ((loads t [d]).held n .shadowed).source = some ⟨d.path, d.time⟩ := by
    rw [source_held_shadowed, hheld]
  have hnone : ((loads t [d]).held n .shadowed).value = none := by
    apply value_held_loads_of_offers_nil
    intro d' hd'
    rw [List.mem_singleton.1 hd']
    by_contra hne
    exact absurd (hlater d List.mem_cons_self hne) (lt_irrefl _)
  have htable : (loads t [d]).table = t := table_loadNote (empty t) d
  have hkept : ((l.foldl loadNote (loads t [d])).held n .shadowed).value =
      ((loads t [d]).held n .shadowed).value := by
    rw [held_foldl_loadNote, htable]
    apply Held.value_foldl_take_of_old hsource
    intro m hm hv
    obtain ⟨d', hd', hm⟩ := List.mem_flatMap.1 hm
    rw [source_of_mem_mentions hm]
    exact hlater d' (List.mem_cons_of_mem _ hd') (Note.offers_ne_nil_of_mention hm hv)
  exact hkept.trans hnone

/-- A text that comes first keeps its shadowed field. -/
theorem isSome_value_held_shadowed_of_head {d : Note} (h : d.offers t n .shadowed ≠ []) :
    ((loads t (d :: l)).held n .shadowed).value.isSome := by
  obtain ⟨v, hheld⟩ := exists_held_loads_single h
  change ((l.foldl loadNote (loads t [d])).held n .shadowed).value.isSome
  rw [held_foldl_loadNote]
  apply Held.isSome_value_foldl_take
  rw [hheld]
  rfl

theorem value_held_eq_of_agreesFully {s s' : Store} [s.IsIndexed] [s'.IsIndexed]
    (h : s.AgreesFully s') (n k : Text) :
    (s.held n (.field k)).value = (s'.held n (.field k)).value := by
  have hnames := h.names n
  rw [← get?_isSome_iff, ← get?_isSome_iff] at hnames
  unfold held
  cases hr : s.get? n with
  | none =>
    cases hr' : s'.get? n with
    | none => rfl
    | some r' => simp [hr, hr'] at hnames
  | some r =>
    cases hr' : s'.get? n with
    | none => simp [hr, hr'] at hnames
    | some r' => exact congrArg (TextMap.get? · k) (h.all_fields n r r' hr hr')

theorem isCovered_of_agreesFully (h : ∀ l', l'.Perm l → (loads t l').AgreesFully (loads t l)) :
    IsCovered t l := by
  intro n hfield
  obtain ⟨d, hd, hne, hlatest⟩ := exists_latest hfield
  refine ⟨d, hd, hne, ?_⟩
  by_contra hnot
  push Not at hnot
  obtain ⟨d', hd', hstatus, hlater⟩ := hnot
  obtain ⟨a, b, heq⟩ := List.append_of_mem hd
  obtain ⟨a', b', heq'⟩ := List.append_of_mem hd'
  have hperm : (d :: (a ++ b)).Perm l := heq ▸ List.perm_middle.symm
  have hperm' : (d' :: (a' ++ b')).Perm l := heq' ▸ List.perm_middle.symm
  have hkept := isSome_value_held_shadowed_of_head (l := a ++ b) hne
  have hdropped : ((loads t (d' :: (a' ++ b'))).held n .shadowed).value = none :=
    value_held_shadowed_of_head hstatus fun d'' hd'' hne' ↦
      lt_of_le_of_lt (hlatest d'' (hperm'.mem_iff.1 hd'') hne') hlater
  have hsame := value_held_eq_of_agreesFully (h _ hperm) n Record.statusSource
  have hsame' := value_held_eq_of_agreesFully (h _ hperm') n Record.statusSource
  change ((loads t (d :: (a ++ b))).held n .shadowed).value.isSome = true at hkept
  rw [Slot.shadowed] at hkept hdropped
  rw [hsame, ← hsame', hdropped] at hkept
  simp at hkept

/-- Texts of distinct times, in any order, give stores that agree on names, status, sources and all
fields but the shadowed one, where what a slot of its own holds depends on the offers for it alone.
They agree on the shadowed field in every order exactly when the texts are covered. -/
theorem loads_perm (hdistinct : (l.map Note.time).Nodup) :
    (∀ l', l'.Perm l → (loads t l').Agrees (loads t l)) ∧
      (∀ n x, Slot.IsOwn x → (loads t l).held n x =
        ((l.flatMap fun d ↦ d.offers t n x).map Offer.mention).foldl .take .nothing) ∧
      ((∀ l', l'.Perm l → (loads t l').AgreesFully (loads t l)) ↔ IsCovered t l) := by
  refine ⟨fun l' hperm ↦ agrees_loads_perm hdistinct hperm,
    fun n x hx ↦ held_loads_of_isOwn hx t l n, isCovered_of_agreesFully, fun hcovered l' hperm ↦ ?_⟩
  have hagrees := agrees_loads_perm (t := t) hdistinct hperm
  refine ⟨hagrees, fun n r r' hr hr' ↦ TextMap.ext_get? fun k ↦ ?_⟩
  by_cases hk : k = Record.statusSource
  · have hvalue := value_held_shadowed_perm hcovered hdistinct hperm n
    unfold held at hvalue
    rw [hr, hr'] at hvalue
    rw [hk]
    exact hvalue
  · exact hagrees.fields n r r' k hr hr' hk

/-- A later text with a status. -/
def pending : Note := ⟨"b.md", Document.planLead ++ "## ⏳ T\n", 20⟩

/-- An earlier text whose entity has its status in the heading, and a field `status` besides. -/
def complete : Note := ⟨"a.md", Document.planLead ++ "## ✅ T\nstatus:: x\n", 10⟩

/-- Both orders of two texts agree on the status and its source. -/
theorem loads_perm_pending :
    ([pending, complete].map Note.time).Nodup ∧ [complete, pending].Perm [pending, complete] ∧
      (loads .builtIn [complete, pending]).Agrees (loads .builtIn [pending, complete]) := by
  have hdistinct : ([pending, complete].map Note.time).Nodup := by decide
  have hperm : [complete, pending].Perm [pending, complete] := List.Perm.swap _ _ _
  exact ⟨hdistinct, hperm, (loads_perm (t := .builtIn) hdistinct).1 _ hperm⟩

/-- The field `status` is dropped when its text comes after the later one. -/
theorem not_agreesFully_pending :
    [pending, complete].Pairwise (fun d d' ↦ (d.path == d'.path) = false ∧ d.time ≠ d'.time) ∧
      [complete, pending].Perm [pending, complete] ∧
      ¬ (loads .builtIn [complete, pending]).AgreesFully (loads .builtIn [pending, complete]) := by
  refine ⟨by decide +kernel, List.Perm.swap _ _ _, fun h ↦ ?_⟩
  have hsame := value_held_eq_of_agreesFully h "T" "status"
  have hkept :
      ((loads .builtIn [complete, pending]).held "T" (.field "status")).value = some ['x'] := by
    decide +kernel
  have hdropped :
      ((loads .builtIn [pending, complete]).held "T" (.field "status")).value = none := by
    decide +kernel
  rw [hkept, hdropped] at hsame
  simp at hsame

end Store

end Markbook
