import Markbook.Proofs.Store.Run

/-!
# The Last Writer

When the values of a run are set after the time of every text, a slot holds the last value that was
set; if none was, it holds the latest value that the texts offer, with its source
(`Store.held_run`). Of equally old values the last one counts.

A value that is set under the key `status`, in any case, is set as the status, so no field with
such a key is ever set.
-/

namespace Markbook

namespace Change

/-- The values that a change offers to a slot of an entity: those of its text. -/
def offers (t : StatusTable) (n : Text) (x : Slot) : Change → List Offer
  | .load d => d.offers t n x
  | .set .. => []

/-- Is the change about this slot of this entity? -/
def Sets (n : Text) (x : Slot) : Change → Prop
  | .load _ => False
  | .set name key _ _ => name = n ∧ Slot.ofKey key = x

end Change

/-- Are the values of a run set after the time of every text? -/
def IsClocked (l : List Change) : Prop :=
  ∀ d name key value now, .load d ∈ l → .set name key value now ∈ l → d.time < now

/-- An offer that is not older than any one before it, and newer than any one behind it. -/
def IsLatest (o : Offer) (os : List Offer) : Prop :=
  ∃ a b, os = a ++ o :: b ∧ (∀ p ∈ a, p.source.modified ≤ o.source.modified) ∧
    ∀ p ∈ b, p.source.modified < o.source.modified

theorem exists_isLatest {os : List Offer} (h : os ≠ []) : ∃ o, IsLatest o os := by
  induction os using List.reverseRecOn with
  | nil => exact absurd rfl h
  | append_singleton os o ih =>
    by_cases hnil : os = []
    · exact ⟨o, [], [], by rw [hnil], by simp, by simp⟩
    · obtain ⟨p, a, b, rfl, ha, hb⟩ := ih hnil
      by_cases hnew : p.source.modified ≤ o.source.modified
      · refine ⟨o, a ++ p :: b, [], rfl, fun q hq ↦ ?_, by simp⟩
        apply Int.le_trans _ hnew
        rcases List.mem_append.1 hq with hq | hq
        · exact ha q hq
        · rcases List.mem_cons.1 hq with rfl | hq
          · exact Int.le_refl _
          · exact Int.le_of_lt (hb q hq)
      · refine ⟨p, a, b ++ [o], by simp, ha, fun q hq ↦ ?_⟩
        rcases List.mem_append.1 hq with hq | hq
        · exact hb q hq
        · rw [List.mem_singleton.1 hq]
          exact Int.not_le.1 hnew

/-- The latest of some offers is what is held of them. -/
theorem IsLatest.foldl_take {o : Offer} {os : List Offer} (h : IsLatest o os) :
    (os.map Offer.mention).foldl Held.take .nothing = ⟨some o.value, some o.source⟩ := by
  obtain ⟨a, b, rfl, ha, hb⟩ := h
  rw [List.map_append, List.map_cons]
  apply Held.foldl_take (m := o.mention) _ rfl
  · intro m hm
    obtain ⟨p, hp, rfl⟩ := List.mem_map.1 hm
    exact hb p hp
  · intro m hm
    obtain ⟨p, hp, rfl⟩ := List.mem_map.1 hm
    exact ha p hp

/-! ## Runs -/

namespace Store

/-- Was the slot of the entity ever set? -/
def WasSet (s : Store) (l : List Change) (n : Text) (x : Slot) : Prop :=
  ∃ a c b, l = a ++ c :: b ∧ c.Sets n x ∧ n ∈ (s.run a).names

/-- Is this the value that the slot of the entity was last set to? -/
def LastSet (s : Store) (l : List Change) (n : Text) (x : Slot) (value : Text) : Prop :=
  ∃ a key now b, l = a ++ .set n key value now :: b ∧ Slot.ofKey key = x ∧ n ∈ (s.run a).names ∧
    ∀ c ∈ b, ¬ c.Sets n x

variable {s : Store} [s.IsIndexed] {l : List Change} {n : Text} {x : Slot}

/-- Setting a value of an entity that is there fills one slot as of now. -/
theorem exists_held_set (hx : x.IsOwn) (s : Store) [s.IsIndexed] (n name key value : Text)
    (now : Int) :
    ∃ src : Source, src.modified = now ∧ (s.change (.set name key value now)).held n x =
      if (name = n ∧ Slot.ofKey key = x) ∧ n ∈ s.names then
        ⟨some (x.kept s.table value), some src⟩
      else s.held n x := by
  unfold held
  simp only [change_set, get?_modify, ← get?_isSome_iff]
  cases s.get? n with
  | none => exact ⟨⟨⟨[]⟩, now⟩, rfl, by simp⟩
  | some r =>
    refine ⟨r.assigned key now, rfl, ?_⟩
    by_cases hname : n = name
    · simp [hname, Record.held_assign_of_isOwn s.table key value now r hx]
    · simp [hname, Ne.symm hname]

/-- A change that does not set a slot takes what it offers for the slot. -/
theorem held_change (hx : x.IsOwn) {c : Change} (hc : c.Sets n x → n ∉ s.names) :
    (s.change c).held n x =
      ((c.offers s.table n x).map Offer.mention).foldl .take (s.held n x) := by
  cases c with
  | load d => exact (held_loadNote s d n x).trans (by rw [Note.mentions_eq_offers hx]; rfl)
  | set name key value now =>
    obtain ⟨src, -, hheld⟩ := exists_held_set hx s n name key value now
    rw [hheld, if_neg fun h ↦ hc h.1 h.2]
    rfl

/-- Texts that are older than what a slot holds leave it alone. -/
theorem held_run_of_old (hx : x.IsOwn) {src : Source} (hs : (s.held n x).source = some src)
    (hold : ∀ d, .load d ∈ l → d.time < src.modified) (hsets : ∀ c ∈ l, ¬ c.Sets n x) :
    (s.run l).held n x = s.held n x := by
  induction l generalizing s with
  | nil => rfl
  | cons c l ih =>
    rw [List.forall_mem_cons] at hsets
    have hheld : (s.change c).held n x = s.held n x := by
      rw [held_change hx fun h ↦ absurd h hsets.1]
      apply Held.foldl_take_of_old hs
      intro m hm
      obtain ⟨o, ho, rfl⟩ := List.mem_map.1 hm
      cases c with
      | load d =>
        have hsource : o.source = ⟨d.path, d.time⟩ := Note.source_of_mem_offers ho
        change o.source.modified < src.modified
        rw [hsource]
        exact hold d List.mem_cons_self
      | set name key value now => exact absurd ho List.not_mem_nil
    calc ((s.change c).run l).held n x
        = (s.change c).held n x :=
          ih (hheld ▸ hs) (fun d hd ↦ hold d (List.mem_cons_of_mem _ hd)) hsets.2
      _ = s.held n x := hheld

/-- A slot that is never set takes all that the texts offer. -/
theorem held_run_of_not_wasSet (hx : x.IsOwn) (h : ¬ s.WasSet l n x) :
    (s.run l).held n x =
      ((l.flatMap (Change.offers s.table n x)).map Offer.mention).foldl .take (s.held n x) := by
  induction l generalizing s with
  | nil => rfl
  | cons c l ih =>
    have hfirst : c.Sets n x → n ∉ s.names := fun hsets hmem ↦ h ⟨[], c, l, rfl, hsets, hmem⟩
    have hrest : ¬ (s.change c).WasSet l n x := by
      rintro ⟨a, c', b, rfl, hsets, hmem⟩
      exact h ⟨c :: a, c', b, rfl, hsets, hmem⟩
    calc ((s.change c).run l).held n x
        = ((l.flatMap (Change.offers s.table n x)).map Offer.mention).foldl .take
            ((s.change c).held n x) := by rw [ih hrest, table_change]
      _ = _ := by
        rw [held_change hx hfirst, List.flatMap_cons, List.map_append, List.foldl_append]

/-- The last value that is set is held from then on. -/
theorem value_held_run_of_lastSet (hx : x.IsOwn) (hclock : IsClocked l) {value : Text}
    (h : s.LastSet l n x value) :
    ((s.run l).held n x).value = some (x.kept s.table value) := by
  obtain ⟨a, key, now, b, rfl, hkey, hmem, hlater⟩ := h
  obtain ⟨src, hnow, hheld⟩ := exists_held_set hx (s.run a) n n key value now
  rw [if_pos ⟨⟨rfl, hkey⟩, hmem⟩, table_run] at hheld
  have hkept : (((s.run a).change (.set n key value now)).run b).held n x =
      ((s.run a).change (.set n key value now)).held n x := by
    apply held_run_of_old hx (by rw [hheld]) _ hlater
    intro d hd
    rw [hnow]
    exact hclock d n key value now (by simp [hd]) (by simp)
  calc ((s.run (a ++ .set n key value now :: b)).held n x).value
      = ((((s.run a).change (.set n key value now)).run b).held n x).value := by
        rw [run_append]
        rfl
    _ = (((s.run a).change (.set n key value now)).held n x).value := by rw [hkept]
    _ = some (x.kept s.table value) := by rw [hheld]

/-- Of the sets of a slot one is the last. -/
theorem exists_lastSet (h : s.WasSet l n x) : ∃ value, s.LastSet l n x value := by
  obtain ⟨a, c, b, rfl, hsets, hmem⟩ := h
  have hlast {a : List Change} {c : Change} (hsets : c.Sets n x) (hmem : n ∈ (s.run a).names) :
      ∃ value, s.LastSet (a ++ [c]) n x value := by
    cases c with
    | load d => exact absurd hsets id
    | set name key value now =>
      obtain ⟨rfl, hkey⟩ := hsets
      exact ⟨value, a, key, now, [], rfl, hkey, hmem, by simp⟩
  -- Induction on what comes after the set, from its end: a set there is later.
  induction b using List.reverseRecOn with
  | nil => exact hlast hsets hmem
  | append_singleton b c' ih =>
    have hassoc : a ++ c :: (b ++ [c']) = (a ++ c :: b) ++ [c'] := by simp
    rw [hassoc]
    by_cases hlater : c'.Sets n x
    · apply hlast hlater
      rw [run_append]
      exact mem_names_run hmem _
    · obtain ⟨value, a', key, now, b', heq, hkey, hmem', hb'⟩ := ih
      refine ⟨value, a', key, now, b' ++ [c'], by rw [heq]; simp, hkey, hmem', fun d hd ↦ ?_⟩
      rcases List.mem_append.1 hd with hd | hd
      · exact hb' d hd
      · rw [List.mem_singleton.1 hd]
        exact hlater

/-- The last writer of a slot wins.  In a run of an empty store whose values are set after the time
of every text, a slot holds the value that it was last set to, as the slot keeps it.  A slot that
was never set holds the latest of the values that the texts offer, with its source, and is empty
when there is none. -/
theorem held_run (t : StatusTable) (hclock : IsClocked l) (n : Text) (hx : x.IsOwn) :
    (∀ value, (empty t).LastSet l n x value →
        (((empty t).run l).held n x).value = some (x.kept t value)) ∧
      ((empty t).WasSet l n x → ∃ value, (empty t).LastSet l n x value) ∧
      (¬ (empty t).WasSet l n x →
        l.flatMap (Change.offers t n x) = [] ∧ ((empty t).run l).held n x = .nothing ∨
          ∃ o, IsLatest o (l.flatMap (Change.offers t n x)) ∧
            ((empty t).run l).held n x = ⟨some o.value, some o.source⟩) := by
  refine ⟨fun value h ↦ value_held_run_of_lastSet hx hclock h, exists_lastSet, fun h ↦ ?_⟩
  have hheld : ((empty t).run l).held n x =
      ((l.flatMap (Change.offers t n x)).map Offer.mention).foldl Held.take .nothing :=
    held_run_of_not_wasSet hx h
  by_cases hnil : l.flatMap (Change.offers t n x) = []
  · rw [hnil] at hheld
    exact .inl ⟨hnil, hheld⟩
  · obtain ⟨o, ho⟩ := exists_isLatest hnil
    exact .inr ⟨o, ho, hheld.trans ho.foldl_take⟩

/-- A plan is loaded, its owner is set, and a later text of the plan is loaded. -/
def planned : List Change :=
  [.load ⟨"plan.md", Document.planLead ++ Document.owned, 5⟩, .set "Plan" "Owner" "bob" 9,
    .load ⟨"plan.md", Document.planLead ++ Document.owned, 7⟩]

/-- The owner of the plan stays the one that was set; its status comes from the later text. -/
theorem held_run_planned :
    IsClocked planned ∧ Slot.IsOwn (.field "Owner") ∧ Slot.IsOwn .status ∧
      (((empty .builtIn).run planned).held "Plan" (.field "Owner")).value = some "bob" ∧
      ∃ o, IsLatest o (planned.flatMap (Change.offers .builtIn "Plan" .status)) ∧
        ((empty .builtIn).run planned).held "Plan" .status = ⟨some o.value, some o.source⟩ := by
  have hclock : IsClocked planned := by
    intro d name key value now hload hset
    simp only [planned, List.mem_cons, Change.load.injEq, Change.set.injEq, reduceCtorEq,
      List.not_mem_nil, or_false, false_or] at hload hset
    obtain ⟨-, -, -, rfl⟩ := hset
    rcases hload with rfl | rfl <;> decide
  have howner : Slot.IsOwn (.field "Owner") := Slot.isOwn_field (by decide)
  have hstatus : Slot.IsOwn .status := Slot.isOwn_status
  have hlast : (empty .builtIn).LastSet planned "Plan" (.field "Owner") "bob" := by
    refine ⟨[.load ⟨"plan.md", Document.planLead ++ Document.owned, 5⟩], "Owner", 9,
      [.load ⟨"plan.md", Document.planLead ++ Document.owned, 7⟩], rfl, by decide,
      by decide +kernel, ?_⟩
    simp [Change.Sets]
  have hunset : ¬ (empty .builtIn).WasSet planned "Plan" .status := by
    rintro ⟨a, c, b, heq, hsets, -⟩
    have hmem : c ∈ planned := by simp [heq]
    simp only [planned, List.mem_cons, List.not_mem_nil, or_false] at hmem
    rcases hmem with rfl | rfl | rfl
    · exact hsets
    · exact absurd hsets.2 (by decide)
    · exact hsets
  have hoffers : planned.flatMap (Change.offers .builtIn "Plan" .status) ≠ [] := by decide +kernel
  refine ⟨hclock, howner, hstatus, (held_run .builtIn hclock "Plan" howner).1 "bob" hlast, ?_⟩
  rcases (held_run .builtIn hclock "Plan" hstatus).2.2 hunset with ⟨hnil, -⟩ | hlatest
  · exact absurd hnil hoffers
  · exact hlatest

end Store

end Markbook
