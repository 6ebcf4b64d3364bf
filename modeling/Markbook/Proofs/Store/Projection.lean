import Markbook.Proofs.Store.Hierarchy
import Markbook.Store.Projection

/-!
# Projected Tasks

The names on the way down are kept in one list that the trees of all roots share.  The list is the
same behind a tree as in front of it (`Store.run_project`), so what is projected first does not
matter to what comes later: the tree of a record is the unfolding of its children by the names
above it (`Store.unfolding`).  No name comes twice on a way, so no way is longer than the number of
records, and no cycle of children keeps the projection from ending (`Store.isProjected_after`).
-/

namespace Markbook

namespace Tree

variable {α : Type}

/-- Some of the trees has the node, and the values on the way to it are these, the nearest first. -/
inductive Reaches (l : List (Tree α)) : List α → Tree α → Prop
  | top {u : Tree α} (hu : u ∈ l) : Reaches l [] u
  | under {p : List α} {t u : Tree α} (ht : Reaches l p t) (hu : u ∈ t.children) :
    Reaches l (t.value :: p) u

end Tree

/-! ## Runs that leave the state alone -/

section Run

variable {σ α β : Type} {l : List α} {v : σ}

theorem run_mapM_of_same {f : α → StateM σ β} {g : α → β}
    (h : ∀ a ∈ l, (f a).run v = (g a, v)) : (l.mapM f).run v = (l.map g, v) := by
  induction l with
  | nil => rfl
  | cons a l ih =>
    rw [List.forall_mem_cons] at h
    rw [List.mapM_cons, StateT.run_bind, h.1]
    change (do
      let p ← (l.mapM f).run v
      pure (g a :: p.1, p.2) : Id _) = _
    rw [ih h.2]
    rfl

theorem run_filterMapM_of_same {f : α → StateM σ (Option β)} {g : α → Option β}
    (h : ∀ a ∈ l, (f a).run v = (g a, v)) : (l.filterMapM f).run v = (l.filterMap g, v) := by
  induction l with
  | nil => rfl
  | cons a l ih =>
    rw [List.forall_mem_cons] at h
    rw [List.filterMapM_cons, StateT.run_bind, h.1]
    cases ha : g a with
    | none =>
      rw [List.filterMap_cons_none ha]
      exact ih h.2
    | some b =>
      rw [List.filterMap_cons_some ha]
      change (do
        let p ← (l.filterMapM f).run v
        pure (b :: p.1, p.2) : Id _) = _
      rw [ih h.2]
      rfl

end Run

namespace Store

variable {s : Store} {above : List Text} {r : Record} {m n : Nat}

/-! ## Unfolding -/

/-- The children of a record that are not on the way to it. -/
def below (s : Store) (above : List Text) (r : Record) : List Record :=
  (r.children.filterMap s.get?).filter fun c ↦ c.name ∉ r.name :: above

/-- The tree of a record by the names above it alone. -/
def unfolding (s : Store) : Nat → List Text → Record → Tree Task
  | 0, _, r => .node (s.taskOf r) []
  | bound + 1, above, r =>
    .node (s.taskOf r) ((s.below above r).map (unfolding s bound (r.name :: above)))

theorem value_unfolding (n : Nat) (above : List Text) (r : Record) :
    (s.unfolding n above r).value = s.taskOf r := by
  cases n <;> rfl

theorem run_unlessAbove (f : Record → StateM (List Text) (Tree Task)) (c : Record)
    (v : List Text) :
    (unlessAbove f c).run v =
      if c.name ∈ v then (none, v) else (some ((f c).run v).1, ((f c).run v).2) := by
  unfold unlessAbove
  rw [StateT.run_bind]
  change StateT.run (if v.contains c.name then pure none else do return some (← f c)) v = _
  by_cases h : c.name ∈ v
  · rw [if_pos (List.contains_iff_mem.2 h), if_pos h]
    rfl
  · rw [if_neg fun hc ↦ h (List.contains_iff_mem.1 hc), if_neg h]
    rfl

/-- A tree leaves the names on the way as they were. -/
theorem run_project (h : r.name ∉ above) :
    (s.project n r).run above = (s.unfolding n above r, above) := by
  induction n generalizing above r with
  | zero => rfl
  | succ n ih =>
    have hchild : ∀ c ∈ r.children.filterMap s.get?,
        (unlessAbove (s.project n) c).run (r.name :: above) =
          (if c.name ∉ r.name :: above then some (s.unfolding n (r.name :: above) c) else none,
            r.name :: above) := by
      intro c _
      rw [run_unlessAbove]
      by_cases hc : c.name ∈ r.name :: above
      · rw [if_pos hc, if_neg (not_not.2 hc)]
      · rw [if_neg hc, if_pos hc, ih hc]
    have hbelow : ((r.children.filterMap s.get?).filterMapM (unlessAbove (s.project n))).run
        (r.name :: above) =
          ((s.below above r).map (s.unfolding n (r.name :: above)), r.name :: above) := by
      rw [run_filterMapM_of_same hchild, below, ← List.filterMap_eq_map, List.filterMap_filter]
      simp only [decide_eq_true_eq, Function.comp_apply]
    calc (s.project (n + 1) r).run above
        = let q := ((r.children.filterMap s.get?).filterMapM (unlessAbove (s.project n))).run
            (above.insert r.name)
          (.node (s.taskOf r) q.1, q.2.erase r.name) := rfl
      _ = (s.unfolding (n + 1) above r, above) := by
        rw [List.insert_of_not_mem h, hbelow]
        simp only [List.erase_cons_head]
        rfl

/-! ## No bound is reached -/

/-- The number of records that are not on a way. -/
def free (s : Store) (above : List Text) : Nat := s.records.countP fun r ↦ r.name ∉ above

theorem free_pos (hr : r ∈ s.records) (h : r.name ∉ above) : 0 < s.free above :=
  List.countP_pos_iff.2 ⟨r, hr, by simpa using h⟩

theorem free_cons_lt (hr : r ∈ s.records) (h : r.name ∉ above) :
    s.free (r.name :: above) < s.free above := by
  have hle (l : List Record) : (l.countP fun c ↦ c.name ∉ r.name :: above) ≤
      l.countP fun c ↦ c.name ∉ above := by
    apply List.countP_mono_left
    intro c _ hc
    simp only [List.mem_cons, not_or, decide_eq_true_eq] at hc ⊢
    exact hc.2
  obtain ⟨a, b, hrecords⟩ := List.append_of_mem hr
  have ha := hle a
  have hb := hle b
  unfold free
  rw [hrecords, List.countP_append, List.countP_append, List.countP_cons_of_neg (by simp),
    List.countP_cons_of_pos (by simpa using h)]
  omega

section Indexed

variable [s.IsIndexed]

theorem mem_records_of_mem_below {c : Record} (hc : c ∈ s.below above r) :
    c ∈ s.records ∧ c.name ∉ r.name :: above := by
  obtain ⟨hmem, hfree⟩ := List.mem_filter.1 hc
  obtain ⟨name, -, hname⟩ := List.mem_filterMap.1 hmem
  exact ⟨mem_of_get? hname, by simpa using hfree⟩

/-- From the number of free records on the bound does not matter. -/
theorem unfolding_eq (hr : r ∈ s.records) (h : r.name ∉ above) (hm : s.free above ≤ m)
    (hn : s.free above ≤ n) : s.unfolding m above r = s.unfolding n above r := by
  induction m generalizing n above r with
  | zero => exact absurd (free_pos hr h) (by omega)
  | succ m ih =>
    cases n with
    | zero => exact absurd (free_pos hr h) (by omega)
    | succ n =>
      have hlt := free_cons_lt hr h
      rw [unfolding, unfolding]
      congr 1
      apply List.map_congr_left
      intro c hc
      obtain ⟨hrecord, hname⟩ := mem_records_of_mem_below hc
      exact ih hrecord hname (by omega) (by omega)

theorem free_le_length (s : Store) (above : List Text) : s.free above ≤ s.records.length :=
  List.countP_le_length

/-- The tree of a record whose way may be as long as it will. -/
def treeOf (s : Store) (above : List Text) (r : Record) : Tree Task :=
  s.unfolding s.records.length above r

theorem unfolding_eq_treeOf (hr : r ∈ s.records) (h : r.name ∉ above)
    (hn : s.records.length ≤ n) : s.unfolding n above r = s.treeOf above r :=
  unfolding_eq hr h ((s.free_le_length above).trans hn) (s.free_le_length above)

theorem treeOf_eq (hr : r ∈ s.records) (h : r.name ∉ above) :
    s.treeOf above r =
      .node (s.taskOf r) ((s.below above r).map (s.treeOf (r.name :: above))) := by
  rw [← unfolding_eq_treeOf hr h (Nat.le_succ _)]
  rfl

/-! ## Nodes -/

/-- Projecting the roots gives the tree of each, and no name is left behind. -/
theorem run_mapM_roots (hn : s.records.length ≤ n) :
    (s.roots.mapM (s.project n)).run [] = (s.roots.map (s.treeOf []), []) := by
  apply run_mapM_of_same
  intro r hr
  rw [run_project List.not_mem_nil,
    unfolding_eq_treeOf (List.mem_of_mem_filter hr) List.not_mem_nil hn]

theorem tasks_eq (s : Store) [s.IsIndexed] : s.tasks = s.roots.map (s.treeOf []) := by
  unfold tasks
  rw [run_mapM_roots le_rfl]

/-- A node is the tree of its record by the names on its way, which are distinct. -/
theorem exists_treeOf {p : List Task} {u : Tree Task} (h : Tree.Reaches s.tasks p u) :
    ∃ r ∈ s.records, (r.name :: p.map (·.id)).Nodup ∧ u = s.treeOf (p.map (·.id)) r := by
  induction h with
  | top hu =>
    rw [tasks_eq] at hu
    obtain ⟨r, hr, rfl⟩ := List.mem_map.1 hu
    exact ⟨r, List.mem_of_mem_filter hr, List.nodup_singleton _, rfl⟩
  | under _ hu ih =>
    obtain ⟨r, hr, hnodup, rfl⟩ := ih
    rw [treeOf_eq hr (List.nodup_cons.1 hnodup).1] at hu ⊢
    obtain ⟨c, hc, rfl⟩ := List.mem_map.1 hu
    obtain ⟨hrecord, hname⟩ := mem_records_of_mem_below hc
    exact ⟨c, hrecord, List.nodup_cons.2 ⟨hname, hnodup⟩, rfl⟩

end Indexed

/-- In a sound store every child that is not on the way has a tree. -/
theorem map_name_below (h : s.IsSound) (hr : r ∈ s.records) (above : List Text) :
    (s.below above r).map (·.name) = r.children.filter fun c ↦ c ≠ r.name ∧ c ∉ above := by
  have hindexed := h.toIsIndexed
  have hget : s.get? r.name = some r := get?_of_mem hr
  have hall : (r.children.filterMap s.get?).map (·.name) = r.children := by
    have hnames := map_name_childrenOf h r.name
    unfold childrenOf childNames at hnames
    rw [hget] at hnames
    exact hnames
  calc (s.below above r).map (·.name)
      = ((r.children.filterMap s.get?).map (·.name)).filter fun c ↦ c ∉ r.name :: above := by
        rw [List.filter_map]
        rfl
    _ = r.children.filter fun c ↦ c ∉ r.name :: above := by rw [hall]
    _ = r.children.filter fun c ↦ c ≠ r.name ∧ c ∉ above := by
        simp only [List.mem_cons, not_or, ne_eq]

/-- What the node of a record is, behind a way with these names. -/
structure IsNodeOf (s : Store) (above : List Text) (r : Record) (u : Tree Task) : Prop where
  value_eq : u.value = s.taskOf r
  /-- A node for each child that is not on the way, in order. -/
  children_eq : u.children.map (·.value.id) = r.children.filter fun c ↦ c ≠ r.name ∧ c ∉ above
  nodup : (r.name :: above).Nodup
  /-- Projecting the record alone gives the same, and leaves the names on the way as they were. -/
  run_eq : ∀ n, s.records.length ≤ n → (s.project n r).run above = (u, above)

/-- Projecting ends whatever the children are, with one tree for each root, and each node is that
of a record behind the names on the way to it. -/
structure IsProjected (s : Store) : Prop where
  run_eq : ∀ n, s.records.length ≤ n → (s.roots.mapM (s.project n)).run [] = (s.tasks, [])
  tops_eq : s.tasks.map (·.value) = s.roots.map s.taskOf
  nodes : ∀ p u, Tree.Reaches s.tasks p u →
    ∃ r, s.get? u.value.id = some r ∧ s.IsNodeOf (p.map (·.id)) r u

theorem isNodeOf_treeOf (h : s.IsSound) (hr : r ∈ s.records) (hnodup : (r.name :: above).Nodup) :
    s.IsNodeOf above r (s.treeOf above r) := by
  have hindexed := h.toIsIndexed
  have hname : r.name ∉ above := (List.nodup_cons.1 hnodup).1
  refine ⟨value_unfolding _ _ _, ?_, hnodup, fun n hn ↦ ?_⟩
  · rw [treeOf_eq hr hname, ← map_name_below h hr above, Tree.children, List.map_map]
    apply List.map_congr_left
    intro c _
    exact congrArg Task.id (value_unfolding _ _ _)
  · rw [run_project hname, unfolding_eq_treeOf hr hname hn]

theorem isProjected_of_isSound (h : s.IsSound) : s.IsProjected := by
  have hindexed := h.toIsIndexed
  refine ⟨fun n hn ↦ by rw [run_mapM_roots hn, tasks_eq], ?_, fun p u hu ↦ ?_⟩
  · rw [tasks_eq, List.map_map]
    apply List.map_congr_left
    intro r _
    exact value_unfolding _ _ _
  · obtain ⟨r, hr, hnodup, rfl⟩ := exists_treeOf hu
    refine ⟨r, ?_, isNodeOf_treeOf h hr hnodup⟩
    rw [treeOf, value_unfolding]
    exact get?_of_mem hr

/-- Whatever is done to an empty store, its tasks are the unfolding of its children without the
names that are on the way. -/
theorem isProjected_after (t : StatusTable) (l : List Step) : ((empty t).after l).IsProjected :=
  isProjected_of_isSound ((isSound_empty t).after l)

end Store

end Markbook
