import Markbook.Proofs.Store.Projection
import Mathlib.Data.Fintype.Card
import Mathlib.Logic.Relation

/-!
# Tasks Below Roots

Projection starts at the entities that are nobody's child, so an entity is a task exactly when one
of them is above it (`Store.mem_taskNames_iff`): a child that is left out stands on the way to its
parent and is a task there.  An entity without a root above it is below a cycle of children or on
it, since the names above it are finitely many.
-/

namespace Markbook

namespace Tree

variable {α : Type} {l : List (Tree α)}

/-- The values on the way to a node are those of other nodes. -/
theorem Reaches.exists_of_mem {p : List α} {u : Tree α} (h : Reaches l p u) {a : α} (ha : a ∈ p) :
    ∃ q v, Reaches l q v ∧ v.value = a := by
  induction h with
  | top hu => simp at ha
  | under ht hu ih =>
    rcases List.mem_cons.1 ha with rfl | ha
    · exact ⟨_, _, ht, rfl⟩
    · exact ih ha

mutual

theorem exists_reaches_of_mem_preorder : ∀ (u : Tree α) (p : List α), Reaches l p u →
    ∀ a ∈ u.preorder, ∃ q v, Reaches l q v ∧ v.value = a
  | .node b c, p, hu, a, ha => by
    rw [preorder, List.mem_cons] at ha
    rcases ha with rfl | ha
    · exact ⟨p, _, hu, rfl⟩
    · exact exists_reaches_of_mem_preorderAll c (b :: p) (fun v hv ↦ .under hu hv) a ha

theorem exists_reaches_of_mem_preorderAll : ∀ (c : List (Tree α)) (p : List α),
    (∀ u ∈ c, Reaches l p u) → ∀ a ∈ preorderAll c, ∃ q v, Reaches l q v ∧ v.value = a
  | [], _, _, a, ha => by simp [preorderAll] at ha
  | u :: r, p, hc, a, ha => by
    rw [preorderAll, List.mem_append] at ha
    rw [List.forall_mem_cons] at hc
    rcases ha with ha | ha
    · exact exists_reaches_of_mem_preorder u p hc.1 a ha
    · exact exists_reaches_of_mem_preorderAll r p hc.2 a ha

end

theorem preorder_subset_preorderAll {u : Tree α} (hu : u ∈ l) : u.preorder ⊆ preorderAll l := by
  obtain ⟨a, b, rfl⟩ := List.append_of_mem hu
  rw [preorderAll_append, preorderAll]
  exact fun x hx ↦ List.mem_append_right _ (List.mem_append_left _ hx)

theorem Reaches.preorder_subset {p : List α} {u : Tree α} (h : Reaches l p u) :
    u.preorder ⊆ preorderAll l := by
  induction h with
  | top hu => exact preorder_subset_preorderAll hu
  | @under p t u ht hu ih =>
    refine fun a ha ↦ ih ?_
    rw [preorder_eq]
    exact List.mem_cons_of_mem _ (preorder_subset_preorderAll hu ha)

/-- The values of some trees are those of their nodes. -/
theorem mem_preorderAll_iff {a : α} :
    a ∈ preorderAll l ↔ ∃ p u, Reaches l p u ∧ u.value = a := by
  constructor
  · exact exists_reaches_of_mem_preorderAll l [] (fun u hu ↦ .top hu) a
  · rintro ⟨p, u, hu, rfl⟩
    apply hu.preorder_subset
    rw [preorder_eq]
    exact List.mem_cons_self

end Tree

namespace Store

variable {s : Store} {n c : Text}

/-- Is the second entity a child of the first? -/
def IsChild (s : Store) (p c : Text) : Prop := c ∈ s.childNames p

/-- Is the second entity the first one, or somewhere below it? -/
def IsBelow (s : Store) (p c : Text) : Prop := Relation.ReflTransGen s.IsChild p c

/-- The names of the tasks of a store, in the order of the trees. -/
def taskNames (s : Store) : List Text := (Tree.preorderAll s.tasks).map (·.id)

theorem mem_taskNames : n ∈ s.taskNames ↔ ∃ p u, Tree.Reaches s.tasks p u ∧ u.value.id = n := by
  unfold taskNames
  simp only [List.mem_map, Tree.mem_preorderAll_iff]
  constructor
  · rintro ⟨a, ⟨p, u, hu, rfl⟩, rfl⟩
    exact ⟨p, u, hu, rfl⟩
  · rintro ⟨p, u, hu, rfl⟩
    exact ⟨_, ⟨p, u, hu, rfl⟩, rfl⟩

/-! ## Down from the roots -/

theorem isChild_of_mem_children {r : Record} (hr : s.get? n = some r) (hc : c ∈ r.children) :
    s.IsChild n c :=
  exists_children_iff.1 ⟨r, hr, hc⟩

theorem name_mem_taskNames_of_root [s.IsIndexed] {r : Record} (hr : r ∈ s.roots) :
    r.name ∈ s.taskNames := by
  refine mem_taskNames.2 ⟨[], s.treeOf [] r, .top ?_, congrArg Task.id (value_unfolding _ _ _)⟩
  rw [tasks_eq]
  exact List.mem_map_of_mem hr

/-- A child of a task is a task: where it is left out, it is on the way. -/
theorem mem_taskNames_of_isChild (h : s.IsSound) (hn : n ∈ s.taskNames) (hc : s.IsChild n c) :
    c ∈ s.taskNames := by
  have hindexed := h.toIsIndexed
  obtain ⟨p, u, hu, rfl⟩ := mem_taskNames.1 hn
  obtain ⟨r, hr, hnode⟩ := (isProjected_of_isSound h).nodes p u hu
  obtain ⟨r', hr', hmem⟩ := exists_children_iff.2 hc
  obtain rfl : r = r' := Option.some.inj (hr.symm.trans hr')
  by_cases hleft : c ≠ r.name ∧ c ∉ p.map (·.id)
  · have hkept : c ∈ u.children.map (·.value.id) := by
      rw [hnode.children_eq, List.mem_filter]
      exact ⟨hmem, decide_eq_true hleft⟩
    obtain ⟨v, hv, rfl⟩ := List.mem_map.1 hkept
    exact mem_taskNames.2 ⟨_, v, .under hu hv, rfl⟩
  · rw [not_and_or, not_not, not_not] at hleft
    rcases hleft with rfl | hway
    · rw [name_of_get? hr]
      exact hn
    · obtain ⟨a, ha, rfl⟩ := List.mem_map.1 hway
      obtain ⟨q, v, hv, rfl⟩ := hu.exists_of_mem ha
      exact mem_taskNames.2 ⟨q, v, hv, rfl⟩

/-- A node is below the root of its tree. -/
theorem exists_root_of_reaches (h : s.IsSound) {p : List Task} {u : Tree Task}
    (hu : Tree.Reaches s.tasks p u) : ∃ r ∈ s.roots, s.IsBelow r.name u.value.id := by
  have hindexed := h.toIsIndexed
  induction hu with
  | top hu =>
    rw [tasks_eq] at hu
    obtain ⟨r, hr, rfl⟩ := List.mem_map.1 hu
    refine ⟨r, hr, ?_⟩
    rw [treeOf, value_unfolding]
    exact .refl
  | @under p t u ht hu ih =>
    obtain ⟨root, hroot, hbelow⟩ := ih
    obtain ⟨r, hr, hnode⟩ := (isProjected_of_isSound h).nodes p t ht
    have hmem : u.value.id ∈ t.children.map (·.value.id) := List.mem_map_of_mem hu
    rw [hnode.children_eq] at hmem
    exact ⟨root, hroot, hbelow.tail (isChild_of_mem_children hr (List.mem_of_mem_filter hmem))⟩

theorem mem_taskNames_of_isBelow (h : s.IsSound) {r : Record} (hr : r ∈ s.roots)
    (hn : s.IsBelow r.name n) : n ∈ s.taskNames := by
  have hindexed := h.toIsIndexed
  induction hn with
  | refl => exact name_mem_taskNames_of_root hr
  | tail _ hc ih => exact mem_taskNames_of_isChild h ih hc

/-! ## Up to the roots -/

theorem mem_names_of_isChild [s.IsIndexed] (h : s.IsChild n c) : n ∈ s.names := by
  obtain ⟨r, hr, -⟩ := exists_children_iff.2 h
  exact get?_isSome_iff.1 (by rw [hr]; rfl)

theorem mem_names_of_isBelow [s.IsIndexed] (h : s.IsBelow c n) (hn : n ∈ s.names) :
    c ∈ s.names := by
  induction h using Relation.ReflTransGen.head_induction_on with
  | refl => exact hn
  | head hc _ _ => exact mem_names_of_isChild hc

/-- Without a cycle above it an entity has a root above it: the one that is nowhere below the
others. -/
theorem exists_root_of_acyclic (h : s.IsSound) (hn : n ∈ s.names)
    (hacyclic : ∀ c, s.IsBelow c n → ¬ Relation.TransGen s.IsChild c c) :
    ∃ r ∈ s.roots, s.IsBelow r.name n := by
  have hindexed := h.toIsIndexed
  let above := {c // s.IsBelow c n}
  let before (a b : above) : Prop := Relation.TransGen s.IsChild a.1 b.1
  have hfinite : Finite above :=
    (s.names.finite_toSet.subset fun c hc ↦ mem_names_of_isBelow hc hn).to_subtype
  have htrans : IsTrans above before := ⟨fun _ _ _ ↦ .trans⟩
  have hirrefl : Std.Irrefl before := ⟨fun a ↦ hacyclic a.1 a.2⟩
  obtain ⟨⟨c, hc⟩, -, hfirst⟩ := (Finite.wellFounded_of_trans_of_irrefl before).has_min
    Set.univ ⟨⟨n, .refl⟩, trivial⟩
  obtain ⟨r, hr, rfl⟩ := exists_of_mem_names (mem_names_of_isBelow hc hn)
  have hroot : ¬ s.isNested r.name = true := by
    rw [isNested_iff]
    rintro ⟨p, hp⟩
    exact hfirst ⟨p, .head hp hc⟩ trivial (.single hp)
  exact ⟨r, List.mem_filter.2 ⟨mem_of_get? hr, by simpa using hroot⟩, hc⟩

/-! ## Tasks -/

/-- Whatever is done to an empty store, its tasks are the entities with a root above them.  An
entity that is no task is below an entity that is below itself. -/
theorem mem_taskNames_iff (t : StatusTable) (l : List Step) :
    let s := (empty t).after l
    (∀ n, n ∈ s.taskNames ↔ ∃ r ∈ s.roots, s.IsBelow r.name n) ∧
      ∀ n ∈ s.names, n ∉ s.taskNames →
        ∃ c, s.IsBelow c n ∧ Relation.TransGen s.IsChild c c := by
  intro s
  have hsound : s.IsSound := (isSound_empty t).after l
  have hiff (n : Text) : n ∈ s.taskNames ↔ ∃ r ∈ s.roots, s.IsBelow r.name n := by
    constructor
    · intro hn
      obtain ⟨p, u, hu, rfl⟩ := mem_taskNames.1 hn
      exact exists_root_of_reaches hsound hu
    · rintro ⟨r, hr, hn⟩
      exact mem_taskNames_of_isBelow hsound hr hn
  refine ⟨hiff, fun n hn hlost ↦ ?_⟩
  by_contra hnone
  push Not at hnone
  exact hlost ((hiff n).2 (exists_root_of_acyclic hsound hn hnone))

/-- A text that has a task below another one, and the other one below it. -/
def looped : Note := ⟨"a.md", Document.planLead ++ ("# A\n## B\n### A\n" : Text), 1⟩

/-- Neither of the two is nobody's child, so both are lost. -/
theorem not_mem_taskNames_looped :
    ((empty .builtIn).after [.change (.load looped)]).names = ["A", "B"] ∧
      ((empty .builtIn).after [.change (.load looped)]).roots.map (·.name) = [] ∧
      ((empty .builtIn).after [.change (.load looped)]).taskNames = [] := by
  decide +kernel

end Store

end Markbook
