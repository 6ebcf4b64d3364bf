import Markbook.Outline
import Mathlib.Tactic.Common

/-!
# Nesting by Level

Nesting keeps the document order: the preorder of the trees is the list they are made of
(`Outline.preorderAll_nest`).  Which value comes under which depends on the levels alone, so nesting
commutes with changing the values (`Outline.nest_map`).
-/

namespace Markbook

namespace Tree

variable {α β : Type}

mutual

/-- Changes the values of a tree. -/
def map (f : α → β) : Tree α → Tree β
  | .node a l => .node (f a) (mapAll f l)

def mapAll (f : α → β) : List (Tree α) → List (Tree β)
  | [] => []
  | t :: r => map f t :: mapAll f r

end

theorem mapAll_eq (f : α → β) (l : List (Tree α)) : mapAll f l = l.map (map f) := by
  induction l with
  | nil => rfl
  | cons t r ih => rw [mapAll, List.map_cons, ih]

theorem value_map (f : α → β) (t : Tree α) : (t.map f).value = f t.value := by
  cases t
  rfl

theorem children_map (f : α → β) (t : Tree α) : (t.map f).children = t.children.map (map f) := by
  cases t with
  | node a l => exact mapAll_eq f l

theorem map_node (f : α → β) (a : α) (l : List (Tree α)) :
    (Tree.node a l).map f = .node (f a) (l.map (map f)) := by
  rw [map, mapAll_eq]

theorem preorderAll_append (a b : List (Tree α)) :
    preorderAll (a ++ b) = preorderAll a ++ preorderAll b := by
  induction a with
  | nil => rfl
  | cons t r ih => rw [List.cons_append, preorderAll, ih, preorderAll, List.append_assoc]

theorem preorder_eq (t : Tree α) : t.preorder = t.value :: preorderAll t.children := by
  cases t
  rfl

theorem value_mem_preorderAll {t : Tree α} {l : List (Tree α)} (h : t ∈ l) :
    t.value ∈ preorderAll l := by
  obtain ⟨a, b, rfl⟩ := List.append_of_mem h
  rw [preorderAll_append, preorderAll, preorder_eq]
  exact List.mem_append_right _ List.mem_cons_self

end Tree

namespace Outline

variable {α β : Type}

/-- What is the same when one tree is closed is the same when all are that have to be. -/
theorem closeTo_invariant (f : List (Nat × Tree α) → List (Tree α) → β)
    (hone : ∀ open_ done, f (closeOne open_ done).1 (closeOne open_ done).2 = f open_ done)
    (level fuel : Nat) (open_ : List (Nat × Tree α)) (done : List (Tree α)) :
    f (closeTo level fuel open_ done).1 (closeTo level fuel open_ done).2 = f open_ done := by
  induction fuel generalizing open_ done with
  | zero => rfl
  | succ fuel ih =>
    unfold closeTo
    cases open_ with
    | nil => rfl
    | cons p r =>
      simp only
      split
      · rw [ih]
        exact hone (p :: r) done
      · rfl

/-! ## Document order -/

/-- The values of the open trees, the outermost first. -/
def stackPreorder : List (Nat × Tree α) → List α
  | [] => []
  | (_, t) :: r => stackPreorder r ++ t.preorder

theorem preorder_closeOne (open_ : List (Nat × Tree α)) (done : List (Tree α)) :
    Tree.preorderAll (closeOne open_ done).2 ++ stackPreorder (closeOne open_ done).1 =
      Tree.preorderAll done ++ stackPreorder open_ := by
  match open_ with
  | [] => rfl
  | [(_, t)] => simp [closeOne, stackPreorder, Tree.preorderAll_append, Tree.preorderAll]
  | (_, t) :: (l, p) :: r =>
    have hparent : (Tree.node p.value (p.children ++ [t])).preorder = p.preorder ++ t.preorder := by
      rw [Tree.preorder_eq, Tree.preorder_eq p]
      simp [Tree.value, Tree.children, Tree.preorderAll_append, Tree.preorderAll]
    simp [closeOne, stackPreorder, hparent]

theorem preorder_closeTo (level fuel : Nat) (open_ : List (Nat × Tree α)) (done : List (Tree α)) :
    Tree.preorderAll (closeTo level fuel open_ done).2 ++
        stackPreorder (closeTo level fuel open_ done).1 =
      Tree.preorderAll done ++ stackPreorder open_ :=
  closeTo_invariant (fun open_ done ↦ Tree.preorderAll done ++ stackPreorder open_)
    preorder_closeOne
    level fuel open_ done

theorem length_closeOne (p : Nat × Tree α) (r : List (Nat × Tree α)) (done : List (Tree α)) :
    (closeOne (p :: r) done).1.length = r.length := by
  cases r <;> rfl

/-- At the end of a document every tree is closed. -/
theorem closeTo_zero (open_ : List (Nat × Tree α)) (done : List (Tree α)) :
    (closeTo 0 open_.length open_ done).1 = [] := by
  generalize hn : open_.length = n
  induction n generalizing open_ done with
  | zero => exact List.length_eq_zero_iff.1 hn
  | succ n ih =>
    obtain ⟨p, r, rfl⟩ := List.exists_cons_of_length_eq_add_one hn
    unfold closeTo
    simp only [Nat.zero_le, if_true]
    refine ih _ _ ?_
    rw [length_closeOne]
    simpa using hn

theorem preorder_nestFrom (items : List (Nat × α)) (open_ : List (Nat × Tree α))
    (done : List (Tree α)) :
    Tree.preorderAll (nestFrom open_ done items) =
      Tree.preorderAll done ++ stackPreorder open_ ++ items.map (·.2) := by
  induction items generalizing open_ done with
  | nil =>
    have hclose := preorder_closeTo 0 open_.length open_ done
    rw [closeTo_zero, stackPreorder, List.append_nil] at hclose
    simp [nestFrom, hclose]
  | cons item r ih =>
    have hclose := preorder_closeTo item.1 open_.length open_ done
    have hleaf : (Tree.node item.2 []).preorder = [item.2] := rfl
    unfold nestFrom
    simp only
    rw [ih, stackPreorder, hleaf, ← List.append_assoc, hclose]
    simp

/-- Nesting keeps the order of the values. -/
theorem preorderAll_nest (items : List (Nat × α)) :
    Tree.preorderAll (nest items) = items.map (·.2) := by
  unfold nest
  rw [preorder_nestFrom]
  rfl

/-- The trees of an outline hold its entities in document order. -/
theorem preorderAll_trees (m : Markers) (t : StatusTable) (body : Text) :
    Tree.preorderAll (trees m t body) = entities m t body := by
  unfold trees
  rw [preorderAll_nest, List.map_map]
  exact List.map_id _

/-! ## Other values at the same levels -/

/-- Changes the values of the open trees. -/
def mapStack (f : α → β) (open_ : List (Nat × Tree α)) : List (Nat × Tree β) :=
  open_.map fun p ↦ (p.1, p.2.map f)

theorem closeOne_map (f : α → β) (open_ : List (Nat × Tree α)) (done : List (Tree α)) :
    closeOne (mapStack f open_) (done.map (Tree.map f)) =
      (mapStack f (closeOne open_ done).1, (closeOne open_ done).2.map (Tree.map f)) := by
  match open_ with
  | [] => rfl
  | [(_, t)] => simp [closeOne, mapStack]
  | (_, t) :: (l, p) :: r =>
    simp [closeOne, mapStack, Tree.map_node, Tree.value_map, Tree.children_map]

theorem closeTo_map (f : α → β) (level fuel : Nat) (open_ : List (Nat × Tree α))
    (done : List (Tree α)) :
    closeTo level fuel (mapStack f open_) (done.map (Tree.map f)) =
      (mapStack f (closeTo level fuel open_ done).1,
        (closeTo level fuel open_ done).2.map (Tree.map f)) := by
  induction fuel generalizing open_ done with
  | zero => rfl
  | succ fuel ih =>
    unfold closeTo
    cases open_ with
    | nil => rfl
    | cons p r =>
      have hone := closeOne_map f (p :: r) done
      unfold mapStack at hone ⊢
      rw [List.map_cons] at hone ⊢
      simp only
      split
      · rw [hone]
        exact ih _ _
      · rfl

theorem nestFrom_map (f : α → β) (items : List (Nat × α)) (open_ : List (Nat × Tree α))
    (done : List (Tree α)) :
    nestFrom (mapStack f open_) (done.map (Tree.map f)) (items.map fun p ↦ (p.1, f p.2)) =
      (nestFrom open_ done items).map (Tree.map f) := by
  have hlength (l : List (Nat × Tree α)) : (mapStack f l).length = l.length := List.length_map _
  induction items generalizing open_ done with
  | nil =>
    rw [List.map_nil, nestFrom, nestFrom, hlength, closeTo_map]
  | cons item r ih =>
    rw [List.map_cons, nestFrom, nestFrom, hlength, closeTo_map]
    simp only
    rw [← ih]
    congr 1

/-- The shape of the trees depends on the levels alone. -/
theorem nest_map (f : α → β) (items : List (Nat × α)) :
    nest (items.map fun p ↦ (p.1, f p.2)) = (nest items).map (Tree.map f) :=
  nestFrom_map f items [] []

end Outline

end Markbook
