import Markbook.Proofs.Outline
import Markbook.Proofs.Section.Cut

/-!
# Parents in Outlines

The trees of an outline hold its named headings in document order, and the parent of each is the
nearest earlier one of a smaller level (`Outline.parents_trees`).  Nesting keeps a stack of open
trees, of which only the levels and the values on top matter: at every level it has the nearest
earlier item that is less deep (`Outline.IsStackOf`).
-/

namespace Markbook

namespace Tree

variable {α β : Type} {up : Option α}

mutual

/-- The values of a tree in preorder, each with the value right above it. -/
def parents (up : Option α) : Tree α → List (Option α × α)
  | .node a l => (up, a) :: parentsAll (some a) l

def parentsAll (up : Option α) : List (Tree α) → List (Option α × α)
  | [] => []
  | t :: r => parents up t ++ parentsAll up r

end

theorem parents_eq (up : Option α) (t : Tree α) :
    t.parents up = (up, t.value) :: parentsAll (some t.value) t.children := by
  cases t
  rfl

theorem parentsAll_append (up : Option α) (a b : List (Tree α)) :
    parentsAll up (a ++ b) = parentsAll up a ++ parentsAll up b := by
  induction a with
  | nil => rfl
  | cons t r ih => rw [List.cons_append, parentsAll, ih, parentsAll, List.append_assoc]

mutual

theorem map_snd_parents (up : Option α) : ∀ t : Tree α, (t.parents up).map (·.2) = t.preorder
  | .node a l => by rw [parents, List.map_cons, map_snd_parentsAll (some a) l, preorder]

theorem map_snd_parentsAll (up : Option α) :
    ∀ l : List (Tree α), (parentsAll up l).map (·.2) = preorderAll l
  | [] => rfl
  | t :: r => by
    rw [parentsAll, List.map_append, map_snd_parents up t, map_snd_parentsAll up r, preorderAll]

end

end Tree

namespace Outline

variable {α : Type}

/-! ## The stack of open trees -/

/-- The levels and the values of the open trees. -/
def tops (open_ : List (Nat × Tree α)) : List (Nat × α) := open_.map fun p ↦ (p.1, p.2.value)

/-- The values of the open trees with their parents, the outermost first. -/
def stackParents : List (Nat × Tree α) → List (Option α × α)
  | [] => []
  | (_, t) :: r => stackParents r ++ t.parents (r.head?.map (·.2.value))

theorem tops_closeOne (p : Nat × Tree α) (r : List (Nat × Tree α)) (done : List (Tree α)) :
    tops (closeOne (p :: r) done).1 = tops r := by
  cases r <;> rfl

/-- A tree that is closed keeps its parent, which is the value of the tree around it. -/
theorem parentsAll_closeOne (open_ : List (Nat × Tree α)) (done : List (Tree α)) :
    Tree.parentsAll none (closeOne open_ done).2 ++ stackParents (closeOne open_ done).1 =
      Tree.parentsAll none done ++ stackParents open_ := by
  match open_ with
  | [] => rfl
  | [(_, t)] => simp [closeOne, stackParents, Tree.parentsAll_append, Tree.parentsAll]
  | (_, t) :: (l, p) :: r =>
    have hparent (up : Option α) : (Tree.node p.value (p.children ++ [t])).parents up =
        p.parents up ++ t.parents (some p.value) := by
      rw [Tree.parents_eq, Tree.parents_eq up p]
      simp [Tree.value, Tree.children, Tree.parentsAll_append, Tree.parentsAll]
    simp [closeOne, stackParents, hparent]

theorem parentsAll_closeTo (level fuel : Nat) (open_ : List (Nat × Tree α)) (done : List (Tree α)) :
    Tree.parentsAll none (closeTo level fuel open_ done).2 ++
        stackParents (closeTo level fuel open_ done).1 =
      Tree.parentsAll none done ++ stackParents open_ :=
  closeTo_invariant (fun open_ done ↦ Tree.parentsAll none done ++ stackParents open_)
    parentsAll_closeOne level fuel open_ done

/-- The trees that are closed are those on top that are not less deep. -/
theorem tops_closeTo (level : Nat) (open_ : List (Nat × Tree α)) (done : List (Tree α)) :
    tops (closeTo level open_.length open_ done).1 =
      (tops open_).dropWhile fun q ↦ level ≤ q.1 := by
  generalize hn : open_.length = n
  induction n generalizing open_ done with
  | zero =>
    rw [List.length_eq_zero_iff.1 hn]
    rfl
  | succ n ih =>
    obtain ⟨p, r, rfl⟩ := List.exists_cons_of_length_eq_add_one hn
    have htops : tops (p :: r) = (p.1, p.2.value) :: tops r := rfl
    unfold closeTo
    rw [htops]
    simp only
    split
    · next hle =>
      rw [List.dropWhile_cons_of_pos (by simpa using hle), ih, tops_closeOne]
      rw [length_closeOne]
      simpa using hn
    · next hlt =>
      rw [List.dropWhile_cons_of_neg (by simpa using hlt)]
      rfl

/-! ## The nearest earlier item -/

/-- The nearest of the items before, the last of them first, that is less deep than a level. -/
def nearest? (before : List (Nat × α)) (level : Nat) : Option α :=
  (before.find? fun q ↦ q.1 < level).map (·.2)

/-- The stack has for each level the nearest item before. -/
def IsStackOf (open_ : List (Nat × Tree α)) (before : List (Nat × α)) : Prop :=
  ∀ level, nearest? (tops open_) level = nearest? before level

variable {open_ : List (Nat × Tree α)} {before : List (Nat × α)}

theorem head?_dropWhile_eq (level : Nat) (l : List (Nat × α)) :
    (l.dropWhile fun q ↦ level ≤ q.1).head?.map (·.2) = nearest? l level := by
  unfold nearest?
  induction l with
  | nil => rfl
  | cons q r ih =>
    by_cases h : level ≤ q.1
    · rw [List.dropWhile_cons_of_pos (by simpa using h), List.find?_cons_of_neg (by simpa using h),
        ih]
    · rw [List.dropWhile_cons_of_neg (by simpa using h), List.find?_cons_of_pos (by simpa using h)]
      rfl

/-- What is closed for an item is not less deep than any item that is no deeper. -/
theorem nearest?_dropWhile {level n : Nat} (h : n ≤ level) (l : List (Nat × α)) :
    nearest? (l.dropWhile fun q ↦ level ≤ q.1) n = nearest? l n := by
  unfold nearest?
  induction l with
  | nil => rfl
  | cons q r ih =>
    by_cases hq : level ≤ q.1
    · have hnot : ¬ q.1 < n := by omega
      rw [List.dropWhile_cons_of_pos (by simpa using hq), ih,
        List.find?_cons_of_neg (by simpa using hnot)]
    · rw [List.dropWhile_cons_of_neg (by simpa using hq)]

/-- An item is put on what is left of the stack when it is closed for the item. -/
theorem IsStackOf.push (h : IsStackOf open_ before) (level : Nat) (a : α) (done : List (Tree α)) :
    IsStackOf ((level, .node a []) :: (closeTo level open_.length open_ done).1)
      ((level, a) :: before) := by
  intro n
  have htops : tops ((level, .node a []) :: (closeTo level open_.length open_ done).1) =
      (level, a) :: (tops open_).dropWhile fun q ↦ level ≤ q.1 :=
    congrArg ((level, a) :: ·) (tops_closeTo level open_ done)
  rw [htops]
  by_cases hn : level < n
  · have hfound (l : List (Nat × α)) : nearest? ((level, a) :: l) n = some a := by
      unfold nearest?
      rw [List.find?_cons_of_pos (by simpa using hn)]
      rfl
    rw [hfound, hfound]
  · have hpassed (l : List (Nat × α)) : nearest? ((level, a) :: l) n = nearest? l n := by
      unfold nearest?
      rw [List.find?_cons_of_neg (by simpa using hn)]
    rw [hpassed, hpassed, nearest?_dropWhile (by omega), h n]

/-- Each item with the nearest one before it that is less deep. -/
def withNearest (before : List (Nat × α)) : List (Nat × α) → List (Option α × α)
  | [] => []
  | p :: r => (nearest? before p.1, p.2) :: withNearest (p :: before) r

theorem parentsAll_nestFrom (items : List (Nat × α)) (h : IsStackOf open_ before)
    (done : List (Tree α)) :
    Tree.parentsAll none (nestFrom open_ done items) =
      Tree.parentsAll none done ++ stackParents open_ ++ withNearest before items := by
  induction items generalizing open_ before done with
  | nil =>
    have hclose := parentsAll_closeTo 0 open_.length open_ done
    rw [closeTo_zero, stackParents, List.append_nil] at hclose
    simp [nestFrom, withNearest, hclose]
  | cons item r ih =>
    have hclose := parentsAll_closeTo item.1 open_.length open_ done
    have hhead : ((closeTo item.1 open_.length open_ done).1.head?.map (·.2.value)) =
        nearest? before item.1 := by
      rw [← h item.1, ← head?_dropWhile_eq, ← tops_closeTo item.1 open_ done]
      unfold tops
      rw [List.head?_map, Option.map_map]
      rfl
    have hleaf (up : Option α) : (Tree.node item.2 []).parents up = [(up, item.2)] := rfl
    unfold nestFrom
    simp only
    rw [ih (h.push item.1 item.2 done), stackParents, hleaf, hhead, ← List.append_assoc, hclose]
    simp [withNearest]

/-- In a nested list the parent of an item is the nearest one before it that is less deep. -/
theorem parentsAll_nest (items : List (Nat × α)) :
    Tree.parentsAll none (nest items) = withNearest [] items := by
  unfold nest
  rw [parentsAll_nestFrom items (show IsStackOf [] [] from fun _ ↦ rfl)]
  rfl

theorem length_withNearest (before items : List (Nat × α)) :
    (withNearest before items).length = items.length := by
  induction items generalizing before with
  | nil => rfl
  | cons p r ih => rw [withNearest, List.length_cons, ih, List.length_cons]

theorem withNearest_append (before a b : List (Nat × α)) :
    withNearest before (a ++ b) = withNearest before a ++ withNearest (a.reverse ++ before) b := by
  induction a generalizing before with
  | nil => rfl
  | cons p r ih =>
    rw [List.cons_append, withNearest, ih, withNearest, List.cons_append, List.reverse_cons,
      List.append_assoc, List.singleton_append]

/-! ## Named headings -/

/-- The named headings of a body: the number of the line, from 1, the level and the name. -/
def headings (t : StatusTable) (body : Text) : List (Nat × Nat × Text) :=
  ((Text.lines body).zipIdx 1).filterMap fun p ↦
    (Heading.named? t p.1).bind fun h ↦ if h.2 = [] then none else some (p.2, h)

end Outline

/-- Where an entity stands: its line, its level and its name. -/
def Entity.place (e : Entity) : Nat × Nat × Text := (e.line, e.level, e.name)

namespace Outline

theorem place_entity? (m : Markers) (t : StatusTable) (s : Section) :
    (s.entity? m t).map Entity.place =
      if (Heading.ofText t s.text).name = [] then none
      else some (s.line, s.level, (Heading.ofText t s.text).name) := by
  unfold Section.entity?
  simp only [List.isEmpty_iff]
  split <;> rfl

/-- The entities of an outline are its named headings. -/
theorem place_entities (m : Markers) (t : StatusTable) (body : Text) :
    (entities m t body).map Entity.place = headings t body := by
  rw [entities_eq]
  unfold entitiesOf headings Section.cut
  rw [List.map_filterMap]
  simp only [place_entity?]
  generalize Text.lines body = ls
  generalize 1 = n
  induction ls generalizing n with
  | nil => rfl
  | cons l r ih =>
    rw [List.zipIdx_cons, List.filterMap_cons, Heading.named?_eq, Section.cutFrom, ← ih (n + 1)]
    cases Heading.split? (Text.trim l) with
    | none => rfl
    | some p => rfl

/-- The names of an outline nest as its named headings do. -/
theorem map_name_trees (m : Markers) (t : StatusTable) (body : Text) :
    (trees m t body).map (Tree.map Entity.name) = nest ((headings t body).map (·.2)) := by
  unfold trees
  rw [← nest_map, List.map_map, ← place_entities m, List.map_map]
  rfl

/-- An outline holds its named headings in document order, each once.  The parent of a heading is
the nearest named heading before it that is less deep, and a heading without one is a root.
Headings without a name have no part in this: bodies with the same names at the same levels have
the same trees of names. -/
theorem parents_trees (m : Markers) (t : StatusTable) (body : Text) :
    (Tree.preorderAll (trees m t body)).map Entity.place = headings t body ∧
      (∀ a e b, Tree.preorderAll (trees m t body) = a ++ e :: b →
        (Tree.parentsAll none (trees m t body))[a.length]? =
          some (a.reverse.find? fun e' ↦ e'.level < e.level, e)) ∧
      ∀ m' t' body', (headings t' body').map (·.2) = (headings t body).map (·.2) →
        (trees m' t' body').map (Tree.map Entity.name) =
          (trees m t body).map (Tree.map Entity.name) := by
  refine ⟨?_, fun a e b h ↦ ?_, fun m' t' body' h ↦ ?_⟩
  · rw [preorderAll_trees, place_entities]
  · rw [preorderAll_trees] at h
    have hparents : Tree.parentsAll none (trees m t body) =
        withNearest [] ((entities m t body).map fun e ↦ (e.level, e)) := parentsAll_nest _
    rw [hparents, h, List.map_append, List.map_cons, withNearest_append, withNearest,
      List.getElem?_append_right (by rw [length_withNearest, List.length_map]), length_withNearest,
      List.length_map, Nat.sub_self, List.getElem?_cons_zero]
    unfold nearest?
    rw [List.append_nil, ← List.map_reverse, List.find?_map, Option.map_map]
    simp [Function.comp_def]
  · rw [map_name_trees, map_name_trees, h]

end Outline

end Markbook
