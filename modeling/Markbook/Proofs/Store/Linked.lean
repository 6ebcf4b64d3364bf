import Markbook.Proofs.Outline
import Markbook.Proofs.Store.Indexed

/-!
# Merging and Linking

Loading walks the trees of a document, and merges and links on the way.  A link adds children to a
record that is there already, and merging looks at no children, so a link may wait until the
entities behind it are merged (`Store.mergeEntity_linkAll`).  A walk is therefore the same as
merging all entities in document order and linking them afterwards (`Store.mergeTrees_eq`).
-/

namespace Markbook

namespace Record

variable {e : Entity} {path : Path} {time : Int}

theorem merge_with_children (r : Record) (l : List Text) :
    merge e path time { r with children := l } = { merge e path time r with children := l } := by
  have hseen (r : Record) :
      seen path { r with children := l } = { r.seen path with children := l } := by
    unfold seen
    dsimp only
    split <;> rfl
  have hfield (r : Record) (k v : Text) : mergeField path time { r with children := l } k v =
      { mergeField path time r k v with children := l } := by
    unfold mergeField accepts
    dsimp only
    split <;> rfl
  have hfold (E : List (Text × Text)) (r : Record) :
      E.foldl (fun r f ↦ mergeField path time r f.1 f.2) { r with children := l } =
        { E.foldl (fun r f ↦ mergeField path time r f.1 f.2) r with children := l } := by
    induction E generalizing r with
    | nil => rfl
    | cons f E ih => rw [List.foldl_cons, List.foldl_cons, hfield, ih]
  have hstatus (r : Record) : mergeStatus e path time { r with children := l } =
      { r.mergeStatus e path time with children := l } := by
    unfold mergeStatus accepts
    dsimp only
    split
    · split <;> rfl
    · rfl
  have hprimary (r : Record) : choosePrimary e path { r with children := l } =
      { r.choosePrimary e path with children := l } := by
    unfold choosePrimary primaryCount
    dsimp only
    split <;> rfl
  unfold merge
  simp only [hseen, hfold, hstatus, hprimary]

theorem merge_link (r : Record) (l : List Text) :
    merge e path time (r.link l) = (merge e path time r).link l := by
  have hchildren : (r.link l).children = ((merge e path time r).link l).children := by
    unfold link
    simp only [name_merge, children_merge]
  calc merge e path time { r with children := (r.link l).children }
      = { merge e path time r with children := (r.link l).children } := merge_with_children r _
    _ = (merge e path time r).link l := by
      rw [hchildren]
      rfl

end Record

namespace Store

variable {path : Path} {time : Int} {s : Store} {n : Text}

/-! ## Links -/

mutual

/-- Each entity of a tree with its children, those below before those above. -/
def links : Tree Entity → List (Text × List Text)
  | .node e l => linksAll l ++ [(e.name, l.map fun t ↦ t.value.name)]

def linksAll : List (Tree Entity) → List (Text × List Text)
  | [] => []
  | t :: r => links t ++ linksAll r

end

mutual

/-- Only entities of a tree are linked. -/
theorem exists_of_mem_links : ∀ (t : Tree Entity) (p : Text × List Text), p ∈ links t →
    ∀ n ∈ p.1 :: p.2, ∃ e ∈ t.preorder, e.name = n
  | .node e l, p, hp, n, hn => by
    rw [links, List.mem_append, List.mem_singleton] at hp
    rw [Tree.preorder]
    rcases hp with hp | rfl
    · obtain ⟨e', he', hname⟩ := exists_of_mem_linksAll l p hp n hn
      exact ⟨e', List.mem_cons_of_mem _ he', hname⟩
    · rcases List.mem_cons.1 hn with rfl | hn
      · exact ⟨e, List.mem_cons_self, rfl⟩
      · obtain ⟨t, ht, rfl⟩ := List.mem_map.1 hn
        exact ⟨t.value, List.mem_cons_of_mem _ (Tree.value_mem_preorderAll ht), rfl⟩

theorem exists_of_mem_linksAll : ∀ (l : List (Tree Entity)) (p : Text × List Text), p ∈ linksAll l →
    ∀ n ∈ p.1 :: p.2, ∃ e ∈ Tree.preorderAll l, e.name = n
  | [], _, hp, _, _ => by simp [linksAll] at hp
  | t :: r, p, hp, n, hn => by
    rw [linksAll, List.mem_append] at hp
    rw [Tree.preorderAll]
    rcases hp with hp | hp
    · obtain ⟨e, he, hname⟩ := exists_of_mem_links t p hp n hn
      exact ⟨e, List.mem_append_left _ he, hname⟩
    · obtain ⟨e, he, hname⟩ := exists_of_mem_linksAll r p hp n hn
      exact ⟨e, List.mem_append_right _ he, hname⟩

end

/-- Adds the children of a list of links. -/
def linkAll (s : Store) (l : List (Text × List Text)) : Store :=
  l.foldl (fun s p ↦ s.modify p.1 (Record.link p.2)) s

theorem linkAll_append (s : Store) (a b : List (Text × List Text)) :
    s.linkAll (a ++ b) = (s.linkAll a).linkAll b :=
  List.foldl_append

/-! ## A link that waits -/

theorem modify_modify {f g : Record → Record} (h : ∀ r, g (f r) = f (g r)) (n n' : Text) :
    (s.modify n f).modify n' g = (s.modify n' g).modify n f := by
  unfold modify
  congr 1
  apply TextMap.ext_get?
  intro k
  simp only [TextMap.get?_map, Option.map_map]
  congr 1
  funext r
  simp only [Function.comp_apply]
  split
  · split
    · exact h r
    · rfl
  · rfl

theorem register_modify {f : Record → Record} {r : Record} (h : r.name ≠ n) :
    (s.modify n f).register r = (s.register r).modify n f := by
  have hentities : (s.entities.map fun n' r ↦ if n' = n then f r else r).insert r.name r =
      (s.entities.insert r.name r).map fun n' r ↦ if n' = n then f r else r := by
    apply TextMap.ext_get?
    intro k
    rw [TextMap.get?_insert, TextMap.get?_map, TextMap.get?_map, TextMap.get?_insert]
    by_cases hk : k = r.name
    · rw [if_pos hk, if_pos hk, Option.map_some, hk, if_neg h]
    · rw [if_neg hk, if_neg hk]
  have hhas : (s.modify n f).entities.has r.name = s.entities.has r.name := by
    change ((s.modify n f).get? r.name).isSome = (s.get? r.name).isSome
    rw [get?_modify, Option.isSome_map]
  unfold register
  rw [hhas]
  unfold modify
  rw [hentities]

theorem mergeEntity_modify_link (h : (s.get? n).isSome) (l : List Text) (e : Entity) :
    mergeEntity path time (s.modify n (Record.link l)) e =
      (mergeEntity path time s e).modify n (Record.link l) := by
  cases hold : s.get? e.name with
  | none =>
    have hne : e.name ≠ n := by
      rintro rfl
      rw [hold] at h
      simp at h
    have hnew : (s.modify n (Record.link l)).get? e.name = none := by
      rw [get?_modify, hold, Option.map_none]
    rw [mergeEntity_of_get? hold, mergeEntity_of_get? hnew]
    exact register_modify hne
  | some r =>
    have hsome : (s.get? e.name).isSome := Option.isSome_of_eq_some hold
    have hstill : ((s.modify n (Record.link l)).get? e.name).isSome := by
      rw [get?_modify, Option.isSome_map]
      exact hsome
    rw [mergeEntity_of_isSome hsome, mergeEntity_of_isSome hstill]
    exact modify_modify (fun r ↦ Record.merge_link r l) n e.name

theorem mergeEntity_linkAll {l : List (Text × List Text)} (h : ∀ p ∈ l, (s.get? p.1).isSome)
    (e : Entity) :
    mergeEntity path time (s.linkAll l) e = (mergeEntity path time s e).linkAll l := by
  induction l generalizing s with
  | nil => rfl
  | cons p l ih =>
    rw [List.forall_mem_cons] at h
    have hmodify : ∀ q ∈ l, ((s.modify p.1 (Record.link p.2)).get? q.1).isSome := by
      intro q hq
      rw [get?_modify, Option.isSome_map]
      exact h.2 q hq
    calc mergeEntity path time ((s.modify p.1 (Record.link p.2)).linkAll l) e
        = (mergeEntity path time (s.modify p.1 (Record.link p.2)) e).linkAll l := ih hmodify
      _ = ((mergeEntity path time s e).modify p.1 (Record.link p.2)).linkAll l := by
        rw [mergeEntity_modify_link h.1]

theorem isSome_get?_mergeEntity {e : Entity} :
    ((mergeEntity path time s e).get? n).isSome ↔ (s.get? n).isSome ∨ e.name = n := by
  rw [get?_mergeEntity]
  split
  · next h => simp [h]
  · next h => simp [Ne.symm h]

theorem isSome_get?_foldl {E : List Entity} :
    ((E.foldl (mergeEntity path time) s).get? n).isSome ↔
      (s.get? n).isSome ∨ ∃ e ∈ E, e.name = n := by
  induction E generalizing s with
  | nil => simp
  | cons e E ih =>
    rw [List.foldl_cons, ih, isSome_get?_mergeEntity, List.exists_mem_cons_iff, or_assoc]

theorem foldl_linkAll {l : List (Text × List Text)} (h : ∀ p ∈ l, (s.get? p.1).isSome)
    (E : List Entity) :
    E.foldl (mergeEntity path time) (s.linkAll l) =
      (E.foldl (mergeEntity path time) s).linkAll l := by
  induction E generalizing s with
  | nil => rfl
  | cons e E ih =>
    rw [List.foldl_cons, List.foldl_cons, mergeEntity_linkAll h]
    exact ih fun p hp ↦ isSome_get?_mergeEntity.2 (.inl (h p hp))

/-! ## Whole trees -/

mutual

theorem mergeTree_eq : ∀ (t : Tree Entity) (s : Store),
    mergeTree path time s t = (t.preorder.foldl (mergeEntity path time) s).linkAll (links t)
  | .node e l, s => by
    rw [mergeTree, mergeTrees_eq l, Tree.preorder, List.foldl_cons, links, linkAll_append]
    rfl

/-- Walking trees merges all their entities, and links them afterwards. -/
theorem mergeTrees_eq : ∀ (l : List (Tree Entity)) (s : Store), mergeTrees path time s l =
    ((Tree.preorderAll l).foldl (mergeEntity path time) s).linkAll (linksAll l)
  | [], s => rfl
  | t :: r, s => by
    have hmerged : ∀ p ∈ links t,
        ((t.preorder.foldl (mergeEntity path time) s).get? p.1).isSome := fun p hp ↦
      isSome_get?_foldl.2 (.inr (exists_of_mem_links t p hp p.1 List.mem_cons_self))
    rw [mergeTrees, mergeTrees_eq r, mergeTree_eq t, foldl_linkAll hmerged, Tree.preorderAll,
      List.foldl_append, linksAll, linkAll_append]

end

end Store

end Markbook
