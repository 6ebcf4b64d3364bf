import Markbook.Proofs.Parents
import Markbook.Proofs.Store.Order
import Markbook.Proofs.Store.Sound

/-!
# The Merged Hierarchy

The children of an entity are the names right below it in any of the loaded outlines, itself left
out; so the hierarchy of a store is the union of those of its texts (`Store.hierarchy_loads`).
Names stand in the order of their first occurrence, and the roots are those that no text has below
another name.
-/

namespace Markbook

/-! ## Headings right below others -/

/-- A name right above another one, with that name. -/
def Tree.edgesOf (l : List (Option Entity × Entity)) : List (Text × Text) :=
  l.filterMap fun p ↦ p.1.map fun e ↦ (e.name, p.2.name)

/-- The names in a text with the names right below them, in an outline. -/
def Note.edges (t : StatusTable) (d : Note) : List (Text × Text) :=
  match Document.read? d.path d.content with
  | some doc =>
    if doc.markers.effectiveLayout = .outline then
      Tree.edgesOf (Tree.parentsAll none
        (Outline.trees doc.markers (doc.markers.statusTable?.getD t) doc.body))
    else []
  | none => []

namespace Store

variable {t : StatusTable} {s : Store} {n c : Text} {path : Path} {time : Int} {E : List Entity}

theorem mem_edgesOf_cons {p : Option Entity × Entity} {l : List (Option Entity × Entity)} :
    (n, c) ∈ Tree.edgesOf (p :: l) ↔
      (∃ e, p.1 = some e ∧ e.name = n ∧ p.2.name = c) ∨ (n, c) ∈ Tree.edgesOf l := by
  obtain ⟨up, e'⟩ := p
  unfold Tree.edgesOf
  cases up with
  | none => simp
  | some e => simp [eq_comm]

theorem mem_edgesOf_append {a b : List (Option Entity × Entity)} :
    (n, c) ∈ Tree.edgesOf (a ++ b) ↔ (n, c) ∈ Tree.edgesOf a ∨ (n, c) ∈ Tree.edgesOf b := by
  unfold Tree.edgesOf
  rw [List.filterMap_append, List.mem_append]

mutual

/-- The edges of a tree are that to its top and those of its links. -/
theorem mem_edgesOf_parents : ∀ (up : Option Entity) (t : Tree Entity),
    (n, c) ∈ Tree.edgesOf (t.parents up) ↔
      (∃ e, up = some e ∧ e.name = n ∧ t.value.name = c) ∨ ∃ q ∈ links t, q.1 = n ∧ c ∈ q.2
  | up, .node a l => by
    have hown : (∃ e, some a = some e ∧ e.name = n ∧ ∃ t ∈ l, t.value.name = c) ↔
        a.name = n ∧ c ∈ l.map fun t ↦ t.value.name := by
      simp
    have hlinks : (∃ q ∈ links (.node a l), q.1 = n ∧ c ∈ q.2) ↔
        (∃ q ∈ linksAll l, q.1 = n ∧ c ∈ q.2) ∨ (a.name = n ∧ c ∈ l.map fun t ↦ t.value.name) := by
      simp only [links, List.mem_append, List.mem_singleton, or_and_right, exists_or,
        exists_eq_left]
    rw [Tree.parents, mem_edgesOf_cons, mem_edgesOf_parentsAll (some a) l, hown, hlinks,
      or_comm (a := a.name = n ∧ _)]
    rfl

theorem mem_edgesOf_parentsAll : ∀ (up : Option Entity) (l : List (Tree Entity)),
    (n, c) ∈ Tree.edgesOf (Tree.parentsAll up l) ↔
      (∃ e, up = some e ∧ e.name = n ∧ ∃ t ∈ l, t.value.name = c) ∨
        ∃ q ∈ linksAll l, q.1 = n ∧ c ∈ q.2
  | up, [] => by simp [Tree.edgesOf, Tree.parentsAll, linksAll]
  | up, t :: r => by
    have htop : (∃ e, up = some e ∧ e.name = n ∧ ∃ u ∈ t :: r, u.value.name = c) ↔
        (∃ e, up = some e ∧ e.name = n ∧ t.value.name = c) ∨
          ∃ e, up = some e ∧ e.name = n ∧ ∃ u ∈ r, u.value.name = c := by
      simp only [List.exists_mem_cons_iff, and_or_left, exists_or]
    have hlinks : (∃ q ∈ linksAll (t :: r), q.1 = n ∧ c ∈ q.2) ↔
        (∃ q ∈ links t, q.1 = n ∧ c ∈ q.2) ∨ ∃ q ∈ linksAll r, q.1 = n ∧ c ∈ q.2 := by
      simp only [linksAll, List.mem_append, or_and_right, exists_or]
    rw [Tree.parentsAll, mem_edgesOf_append, mem_edgesOf_parents up t, mem_edgesOf_parentsAll up r,
      htop, hlinks, or_or_or_comm]

end

/-- The links of a document are the edges of its text. -/
theorem mem_edges_iff {d : Note} {doc : Document}
    (h : Document.read? d.path d.content = some doc) :
    (n, c) ∈ d.edges t ↔ ∃ q ∈ linksAll (forest t doc), q.1 = n ∧ c ∈ q.2 := by
  unfold Note.edges
  simp only [h]
  by_cases hlayout : doc.markers.effectiveLayout = .outline
  · have hforest : forest t doc =
        Outline.trees doc.markers (doc.markers.statusTable?.getD t) doc.body := by
      unfold forest
      simp only [hlayout]
    rw [if_pos hlayout, mem_edgesOf_parentsAll, hforest]
    simp
  · -- A file of one entity is a tree without anything below its top.
    have hforest : ∃ o : Option Entity, forest t doc = (o.map fun e ↦ Tree.node e []).toList := by
      unfold forest
      cases hl : doc.markers.effectiveLayout with
      | outline => exact absurd hl hlayout
      | file => exact ⟨_, rfl⟩
      | folder => exact ⟨_, rfl⟩
    obtain ⟨o, ho⟩ := hforest
    rw [if_neg hlayout, ho]
    cases o <;> simp [linksAll, links]

/-! ## Names -/

/-- Merging keeps the names in the order of their first occurrence. -/
theorem names_foldl_eraseDups [s.IsIndexed] {L : List Text} (h : s.names = L.eraseDups) :
    (E.foldl (mergeEntity path time) s).names = (L ++ E.map (·.name)).eraseDups := by
  induction E generalizing s L with
  | nil => rw [List.map_nil, List.append_nil]; exact h
  | cons e r ih =>
    have hone : (mergeEntity path time s e).names = (L ++ [e.name]).eraseDups := by
      rw [names_mergeEntity, h, List.eraseDups_append]
      by_cases hmem : e.name ∈ L
      · simp [hmem, List.removeAll]
      · simp [hmem, List.removeAll, List.eraseDups_cons]
    rw [List.foldl_cons, ih hone, List.map_cons, List.append_assoc, List.singleton_append]

theorem names_loadNote_eraseDups [s.IsIndexed] {L : List Text} (h : s.names = L.eraseDups)
    (d : Note) :
    (s.loadNote d).names = (L ++ (d.entities s.table).map (·.name)).eraseDups := by
  unfold loadNote Note.entities
  cases Document.read? d.path d.content with
  | none => simpa using h
  | some doc => exact (names_load s doc d.time).trans (names_foldl_eraseDups h)

theorem names_loads (t : StatusTable) (l : List Note) :
    (loads t l).names = (l.flatMap fun d ↦ (d.entities t).map (·.name)).eraseDups := by
  have hfold (s : Store) [s.IsIndexed] (L : List Text) (h : s.names = L.eraseDups) :
      (l.foldl loadNote s).names =
        (L ++ l.flatMap fun d ↦ (d.entities s.table).map (·.name)).eraseDups := by
    induction l generalizing s L with
    | nil => simpa using h
    | cons d l ih =>
      rw [List.foldl_cons, ih _ _ (names_loadNote_eraseDups h d), table_loadNote, List.flatMap_cons,
        List.append_assoc]
  exact hfold (empty t) [] rfl

/-! ## Children -/

/-- The names of the children of an entity, none when it is not there. -/
def childNames (s : Store) (n : Text) : List Text := ((s.get? n).map (·.children)).getD []

theorem childNames_mergeEntity (e : Entity) :
    (mergeEntity path time s e).childNames n = s.childNames n := by
  unfold childNames
  rw [get?_mergeEntity]
  split
  · cases s.get? n with
    | none => rfl
    | some r => exact Record.children_merge
  · rfl

theorem childNames_foldl : (E.foldl (mergeEntity path time) s).childNames n = s.childNames n := by
  induction E generalizing s with
  | nil => rfl
  | cons e r ih => rw [List.foldl_cons, ih, childNames_mergeEntity]

/-- Linking adds the children of the links of the name, the name itself left out. -/
theorem mem_linked {v : View} {l : List (Text × List Text)} :
    c ∈ (linked l n v).children ↔
      c ∈ v.children ∨ (c ≠ v.name ∧ ∃ q ∈ l, q.1 = n ∧ c ∈ q.2) := by
  have hlink (v : View) (cs : List Text) :
      c ∈ (v.link cs).children ↔ c ∈ v.children ∨ (c ≠ v.name ∧ c ∈ cs) := by
    unfold View.link
    simp only
    generalize v.children = l
    induction cs generalizing l with
    | nil => simp
    | cons c' cs ih =>
      rw [List.foldl_cons, ih]
      split <;> grind
  unfold linked
  induction l generalizing v with
  | nil => simp
  | cons q l ih =>
    have hname : (if n = q.1 then v.link q.2 else v).name = v.name := by split <;> rfl
    refine (ih (v := if n = q.1 then v.link q.2 else v)).trans ?_
    rw [hname, List.exists_mem_cons_iff]
    by_cases hn : n = q.1
    · rw [if_pos hn, hlink]
      grind
    · rw [if_neg hn]
      grind

/-- A document adds the names right below a name in its trees, the name itself left out. -/
theorem mem_childNames_load (s : Store) [s.IsIndexed] (doc : Document) (time : Int) :
    c ∈ (s.load doc time).childNames n ↔
      c ∈ s.childNames n ∨
        (c ≠ n ∧ ∃ q ∈ linksAll (forest s.table doc), q.1 = n ∧ c ∈ q.2) := by
  have hkept : ((s.taken doc).foldl (mergeEntity doc.path time) s).childNames n = s.childNames n :=
    childNames_foldl
  rw [← hkept]
  unfold childNames
  rw [get?_load]
  cases hr : ((s.taken doc).foldl (mergeEntity doc.path time) s).get? n with
  | none =>
    have hnot : n ∉ ((s.taken doc).foldl (mergeEntity doc.path time) s).names := by
      rw [← get?_isSome_iff, hr]
      simp
    have hlinks : ¬ ∃ q ∈ linksAll (forest s.table doc), q.1 = n ∧ c ∈ q.2 := by
      rintro ⟨q, hq, rfl, -⟩
      obtain ⟨e, he, hname⟩ := exists_of_mem_linksAll _ q hq q.1 List.mem_cons_self
      exact hnot (mem_names_foldl.2 (.inr ⟨e, he, hname⟩))
    simp [hlinks]
  | some r =>
    have hname : r.view.name = n := name_of_get? hr
    simp only [Option.map_some, Option.getD_some]
    rw [mem_linked, hname]
    rfl

theorem mem_childNames_loadNote (s : Store) [s.IsIndexed] (d : Note) :
    c ∈ (s.loadNote d).childNames n ↔
      c ∈ s.childNames n ∨ (c ≠ n ∧ (n, c) ∈ d.edges s.table) := by
  unfold loadNote
  cases h : Document.read? d.path d.content with
  | none =>
    have hedges : d.edges s.table = [] := by
      unfold Note.edges
      simp only [h]
    simp [hedges]
  | some doc =>
    simp only
    rw [mem_childNames_load, mem_edges_iff h]

theorem mem_childNames_loads {l : List Note} :
    c ∈ (loads t l).childNames n ↔ c ≠ n ∧ ∃ d ∈ l, (n, c) ∈ d.edges t := by
  have hfold (s : Store) [s.IsIndexed] : c ∈ (l.foldl loadNote s).childNames n ↔
      c ∈ s.childNames n ∨ (c ≠ n ∧ ∃ d ∈ l, (n, c) ∈ d.edges s.table) := by
    induction l generalizing s with
    | nil => simp
    | cons d l ih =>
      rw [List.foldl_cons, ih, mem_childNames_loadNote, table_loadNote, List.exists_mem_cons_iff,
        or_assoc, and_or_left]
  have hempty : ¬ c ∈ (empty t).childNames n := List.not_mem_nil
  exact (hfold (empty t)).trans (or_iff_right hempty)

/-! ## The hierarchy -/

theorem isSound_loads (t : StatusTable) (l : List Note) : (loads t l).IsSound := by
  have hfold (s : Store) (h : s.IsSound) : (l.foldl loadNote s).IsSound := by
    induction l generalizing s with
    | nil => exact h
    | cons d l ih => exact ih _ (isSound_change h (.load d))
  exact hfold (empty t) (isSound_empty t)

/-- In a sound store no child is left out when the names of the children are looked up. -/
theorem map_name_childrenOf (h : s.IsSound) (n : Text) :
    (s.childrenOf n).map (·.name) = s.childNames n := by
  have hindexed := h.toIsIndexed
  unfold childrenOf childNames
  rw [List.map_filterMap]
  cases hr : s.get? n with
  | none => rfl
  | some r =>
    simp only [Option.map_some, Option.getD_some]
    have hfound : ∀ c ∈ r.children, (s.get? c).map (·.name) = some c := by
      intro c hc
      have hknown : c ∈ s.names := (h.records_sound r (mem_of_get? hr)).children_known c hc
      obtain ⟨r', hr', hname⟩ := exists_of_mem_names hknown
      rw [hr', Option.map_some, hname]
    rw [List.filterMap_congr hfound, List.filterMap_some]

theorem exists_children_iff {p : Text} :
    (∃ r, s.get? p = some r ∧ c ∈ r.children) ↔ c ∈ s.childNames p := by
  unfold childNames
  cases s.get? p <;> simp

theorem isNested_iff : s.isNested n = true ↔ ∃ p, n ∈ s.childNames p := by
  unfold isNested
  rw [List.any_eq_true]
  constructor
  · rintro ⟨⟨p, r⟩, hr, hn⟩
    exact ⟨p, exists_children_iff.1 ⟨r, TextMap.mem_entries_iff.1 hr, by simpa using hn⟩⟩
  · rintro ⟨p, hp⟩
    obtain ⟨r, hr, hn⟩ := exists_children_iff.2 hp
    exact ⟨(p, r), TextMap.mem_entries_iff.2 hr, by simpa using hn⟩

/-- The hierarchy of a store is that of the texts it was loaded from.  Its names stand in the order
of their first occurrence.  The children of an entity are the other names that some loaded outline
has right below it, and the roots are the names that no loaded outline has right below another
one. -/
theorem hierarchy_loads (t : StatusTable) (l : List Note) :
    (loads t l).names = (l.flatMap fun d ↦ (d.entities t).map (·.name)).eraseDups ∧
      (∀ p c, c ∈ ((loads t l).childrenOf p).map (·.name) ↔
        c ≠ p ∧ ∃ d ∈ l, (p, c) ∈ d.edges t) ∧
      (loads t l).roots.map (·.name) =
        (loads t l).names.filter fun n ↦
          !(l.any fun d ↦ (d.edges t).any fun q ↦ q.2 = n && q.1 ≠ n) := by
  have hsound := isSound_loads t l
  refine ⟨names_loads t l, fun p c ↦ ?_, ?_⟩
  · rw [map_name_childrenOf hsound, mem_childNames_loads]
  · have hnested (n : Text) : (loads t l).isNested n =
        l.any fun d ↦ (d.edges t).any fun q ↦ q.2 = n && q.1 ≠ n := by
      rw [Bool.eq_iff_iff, isNested_iff]
      simp only [mem_childNames_loads, List.any_eq_true, Bool.and_eq_true, decide_eq_true_eq]
      constructor
      · rintro ⟨p, hne, d, hd, hedge⟩
        exact ⟨d, hd, (p, n), hedge, rfl, hne.symm⟩
      · rintro ⟨d, hd, ⟨p, c⟩, hedge, rfl, hne⟩
        exact ⟨p, hne.symm, d, hd, hedge⟩
    unfold roots names
    rw [List.filter_map]
    congr 1
    exact List.filter_congr fun r _ ↦ by rw [hnested]; rfl

end Store

end Markbook
