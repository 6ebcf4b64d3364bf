import Markbook.Proofs.Store.Linked
import Mathlib.Data.List.Perm.Subperm

/-!
# What Loading Leaves in a Store

A load merges the entities of a document in their order and then links parents to children.  When
all entities of a name say the same, the record of the name says it too (`Store.view_foldl`); the
entity of a name that occurs once becomes the record (`Store.get?_foldl_of_single`).
-/

namespace Markbook.Store

variable {path : Path} {time : Int} {s : Store} {n : Text}

/-! ## Merging entities one after another -/

variable {E : List Entity}

theorem forall_mem_mergeEntity [s.IsIndexed] {P : Record → Prop} {e : Entity}
    (hs : ∀ r ∈ s.records, P r) (hnew : P (Record.ofEntity e path time))
    (hmerge : ∀ r, P r → r.name = e.name → P (Record.merge e path time r)) :
    ∀ r ∈ (mergeEntity path time s e).records, P r := by
  intro r hr
  obtain ⟨n, -, hget⟩ := mem_records_iff.1 hr
  rw [get?_mergeEntity] at hget
  split at hget
  · next hn =>
    rw [← Option.some.inj hget]
    cases hold : s.get? n with
    | none => exact hnew
    | some r' => exact hmerge r' (hs r' (mem_of_get? hold)) ((name_of_get? hold).trans hn)
  · exact hs r (mem_of_get? hget)

/-- A property of records that new records have and merging keeps. -/
theorem foldl_mergeEntity_induct [s.IsIndexed] {P : Record → Prop} (hs : ∀ r ∈ s.records, P r)
    (hnew : ∀ e ∈ E, P (Record.ofEntity e path time))
    (hmerge : ∀ e ∈ E, ∀ r, P r → r.name = e.name → P (Record.merge e path time r)) :
    ∀ r ∈ (E.foldl (mergeEntity path time) s).records, P r := by
  induction E generalizing s with
  | nil => exact hs
  | cons e l ih =>
    rw [List.forall_mem_cons] at hnew hmerge
    exact ih (forall_mem_mergeEntity hs hnew.1 hmerge.1) hnew.2 hmerge.2

/-- Merging gives no record children. -/
theorem children_foldl (path : Path) (time : Int) (E : List Entity) (t : StatusTable) :
    ∀ r ∈ (E.foldl (mergeEntity path time) (empty t)).records, r.children = [] := by
  refine foldl_mergeEntity_induct (by simp) (fun e _ ↦ rfl) fun e _ r hr _ ↦ ?_
  rw [Record.children_merge, hr]

theorem get?_foldl_of_not_mem (h : ∀ e ∈ E, e.name ≠ n) :
    (E.foldl (mergeEntity path time) s).get? n = s.get? n := by
  induction E generalizing s with
  | nil => rfl
  | cons e l ih =>
    rw [List.forall_mem_cons] at h
    rw [List.foldl_cons, ih h.2, get?_mergeEntity, if_neg h.1.symm]

/-- The entity of a name that occurs once becomes the record of the name. -/
theorem get?_foldl_of_single {e : Entity} (h : E.filter (fun e ↦ e.name = n) = [e])
    (hs : s.get? n = none) :
    (E.foldl (mergeEntity path time) s).get? n = some (Record.ofEntity e path time) := by
  obtain ⟨a, b, rfl, ha, hname, hb⟩ := List.filter_eq_cons_iff.1 h
  rw [List.filter_eq_nil_iff] at hb
  rw [List.foldl_append, List.foldl_cons, get?_foldl_of_not_mem (by simpa using hb),
    get?_mergeEntity, if_pos (of_decide_eq_true hname).symm,
    get?_foldl_of_not_mem (by simpa using ha), hs]
  rfl

/-- When all entities of a name say the same, so does the record of the name. -/
theorem view_foldl {v : View} (h : ∀ e ∈ E, e.name = v.name → e.view = v)
    (hs : ∀ r, s.get? v.name = some r → r.view = v) :
    ∀ r, (E.foldl (mergeEntity path time) s).get? v.name = some r → r.view = v := by
  induction E generalizing s with
  | nil => exact hs
  | cons e l ih =>
    rw [List.forall_mem_cons] at h
    refine ih h.2 fun r hr ↦ ?_
    rw [get?_mergeEntity] at hr
    split at hr
    · next hname =>
      have hview := h.1 hname.symm
      rw [Option.some.injEq] at hr
      cases hold : s.get? v.name with
      | none =>
        rw [hold] at hr
        rw [← hr, ← hview]
        rfl
      | some r' =>
        rw [hold] at hr
        have hr' : r'.view = e.view := by rw [hs r' hold, hview]
        rw [← hr, ← hview]
        exact Record.view_merge_of_view_eq hr'
    · exact hs r hr

theorem mem_names_foldl [s.IsIndexed] :
    n ∈ (E.foldl (mergeEntity path time) s).names ↔ n ∈ s.names ∨ ∃ e ∈ E, e.name = n := by
  rw [← get?_isSome_iff, ← get?_isSome_iff, isSome_get?_foldl]

theorem names_foldl_congr {E' : List Entity} {s' : Store} [s.IsIndexed] [s'.IsIndexed]
    {path' : Path} {time' : Int}
    (hE : E.map (·.name) = E'.map (·.name)) (hs : s.names = s'.names) :
    (E.foldl (mergeEntity path time) s).names = (E'.foldl (mergeEntity path' time') s').names := by
  induction E generalizing E' s s' with
  | nil =>
    rw [List.map_nil, eq_comm, List.map_eq_nil_iff] at hE
    rw [hE]
    exact hs
  | cons e l ih =>
    rw [List.map_cons, eq_comm, List.map_eq_cons_iff] at hE
    obtain ⟨e', l', rfl, hname, hl⟩ := hE
    rw [List.foldl_cons, List.foldl_cons]
    refine ih hl.symm ?_
    rw [names_mergeEntity, names_mergeEntity, hname, hs]

/-- Merging adds some of the names in their order. -/
theorem exists_names_foldl (path : Path) (time : Int) (E : List Entity) (s : Store) [s.IsIndexed] :
    ∃ l, l.Sublist (E.map (·.name)) ∧ (E.foldl (mergeEntity path time) s).names = s.names ++ l := by
  induction E generalizing s with
  | nil => exact ⟨[], List.Sublist.slnil, by simp⟩
  | cons e r ih =>
    obtain ⟨l, hl, heq⟩ := ih (mergeEntity path time s e)
    rw [List.foldl_cons, heq, names_mergeEntity]
    split
    · exact ⟨l, hl.cons _, rfl⟩
    · exact ⟨e.name :: l, hl.cons_cons _, by simp⟩

/-! ## Links -/

mutual

/-- Each name of a tree with the names directly below it, those below before those above. -/
def nameLinks : Tree Text → List (Text × List Text)
  | .node n l => nameLinksAll l ++ [(n, l.map Tree.value)]

def nameLinksAll : List (Tree Text) → List (Text × List Text)
  | [] => []
  | t :: r => nameLinks t ++ nameLinksAll r

end

mutual

theorem links_eq : ∀ t : Tree Entity, links t = nameLinks (t.map Entity.name)
  | .node e l => by
    have hbelow : (l.map (Tree.map Entity.name)).map Tree.value = l.map fun t ↦ t.value.name := by
      rw [List.map_map]
      congr 1
      funext t
      exact Tree.value_map _ t
    rw [links, Tree.map_node, nameLinks, hbelow, linksAll_eq l]

theorem linksAll_eq : ∀ l : List (Tree Entity),
    linksAll l = nameLinksAll (l.map (Tree.map Entity.name))
  | [] => rfl
  | t :: r => by
    rw [linksAll, List.map_cons, nameLinksAll, links_eq t, linksAll_eq r]

end

/-- Links come from the names of entities and their levels. -/
theorem linksAll_nest (E : List Entity) :
    linksAll (Outline.nest (E.map fun e ↦ (e.level, e))) =
      nameLinksAll (Outline.nest (E.map fun e ↦ (e.level, e.name))) := by
  have hmap := Outline.nest_map Entity.name (E.map fun e ↦ (e.level, e))
  rw [List.map_map] at hmap
  rw [linksAll_eq, ← hmap]
  rfl

/-- What linking does to what the record of a name says. -/
def linked (l : List (Text × List Text)) (n : Text) (v : View) : View :=
  l.foldl (fun v p ↦ if n = p.1 then v.link p.2 else v) v

theorem get?_foldl_link (l : List (Text × List Text)) :
    ((l.foldl (fun s p ↦ s.modify p.1 (Record.link p.2)) s).get? n) =
      (s.get? n).map fun r ↦ l.foldl (fun r p ↦ if n = p.1 then r.link p.2 else r) r := by
  induction l generalizing s with
  | nil => simp
  | cons p l ih =>
    rw [List.foldl_cons, ih, get?_modify, Option.map_map]
    rfl

/-- Linking changes the children of a record only. -/
theorem foldl_link_eq (l : List (Text × List Text)) (r : Record) :
    l.foldl (fun r p ↦ if n = p.1 then r.link p.2 else r) r =
      { r with children := (linked l n r.view).children } := by
  unfold linked
  induction l generalizing r with
  | nil => rfl
  | cons p l ih =>
    rw [List.foldl_cons, List.foldl_cons, ih]
    split <;> rfl

theorem get?_linkAll (l : List (Text × List Text)) :
    (s.linkAll l).get? n =
      (s.get? n).map fun r ↦ { r with children := (linked l n r.view).children } := by
  unfold linkAll
  rw [get?_foldl_link]
  congr 1
  funext r
  exact foldl_link_eq _ r

theorem names_linkAll (l : List (Text × List Text)) : (s.linkAll l).names = s.names := by
  unfold linkAll
  induction l generalizing s with
  | nil => rfl
  | cons p l ih => rw [List.foldl_cons, ih, names_modify (f := Record.link p.2) fun r ↦ rfl]

/-- A property of records that the links keep. -/
theorem forall_mem_linkAll {P : Record → Prop} {l : List (Text × List Text)}
    (h : ∀ r ∈ s.records, P r) (hlink : ∀ p ∈ l, ∀ r, P r → P (r.link p.2)) :
    ∀ r ∈ (s.linkAll l).records, P r := by
  unfold linkAll
  induction l generalizing s with
  | nil => exact h
  | cons p l ih =>
    rw [List.forall_mem_cons] at hlink
    exact ih (forall_mem_modify h hlink.1 p.1) hlink.2

/-! ## Loading a document -/

variable {doc : Document}

/-- The entities that a store takes from a document, in document order. -/
def taken (s : Store) (doc : Document) : List Entity := Tree.preorderAll (forest s.table doc)

theorem taken_outline (h : doc.markers.effectiveLayout = .outline) :
    s.taken doc =
      Outline.entities doc.markers (doc.markers.statusTable?.getD s.table) doc.body := by
  unfold taken forest
  simp only [h]
  exact Outline.preorderAll_trees _ _ _

theorem taken_single {t : StatusTable} (hlayout : doc.markers.effectiveLayout ≠ .outline)
    (ht : t = doc.markers.statusTable?.getD s.table) :
    s.taken doc = (Outline.single? doc.markers t doc.body).toList := by
  have hforest : forest s.table doc =
      ((Outline.single? doc.markers t doc.body).map fun e ↦ Tree.node e []).toList := by
    unfold forest
    cases hl : doc.markers.effectiveLayout with
    | outline => exact absurd hl hlayout
    | file => rw [ht]
    | folder => rw [ht]
  change Tree.preorderAll (forest s.table doc) = _
  rw [hforest]
  cases Outline.single? doc.markers t doc.body <;> rfl

theorem links_outline (h : doc.markers.effectiveLayout = .outline) :
    linksAll (forest s.table doc) =
      nameLinksAll (Outline.nest ((s.taken doc).map fun e ↦ (e.level, e.name))) := by
  rw [taken_outline h]
  unfold forest
  simp only [h]
  exact linksAll_nest _

theorem names_load (s : Store) (doc : Document) (time : Int) :
    (s.load doc time).names = ((s.taken doc).foldl (mergeEntity doc.path time) s).names := by
  change (mergeTrees doc.path time s (forest s.table doc)).names = _
  rw [mergeTrees_eq]
  exact names_linkAll _

theorem get?_load (s : Store) (doc : Document) (time : Int) (n : Text) :
    (s.load doc time).get? n =
      (((s.taken doc).foldl (mergeEntity doc.path time) s).get? n).map fun r ↦
        { r with children := (linked (linksAll (forest s.table doc)) n r.view).children } := by
  change (mergeTrees doc.path time s (forest s.table doc)).get? n = _
  rw [mergeTrees_eq]
  exact get?_linkAll _

/-- A property of records that new records have, and that merging and linking keep. -/
theorem load_induct [s.IsIndexed] {P : Record → Prop} {time : Int} (hs : ∀ r ∈ s.records, P r)
    (hnew : ∀ e ∈ s.taken doc, P (Record.ofEntity e doc.path time))
    (hmerge : ∀ e ∈ s.taken doc, ∀ r, P r → r.name = e.name → P (Record.merge e doc.path time r))
    (hlink : ∀ p ∈ linksAll (forest s.table doc), ∀ r, P r → P (r.link p.2)) :
    ∀ r ∈ (s.load doc time).records, P r := by
  change ∀ r ∈ (mergeTrees doc.path time s (forest s.table doc)).records, P r
  rw [mergeTrees_eq]
  exact forall_mem_linkAll (foldl_mergeEntity_induct hs hnew hmerge) hlink

theorem mem_names_load {t : StatusTable} {time : Int} :
    n ∈ ((empty t).load doc time).names ↔ ∃ e ∈ (empty t).taken doc, e.name = n := by
  rw [names_load, mem_names_foldl]
  simp

/-- Distinct names are the names of an empty store after loading. -/
theorem names_load_of_nodup {t : StatusTable} (h : (((empty t).taken doc).map (·.name)).Nodup)
    (time : Int) : ((empty t).load doc time).names = ((empty t).taken doc).map (·.name) := by
  obtain ⟨l, hl, heq⟩ := exists_names_foldl doc.path time ((empty t).taken doc) (empty t)
  have hnames : ((empty t).load doc time).names = l := by
    rw [names_load, heq]
    rfl
  rw [hnames]
  refine hl.eq_of_length_le (h.subperm fun n hn ↦ ?_).length_le
  obtain ⟨e, he, rfl⟩ := List.mem_map.1 hn
  rw [← hnames]
  exact mem_names_load.2 ⟨e, he, rfl⟩

/-- A loaded record says of its children what the links say to the rest of it. -/
theorem children_load {t : StatusTable} {time : Int} {r : Record}
    (hr : ((empty t).load doc time).get? n = some r) :
    r.children = (linked (linksAll (forest t doc)) n { r.view with children := [] }).children := by
  rw [get?_load] at hr
  obtain ⟨r', hr', rfl⟩ := Option.map_eq_some_iff.1 hr
  have hchildren := children_foldl doc.path time ((empty t).taken doc) t r' (mem_of_get? hr')
  have hview : r'.view = { r'.view with children := [] } := by
    unfold Record.view
    rw [hchildren]
  change (linked (linksAll (forest t doc)) n r'.view).children = _
  rw [hview]
  rfl

/-- When all entities of a name say the same, so does the record of the name, its children aside. -/
theorem view_load {t : StatusTable} {time : Int} {v : View} {r : Record}
    (h : ∀ e ∈ (empty t).taken doc, e.name = v.name → e.view = v)
    (hr : ((empty t).load doc time).get? v.name = some r) : { r.view with children := [] } = v := by
  obtain ⟨e, he, hname⟩ := mem_names_load.1 (get?_isSome_iff.1 (Option.isSome_iff_exists.2 ⟨r, hr⟩))
  have hchildren : v.children = [] := congrArg View.children (h e he hname).symm
  rw [get?_load] at hr
  obtain ⟨r', hr', rfl⟩ := Option.map_eq_some_iff.1 hr
  have hview := view_foldl h (by simp [get?_empty]) r' hr'
  rw [← hview] at hchildren ⊢
  change { r'.view with children := [] } = r'.view
  rw [← hchildren]

/-- Stores that say the same say the same of each name. -/
theorem view_get?_congr {s s' : Store} [s.IsIndexed] [s'.IsIndexed]
    (h : s.records.map Record.view = s'.records.map Record.view) (n : Text) :
    (s.get? n).map Record.view = (s'.get? n).map Record.view := by
  have hfind (s : Store) [s.IsIndexed] : (s.get? n).map Record.view =
      (s.records.map Record.view).find? fun v ↦ v.name = n := by
    rw [get?_eq_find?, List.find?_map]
    rfl
  rw [hfind, hfind, h]

/-- Stores with the same names in the same order say the same when the records of each name do. -/
theorem view_records_congr {s s' : Store} [s.IsIndexed] [s'.IsIndexed] (hnames : s.names = s'.names)
    (hview : ∀ n, (s.get? n).map Record.view = (s'.get? n).map Record.view) :
    s.records.map Record.view = s'.records.map Record.view := by
  have horder : s.order = s'.order := by
    rw [← names_eq_order, ← names_eq_order, hnames]
  unfold records
  rw [List.map_filterMap, List.map_filterMap, horder]
  congr 1
  funext n
  exact hview n

end Markbook.Store
