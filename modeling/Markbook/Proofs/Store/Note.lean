import Markbook.Proofs.Section.First
import Markbook.Proofs.Store.Slot
import Markbook.Proofs.WriteBack.Loaded

/-!
# Loading Texts

A text is loaded under a path, as of a time (`Note`).  It changes a store when it is a document, by
the entities that are taken from it (`Store.held_loadNote`); every one of these comes from a
section, so it has a field with the key `status` only together with a status
(`Note.isStated_of_mem`).
-/

namespace Markbook

/-- A text with the path and the time it is loaded with. -/
structure Note where
  path : Path
  content : Text
  time : Int

/-- The entities that a store with this table takes from a text, none when it is no document. -/
def Note.entities (t : StatusTable) (d : Note) : List Entity :=
  match Document.read? d.path d.content with
  | some doc => (Store.empty t).taken doc
  | none => []

/-! ## Entities of documents -/

/-- An entity that a store takes from a document is the entity of a section with its name. -/
theorem Store.exists_section_of_mem_taken {s : Store} {doc : Document} {e : Entity}
    {t : StatusTable} (ht : t = doc.markers.statusTable?.getD s.table) (h : e ∈ s.taken doc) :
    ∃ sec ∈ Section.cut doc.body, sec.name t = e.name ∧ ∃ line body,
      e = Entity.ofSection doc.markers t (Heading.ofText t sec.text) sec.level line body := by
  by_cases hlayout : doc.markers.effectiveLayout = .outline
  · rw [taken_outline hlayout, ← ht] at h
    obtain ⟨sec, hsec, -, rfl⟩ := Outline.exists_section_of_mem h
    exact ⟨sec, hsec, rfl, _, _, rfl⟩
  · rw [taken_single hlayout ht, Option.mem_toList] at h
    obtain ⟨pre, sec, later, line, hleads, rfl⟩ := Outline.exists_leads_of_single? h
    exact ⟨sec, hleads.mem, rfl, _, _, rfl⟩

theorem Store.isStated_of_mem_taken {s : Store} {doc : Document} {e : Entity}
    (h : e ∈ s.taken doc) : e.IsStated := by
  obtain ⟨sec, -, -, line, body, rfl⟩ := exists_section_of_mem_taken rfl h
  exact Entity.isStated_ofSection _ _ _ _ _ _

theorem Note.isStated_of_mem {t : StatusTable} {d : Note} {e : Entity} (h : e ∈ d.entities t) :
    e.IsStated := by
  unfold entities at h
  split at h
  · exact Store.isStated_of_mem_taken h
  · simp at h

/-! ## Loading -/

namespace Store

variable {s : Store} {d : Note} {n : Text}

/-- Loads a text, unless it is no document. -/
def loadNote (s : Store) (d : Note) : Store :=
  match Document.read? d.path d.content with
  | some doc => s.load doc d.time
  | none => s

theorem table_loadNote (s : Store) (d : Note) : (s.loadNote d).table = s.table := by
  unfold loadNote
  split
  · exact table_load _ _ _
  · rfl

theorem held_loadNote (s : Store) (d : Note) (n : Text) (x : Slot) :
    (s.loadNote d).held n x =
      (mentions n x d.path d.time (d.entities s.table)).foldl .take (s.held n x) := by
  unfold loadNote Note.entities
  cases h : Document.read? d.path d.content with
  | none => rfl
  | some doc =>
    simp only
    rw [held_load, Document.path_of_read? h]
    rfl

instance isIndexed_loadNote [s.IsIndexed] (d : Note) : (s.loadNote d).IsIndexed := by
  unfold loadNote
  split <;> infer_instance

theorem mem_names_loadNote [s.IsIndexed] :
    n ∈ (s.loadNote d).names ↔ n ∈ s.names ∨ ∃ e ∈ d.entities s.table, e.name = n := by
  unfold loadNote Note.entities
  cases Document.read? d.path d.content with
  | none => simp
  | some doc =>
    simp only
    rw [names_load, mem_names_foldl]
    rfl

/-- A mention of a text is as old as the text. -/
theorem source_of_mem_mentions {x : Slot} {path : Path} {time : Int} {E : List Entity} {m : Mention}
    (h : m ∈ mentions n x path time E) : m.source = ⟨path, time⟩ := by
  unfold mentions Entity.mention? at h
  obtain ⟨e, -, hm⟩ := List.mem_filterMap.1 h
  split at hm
  · rw [← Option.some.inj hm]
  · simp at hm

end Store

/-! ## Offers -/

/-- A value in a document, with the source it gives to its slot. -/
structure Offer where
  value : Text
  source : Source

/-- The values that a text has for a slot of an entity, one for each occurrence with a value, in
document order. -/
def Note.offers (t : StatusTable) (n : Text) (x : Slot) (d : Note) : List Offer :=
  ((d.entities t).filter fun e ↦ e.name = n).filterMap fun e ↦
    (e.value? x).map fun v ↦ ⟨v, ⟨d.path, d.time⟩⟩

theorem Note.source_of_mem_offers {t : StatusTable} {n : Text} {x : Slot} {d : Note} {o : Offer}
    (h : o ∈ d.offers t n x) : o.source = ⟨d.path, d.time⟩ := by
  obtain ⟨e, -, ho⟩ := List.mem_filterMap.1 h
  obtain ⟨v, -, rfl⟩ := Option.map_eq_some_iff.1 ho
  rfl

def Offer.mention (o : Offer) : Mention := ⟨some o.value, o.source⟩

/-- In a slot of its own an entity is mentioned by its values only. -/
theorem Note.mentions_eq_offers {x : Slot} (hx : x.IsOwn) (t : StatusTable) (n : Text) (d : Note) :
    Store.mentions n x d.path d.time (d.entities t) = (d.offers t n x).map Offer.mention := by
  unfold Store.mentions Note.offers
  rw [List.map_filterMap]
  apply List.filterMap_congr
  intro e he
  have hstated := Note.isStated_of_mem (List.mem_of_mem_filter he)
  unfold Entity.mention?
  cases hv : e.value? x with
  | some v =>
    rw [if_pos (Entity.mentions_of_value? (by simp [hv]))]
    rfl
  | none =>
    have hnot : ¬ e.mentions x.key = true := by
      rw [Entity.mentions_iff hstated hx, hv]
      simp
    rw [if_neg hnot]
    rfl

/-- A mention with a value is an offer. -/
theorem Note.offers_ne_nil_of_mention {x : Slot} {t : StatusTable} {n : Text} {d : Note}
    {m : Mention} (hm : m ∈ Store.mentions n x d.path d.time (d.entities t)) (hv : m.value.isSome) :
    d.offers t n x ≠ [] := by
  obtain ⟨e, he, hmention⟩ := List.mem_filterMap.1 hm
  unfold Entity.mention? at hmention
  split at hmention
  · rw [← Option.some.inj hmention] at hv
    obtain ⟨v, hv⟩ : ∃ v, e.value? x = some v := Option.isSome_iff_exists.1 hv
    exact List.ne_nil_of_mem (List.mem_filterMap.2 ⟨e, he, by rw [hv]; rfl⟩)
  · simp at hmention

/-- Behind the last offer of a text everything is mentioned without a value. -/
theorem Note.exists_mentions_of_offers {x : Slot} {t : StatusTable} {n : Text} {d : Note}
    {os : List Offer} {o : Offer} (h : d.offers t n x = os ++ [o]) :
    ∃ a b, Store.mentions n x d.path d.time (d.entities t) = a ++ o.mention :: b ∧
      ∀ m ∈ b, m.value = none := by
  unfold Note.offers at h
  obtain ⟨E₁, E₂, hE, -, hlast⟩ := List.filterMap_eq_append_iff.1 h
  obtain ⟨E₃, e, E₄, rfl, -, he, hrest⟩ := List.filterMap_eq_cons_iff.1 hlast
  obtain ⟨v, hv, rfl⟩ := Option.map_eq_some_iff.1 he
  rw [List.filterMap_eq_nil_iff] at hrest
  refine ⟨(E₁ ++ E₃).filterMap (Entity.mention? x d.path d.time),
    E₄.filterMap (Entity.mention? x d.path d.time), ?_, fun m hm ↦ ?_⟩
  · have hmention : e.mention? x d.path d.time = some ⟨some v, ⟨d.path, d.time⟩⟩ := by
      unfold Entity.mention?
      rw [if_pos (Entity.mentions_of_value? (by rw [hv]; rfl)), hv]
    unfold Store.mentions
    rw [hE, ← List.append_assoc, List.filterMap_append, List.filterMap_cons, hmention]
    rfl
  · obtain ⟨e', he', hmention⟩ := List.mem_filterMap.1 hm
    have hnone : e'.value? x = none := Option.map_eq_none_iff.1 (hrest e' he')
    unfold Entity.mention? at hmention
    split at hmention
    · rw [← Option.some.inj hmention]
      exact hnone
    · simp at hmention

end Markbook
