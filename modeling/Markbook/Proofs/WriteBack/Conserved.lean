import Markbook.Proofs.Section.Found
import Markbook.Proofs.WriteBack.NoChange

/-!
# Fields That Stay

Type and status are taken out of the fields of a section, and put back under their keys when the
section is written.  An empty field under one of these keys is taken out too when it is passed over
(`Entity.IsPassedOver`), but nothing puts it back.  So a section of a line dialect that is written
back without changes has all of its fields again, but for a status that has moved into the heading,
exactly when no empty field was passed over (`Store.given_writeBack`); as long as the lines that
are left give its dialect away.
-/

namespace Markbook

open Dialect

/-! ## The fields that are written -/

namespace Record

open Entity

variable {m : Markers} {t : StatusTable} {heading : Heading} {level line : Nat} {body : Text}
  {r : Record} {k : Text}

/-- Does the field under a key move into the heading when the record is written? -/
def Moves (t : StatusTable) (r : Record) (k : Text) : Prop :=
  r.statusKey = some k ∧ (Heading.marker? t r.status).isSome

instance (t : StatusTable) (r : Record) (k : Text) : Decidable (r.Moves t k) :=
  inferInstanceAs (Decidable (_ ∧ _))

section Single

/-- The key of a status is that of a field that it was taken from. -/
theorem exists_stated_of_statusKey
    (h : (ofSection m t heading level line body).statusKey = some k) :
    ∃ v, (stated heading.status.isSome (typed (given m body)).2).1 = some (k, v) := by
  rw [ofSection_statusKey] at h
  obtain ⟨⟨key, v⟩, hstated, rfl⟩ := Option.map_eq_some_iff.1 h
  exact ⟨v, hstated⟩

variable (path : Path) (time : Int)
  (hknown : ∀ s, heading.status = some s → t.canonical? s ≠ none)
  (hsettled : t.IsSettled (ofSection m t heading level line body).status)

include hknown hsettled in
/-- Under the keys of a status, what is written is what was read, if it neither moves nor is
dropped. -/
theorem get?_putBack_writtenStatus (hk : k = "Status".toList ∨ k = "status".toList) :
    (putBack ((ofEntity (ofSection m t heading level line body) path time).writtenStatus t)
        (ofSection m t heading level line body).fields).get? k =
      if (ofEntity (ofSection m t heading level line body) path time).Moves t k ∨
        heading.status.isSome = false ∧ IsPassedOver "Status" "status" (given m body) k then none
      else (given m body).get? k := by
  have hget : ∀ k : Text, k = "Status".toList ∨ k = "status".toList →
      (typed (given m body)).2.get? k = (given m body).get? k := by
    rintro _ (rfl | rfl) <;> exact get?_take?_of_ne (by decide) (by decide)
  have hpass : IsPassedOver "Status" "status" (typed (given m body)).2 k ↔
      IsPassedOver "Status" "status" (given m body) k :=
    isPassedOver_congr (hget _ (.inl rfl)) (hget k hk)
  unfold writtenStatus
  rw [ofSection_fields]
  cases hform : Heading.marker? t (ofSection m t heading level line body).status with
  | some marker =>
    have hwritten : (Heading.marker? t
        (ofEntity (ofSection m t heading level line body) path time).status).isSome := by
      change (Heading.marker? t (ofSection m t heading level line body).status).isSome
      rw [hform]
      rfl
    have hmoves : (ofEntity (ofSection m t heading level line body) path time).Moves t k ↔
        (stated heading.status.isSome (typed (given m body)).2).1.map (·.1) = some k :=
      and_iff_left hwritten
    rw [if_pos hwritten]
    simp only [putBack, hmoves, ← hpass, ← hget k hk]
    exact get?_stated_snd _ _ k
  | none =>
    obtain ⟨hheading, hshown⟩ := shownStatus_ofEntity path time hknown hsettled hform
    have hwritten : ¬ (Heading.marker? t
        (ofEntity (ofSection m t heading level line body) path time).status).isSome := by
      change ¬ (Heading.marker? t (ofSection m t heading level line body).status).isSome
      rw [hform]
      simp
    have hmoves : ¬ (ofEntity (ofSection m t heading level line body) path time).Moves t k :=
      fun h ↦ hwritten h.2
    rw [if_neg hwritten, hshown, hheading]
    simp only [hmoves, ← hpass, ← hget k hk, false_or, Option.isSome_none, true_and]
    exact get?_putBack_take? (by decide) _ k

include hknown hsettled in
/-- Under all other keys, what is written is what was read, unless it is passed over by the type. -/
theorem get?_writtenFields_of_not_status (hk : ¬ (k = "Status".toList ∨ k = "status".toList)) :
    ((ofEntity (ofSection m t heading level line body) path time).writtenFields t).get? k =
      if IsPassedOver "Type" "type" (given m body) k then none else (given m body).get? k := by
  have hmarks := marks_ofEntity path time hknown hsettled
  have hinline : (ofEntity (ofSection m t heading level line body) path time).inlineType =
      (typed (given m body)).1 := inlineType_ofEntity path time
  have hfields : (ofEntity (ofSection m t heading level line body) path time).fields.get? k =
      (typed (given m body)).2.get? k := by
    change (ofSection m t heading level line body).fields.get? k = _
    rw [ofSection_fields]
    unfold stated
    split
    · rfl
    · exact get?_take?_of_ne (fun h ↦ hk (.inl h)) fun h ↦ hk (.inr h)
  have hstatus : ∀ p,
      (ofEntity (ofSection m t heading level line body) path time).writtenStatus t = some p →
        k ≠ p.1 := by
    rintro ⟨key, v⟩ hp rfl
    exact hk (hmarks.status_key hp)
  rw [writtenFields_eq hmarks, get?_putBack_of_ne hstatus, hinline, get?_putBack_congr hfields]
  exact get?_putBack_take? (by decide) _ k

include hknown hsettled in
/-- What is written for the record of a section is what the section holds, without a status that
moves into the heading and without the empty fields that are dropped. -/
theorem get?_writtenFields_ofEntity (k : Text) :
    ((ofEntity (ofSection m t heading level line body) path time).writtenFields t).get? k =
      if (ofEntity (ofSection m t heading level line body) path time).Moves t k ∨
        Drops heading.status.isSome (given m body) k then none
      else (given m body).get? k := by
  by_cases hk : k = "Status".toList ∨ k = "status".toList
  · have hmarks := marks_ofEntity path time hknown hsettled
    have hne : k ≠ "Type".toList ∧ k ≠ "type".toList := by
      rcases hk with rfl | rfl <;> decide
    have hpass : ¬ IsPassedOver "Type" "type" (given m body) k := fun h ↦ h.key.elim hne.1 hne.2
    have htype : (putBack (ofEntity (ofSection m t heading level line body) path time).inlineType
        (ofEntity (ofSection m t heading level line body) path time).fields).get? k =
          (ofSection m t heading level line body).fields.get? k := by
      refine get?_putBack_of_ne ?_
      rintro ⟨key, v⟩ hp rfl
      exact (hmarks.type_key hp).elim hne.1 hne.2
    rw [writtenFields_eq hmarks, get?_putBack_congr htype,
      get?_putBack_writtenStatus path time hknown hsettled hk]
    simp only [Drops, hpass, false_or]
  · have hmoves : ¬ (ofEntity (ofSection m t heading level line body) path time).Moves t k := by
      intro h
      have hkey : (ofSection m t heading level line body).statusKey = some k := h.1
      obtain ⟨v, hstated⟩ := exists_stated_of_statusKey hkey
      exact hk (key_of_stated hstated)
    have hpass : ¬ IsPassedOver "Status" "status" (given m body) k := fun h ↦ hk h.key
    rw [get?_writtenFields_of_not_status path time hknown hsettled hk]
    simp only [Drops, hmoves, hpass, and_false, or_false, false_or]

end Single

end Record

/-! ## Sections that are written back -/

namespace Record.IsFrom

open Entity

variable {m : Markers} {t : StatusTable} {text body : Text} {r : Record} {k : Text}

theorem get?_writtenFields (h : r.IsFrom m t text body) (k : Text) :
    (r.writtenFields t).get? k =
      if r.Moves t k ∨ Drops (Heading.ofText t text).status.isSome (Entity.given m body) k then none
      else (Entity.given m body).get? k := by
  obtain ⟨⟨path, time, level, line, children, rfl⟩, hsettled⟩ := h
  exact get?_writtenFields_ofEntity path time (Section.canonical?_of_heading t text) hsettled k

/-- A status that moves has a value. -/
theorem not_moves_of_drops (h : r.IsFrom m t text body)
    (hdrops : Drops (Heading.ofText t text).status.isSome (Entity.given m body) k) :
    ¬ r.Moves t k := by
  obtain ⟨⟨path, time, level, line, children, rfl⟩, -⟩ := h
  intro hmoves
  have hkey : (ofSection m t (Heading.ofText t text) level line body).statusKey = some k := hmoves.1
  obtain ⟨v, hstated⟩ := exists_stated_of_statusKey hkey
  unfold stated at hstated
  split at hstated
  · simp at hstated
  · have htaken := isTaken_take? "Status" "status" (typed (Entity.given m body)).2
    rw [hstated] at htaken
    have hget := get?_take?_rest (get?_of_take? hstated)
    rw [hdrops.get?] at hget
    exact htaken.1 (Option.some.inj hget).symm

/-- All fields that stay are written exactly when none is dropped. -/
theorem keeps_iff (h : r.IsFrom m t text body) :
    (∀ k v, (Entity.given m body).get? k = some v → ¬ r.Moves t k →
        (r.writtenFields t).get? k = some v) ↔
      ∀ k, ¬ Drops (Heading.ofText t text).status.isSome (Entity.given m body) k := by
  refine ⟨fun hkept k hdrops ↦ ?_, fun hnone k v hv hstays ↦ ?_⟩
  · have hget := hkept k [] hdrops.get? (h.not_moves_of_drops hdrops)
    rw [h.get?_writtenFields, if_pos (.inr hdrops)] at hget
    simp at hget
  · rw [h.get?_writtenFields, if_neg (not_or.2 ⟨hstays, hnone k⟩)]
    exact hv

end Record.IsFrom

namespace Section

variable {m : Markers} {t : StatusTable} {records : List Record} {s s' : Section} {body : Text}
  {d : Dialect} {fields : Fields} {r : Record}

/-- Does the block of some fields, with the lines behind it, give away the dialect that it is
written in? -/
def Tells (d : Dialect) (fields : Fields) (s : Section) : Prop :=
  (told? (blockLines d fields ++ behind d s.lines)).getD .colons = d

instance (d : Dialect) (fields : Fields) (s : Section) : Decidable (s.Tells d fields) :=
  inferInstanceAs (Decidable (_ = _))

/-- A block does by itself, but for colons under keys with two spaces in a row. -/
theorem tells_of_isKeyLike (hlegal : ∀ e ∈ fields.entries, d.Legal e) (hne : fields.isEmpty = false)
    (hkeys : d = .colons → ∀ e ∈ fields.entries, isKeyLike e.1) (s : Section) :
    s.Tells d fields := by
  unfold Tells
  rw [blockLines_of_not_isEmpty hne, told?_append,
    told?_writtenLines_of_keyLike hlegal (entries_ne_nil hne) hkeys]
  rfl

/-- A rewritten section holds the fields that were written into it, if they tell its dialect. -/
theorem given_of_unnumbered_eq (hs : s ∈ cut body) (h : r.IsFrom m t s.text s.body)
    (hd : r.dialect ≠ .fenced) {level : Nat} (hr : recordOf? t records s = some (level, r))
    (hfits : r.Fits t) (heq : s'.unnumbered = (renewed t records s).unnumbered)
    (htells : s.Tells r.dialect (r.writtenFields t)) :
    Entity.given m s'.body = r.writtenFields t := by
  have hlines : s'.unnumbered.lines = (renewed t records s).unnumbered.lines := by rw [heq]
  change s'.lines = (renewed t records s).lines at hlines
  have hnew : ∀ l ∈ s'.lines, '\n' ∉ l := by
    rw [hlines]
    exact newline_not_mem_renewed hs (fits_of_recordOf?_eq hr hfits)
  rw [given_body m hnew, hlines, renewed_of_recordOf? hr]
  exact (rereads_of_isFrom h hs (fun hfenced ↦ absurd hfenced hd) htells).held_eq

end Section

namespace Store

open Entity

variable {t₀ t : StatusTable} {doc : Document} {time : Int} {r : Record} {s : Section}

/-- A section whose record fits is found again when the document has been written back. -/
theorem exists_mem_cut_writtenBack (hlayout : doc.markers.effectiveLayout = .outline)
    (ht : t = doc.markers.statusTable?.getD t₀) (hforms : t.HasLines)
    (hs : s ∈ Section.cut doc.body) {level : Nat}
    (hrecord : Section.recordOf? t ((empty t₀).load doc time).records s = some (level, r))
    (hfits : r.Fits t) :
    ∃ s' ∈ Section.cut (doc.writtenBack t₀ time).body,
      s'.unnumbered = (Section.renewed t ((empty t₀).load doc time).records s).unnumbered := by
  subst ht
  refine Section.exists_mem_cut_rewriteBody hs (fun s hs level r hr ↦ ?_)
    (Section.fits_of_recordOf?_eq hrecord hfits)
  exact isLine_of_mem_load hlayout rfl hforms
    (Section.name_of_recordOf? (Section.isCut_of_mem_cut hs) hr).2.2

/-- Fields under write-back without changes.  A section of a line dialect that is alone with its
name is found again in the file, with its fields written back; but for a status that moves into the
heading and for empty fields that were passed over.  If the lines that are left give the dialect
away they are read again, so all fields are kept exactly when no empty one was passed over.  The
dialect is given away when a field is left, in colons by keys without two spaces in a row. -/
theorem given_writeBack {d : Disk} {path : Path} {content : Text}
    (hread : d.read path = .ok content)
    (hdoc : Document.read? path content = some doc)
    (hlayout : doc.markers.effectiveLayout = .outline)
    (ht : t = doc.markers.statusTable?.getD t₀) (hforms : t.HasLines) (hne : s.name t ≠ [])
    (hsingle : Section.named t (s.name t) (Section.cut doc.body) = [s])
    (hline : dialectOf doc.markers s.body ≠ .fenced)
    (hr : ((empty t₀).load doc time).get? (s.name t) = some r) (hsettled : t.IsSettled r.status) :
    ∃ d' paths content' doc' s', ((empty t₀).load doc time).writeBack d = (d', .ok paths) ∧
      d'.read path = .ok content' ∧ Document.read? path content' = some doc' ∧
      s' ∈ Section.cut doc'.body ∧
      s'.unnumbered = (Section.renewed t ((empty t₀).load doc time).records s).unnumbered ∧
      (∀ k, (r.writtenFields t).get? k =
        if r.Moves t k ∨
          Drops (Heading.ofText t s.text).status.isSome (given doc.markers s.body) k then none
        else (given doc.markers s.body).get? k) ∧
      (s.Tells r.dialect (r.writtenFields t) →
        given doc'.markers s'.body = r.writtenFields t ∧
        ((∀ k v, (given doc.markers s.body).get? k = some v → ¬ r.Moves t k →
            (given doc'.markers s'.body).get? k = some v) ↔
          ∀ k, ¬ Drops (Heading.ofText t s.text).status.isSome (given doc.markers s.body) k)) ∧
      ((r.writtenFields t).isEmpty = false →
        (r.dialect = .colons → ∀ e ∈ (r.writtenFields t).entries, isKeyLike e.1) →
        s.Tells r.dialect (r.writtenFields t)) := by
  obtain ⟨hs, -⟩ := Section.mem_of_named_eq hsingle
  have hfrom := Section.isFrom_of_single hlayout ht hne hsingle hr hsettled
  have hd : r.dialect ≠ .fenced := hfrom.dialect_eq ▸ hline
  have hrecord : Section.recordOf? t ((empty t₀).load doc time).records s = some (s.level, r) := by
    rw [recordOf?_records _ hs, hr]
    rfl
  have hfits : r.Fits t :=
    ⟨isLine_of_mem_load hlayout ht hforms (mem_of_get? hr), Section.block_of_isFrom hfrom hs hd⟩
  have hwritten := hfrom.get?_writtenFields
  have hlegal : ∀ e ∈ (r.writtenFields t).entries, r.dialect.Legal e := fun e he ↦
    hfrom.legal hd (Record.get?_writtenFields hfrom.marks_type.1 (TextMap.mem_entries_iff.1 he))
  obtain ⟨d', paths, content', doc', hwrite, hread', hdoc', heq⟩ :=
    exists_writeBack t₀ time hread hdoc hlayout
  rcases heq with rfl | ⟨hnil, -⟩
  · obtain ⟨s', hs', hrenewed⟩ := exists_mem_cut_writtenBack hlayout ht hforms hs hrecord hfits
    refine ⟨d', paths, content', _, s', hwrite, hread', hdoc', hs', hrenewed, hwritten,
      fun htells ↦ ?_, fun hempty hkeys ↦ Section.tells_of_isKeyLike hlegal hempty hkeys s⟩
    have hgiven : given (doc.writtenBack t₀ time).markers s'.body = r.writtenFields t :=
      Section.given_of_unnumbered_eq hs hfrom hd hrecord hfits hrenewed htells
    rw [hgiven]
    exact ⟨rfl, hfrom.keeps_iff⟩
  · have hmem := mem_of_get? hr
    rw [hnil] at hmem
    simp at hmem

/-- A plan with an owner keeps the owner, while its status moves into the heading. -/
theorem given_writeBack_owned :
    ∃ s ∈ Section.cut Document.owned, ∃ d' paths content' doc' s',
      ((empty .builtIn).load (.plan Document.owned) 0).writeBack
        (.plan (Document.planLead ++ Document.owned)) = (d', .ok paths) ∧
      d'.read "plan.md" = .ok content' ∧ Document.read? "plan.md" content' = some doc' ∧
      s' ∈ Section.cut doc'.body ∧
      ∀ k v, (given (Document.plan Document.owned).markers s.body).get? k = some v →
        k ≠ "Status".toList → (given doc'.markers s'.body).get? k = some v := by
  have hsections : ∀ s ∈ Section.cut Document.owned, s.name .builtIn ≠ [] ∧
      Section.named .builtIn (s.name .builtIn) (Section.cut Document.owned) = [s] ∧
      dialectOf (Document.plan Document.owned).markers s.body ≠ .fenced ∧
      (((empty .builtIn).load (.plan Document.owned) 0).get? (s.name .builtIn)).isSome ∧
      ∀ e ∈ (given (Document.plan Document.owned).markers s.body).entries, e.2 ≠ [] := by
    decide +kernel
  have hrecords : ∀ s ∈ Section.cut Document.owned,
      ∀ r ∈ ((empty .builtIn).load (.plan Document.owned) 0).records,
        r.statusKey = some "Status".toList ∧ s.Tells r.dialect (r.writtenFields .builtIn) := by
    decide +kernel
  have hne : Section.cut Document.owned ≠ [] := by decide +kernel
  obtain ⟨s, hs⟩ := List.exists_mem_of_ne_nil _ hne
  obtain ⟨hname, hsingle, hline, hsome, hvalues⟩ := hsections s hs
  obtain ⟨r, hr⟩ := Option.isSome_iff_exists.1 hsome
  obtain ⟨hkey, htells⟩ := hrecords s hs r (mem_of_get? hr)
  obtain ⟨d', paths, content', doc', s', hwrite, hread, hdoc, hs', -, -, hgiven, -⟩ :=
    given_writeBack (Disk.read_plan (Document.planLead ++ Document.owned))
      (Document.read?_plan Document.owned) (by decide) rfl StatusTable.hasLines_builtIn hname
      hsingle
      hline hr (StatusTable.isSettled_builtIn _)
  refine ⟨s, hs, d', paths, content', doc', s', hwrite, hread, hdoc, hs', fun k v hv hstays ↦ ?_⟩
  refine (hgiven htells).2.2 (fun k hdrops ↦ ?_) k v hv fun hmoves ↦ ?_
  · exact hvalues (k, []) (TextMap.mem_entries_iff.2 hdrops.get?) rfl
  · exact hstays (Option.some.inj (hmoves.1.symm.trans hkey))

/-- An owner over a type that is still to be filled in. -/
def placeholder : Text := "## T\nOwner:: amy\nType::\n"

/-- Write-back deletes the line of a type that is still to be filled in. -/
theorem not_given_writeBack_placeholder :
    ∃ d' paths content' doc',
      ((empty .builtIn).load (.plan placeholder) 0).writeBack
          (.plan (Document.planLead ++ placeholder)) =
        (d', .ok paths) ∧
      d'.read "plan.md" = .ok content' ∧ Document.read? "plan.md" content' = some doc' ∧
      (∃ s ∈ Section.cut placeholder,
        dialectOf (Document.plan placeholder).markers s.body = .colons ∧
        Section.named .builtIn (s.name .builtIn) (Section.cut placeholder) = [s] ∧
        (given (Document.plan placeholder).markers s.body).get? "Type" = some []) ∧
      ∀ s' ∈ Section.cut doc'.body, (given doc'.markers s'.body).get? "Type" = none := by
  have hlayout : (Document.plan placeholder).markers.effectiveLayout = .outline := by decide
  obtain ⟨d', paths, content', doc', hwrite, hread, hdoc, h⟩ :=
    exists_writeBack .builtIn 0 (Disk.read_plan (Document.planLead ++ placeholder))
      (Document.read?_plan placeholder) hlayout
  refine ⟨d', paths, content', doc', hwrite, hread, hdoc, by decide +kernel, ?_⟩
  rcases h with rfl | ⟨h, -⟩
  · decide +kernel
  · have hlength : ((empty .builtIn).load (.plan placeholder) 0).records.length = 1 := by
      decide +kernel
    rw [h] at hlength
    simp at hlength

end Store

end Markbook
