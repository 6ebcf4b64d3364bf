import Markbook.Proofs.Dialect.Kept
import Markbook.Proofs.Dialect.Legal
import Markbook.Proofs.Text.Word

/-!
# What a Written Block Gives Away

A block of packed fields, a table or a fenced block always gives its dialect away.  A block of one
field a line does so at its first key that looks like one, if no line before it passes for a table
row; a key that is a word is enough for that, because keys stand in ascending order.
-/

namespace Markbook.Dialect

variable {d : Dialect} {e : Text × Text}

/-! ## Words as fields -/

theorem legal_of_isWord {k v : Text} (hk : Text.isWord k) (hv : Text.isWord v) :
    d.Legal (k, v) := by
  have hmark {s : Text} (hs : Text.isWord s) : ¬ mark <:+: s := by
    intro hin
    exact Text.not_mem_of_isWord (c := ':') (by decide) hs (hin.subset (by decide))
  have hhash : k.head? ≠ some '#' := fun h ↦
    Text.not_mem_of_isWord (by decide) hk (List.mem_of_head? h)
  refine ⟨⟨Text.ne_nil_of_isWord hk, Text.isTrimmed_of_isWord hk,
    Text.not_mem_of_isWord (by decide) hk, Text.isTrimmed_of_isWord hv,
    Text.not_mem_of_isWord (by decide) hv⟩, ?_⟩
  cases d with
  | colons => exact ⟨hmark hk, fun _ ↦ hhash⟩
  | packed =>
    exact ⟨Text.not_mem_of_isWord (by decide) hk, Text.not_mem_of_isWord (by decide) hk,
      Text.not_mem_of_isWord (by decide) hv⟩
  | table =>
    exact ⟨Text.not_mem_of_isWord (by decide) hk, Text.not_mem_of_isWord (by decide) hv⟩
  | fenced => trivial

theorem isKeyLike_of_isWord {k : Text} (h : Text.isWord k) : isKeyLike k = true := by
  unfold isKeyLike
  rw [Bool.and_eq_true, Bool.not_eq_true', Bool.not_eq_true', ← Bool.not_eq_true,
    ← Bool.not_eq_true, Text.has_iff, List.isEmpty_iff]
  refine ⟨Text.ne_nil_of_isWord h, fun hin ↦ ?_⟩
  exact Text.not_mem_of_isWord (c := ' ') (by decide) h (hin.subset (by decide))

/-! ## One key a line -/

theorem colon_mem_colonsLine (e : Text × Text) : ':' ∈ colonsLine e := by
  unfold colonsLine mark
  split <;> simp

theorem isFence_colonsLine (e : Text × Text) : isFence (colonsLine e) = false := by
  unfold isFence
  rw [decide_eq_false_iff_not]
  intro h
  have := h ▸ colon_mem_colonsLine e
  simp at this

theorem not_mark_prefix_colonsLine (h : Legal .colons e) :
    mark.isPrefixOf (colonsLine e) = false := by
  rw [Bool.eq_false_iff]
  intro hp
  obtain ⟨r, hr⟩ := List.isPrefixOf_iff_prefix.1 hp
  have hcut : Text.cut? mark (colonsLine e) = some ([], r) :=
    Text.cut?_eq_some_iff.2 ⟨by simpa using hr.symm, by simp⟩
  by_cases hempty : e.2 = []
  · rw [(cut?_colonsLine_of_eq_nil h hempty).1] at hcut
    simp at hcut
  · rw [cut?_colonsLine_of_ne_nil h hempty] at hcut
    exact h.key_ne (congrArg Prod.fst (Option.some.inj hcut))

/-- A line for one field gives its dialect away by a key that looks like one; otherwise it can only
pass for a row. -/
theorem ofLine?_colonsLine (h : Legal .colons e) :
    ofLine? (colonsLine e) =
      if isKeyLike e.1 then some .colons
      else if isRow (colonsLine e) && 3 ≤ (Text.pieces '|' (colonsLine e)).length then some .table
      else none := by
  unfold ofLine?
  rw [isFence_colonsLine, not_mark_prefix_colonsLine h]
  simp only [Bool.false_eq_true, if_false]
  by_cases hempty : e.2 = []
  · obtain ⟨hcut, hbare⟩ := cut?_colonsLine_of_eq_nil h hempty
    rw [hcut, hbare]
    simp
  · have hcut := cut?_colonsLine_of_ne_nil h hempty
    rw [hcut]
    by_cases hkey : isKeyLike e.1
    · simp [hkey]
    · -- A line with a value may still end with two colons, but the longer key is no better.
      have hbare : (bareKey? (colonsLine e)).any isKeyLike = false := by
        rw [Option.any_eq_false]
        intro k hk
        have heq := (bareKey?_eq_some_iff.1 hk).2
        have hspaces : [' ', ' '] <:+: e.1 := by
          unfold isKeyLike at hkey
          rw [Bool.and_eq_true, not_and] at hkey
          have := hkey (by simpa using h.key_ne)
          simpa [Text.has_iff] using this
        have hlong : e.1 <+: k := by
          rw [colonsLine_of_ne_nil hempty] at heq
          have hp : e.1 <+: k ++ [':', ':'] := ⟨mark ++ e.2, by rw [← heq]; simp⟩
          refine List.prefix_of_prefix_length_le hp (List.prefix_append _ _) ?_
          have hlen := congrArg List.length heq
          simp only [List.length_append, mark, List.length_cons, List.length_nil] at hlen
          have := List.length_pos_iff.2 hempty
          omega
        unfold isKeyLike
        rw [Bool.and_eq_false_iff, Bool.not_eq_false', Bool.not_eq_false', Text.has_iff]
        exact .inr (hspaces.trans hlong.isInfix)
      simp [hkey, hbare]

theorem told?_map_colonsLine {a b : List (Text × Text)} (hkey : isKeyLike e.1)
    (h : ∀ x ∈ a ++ e :: b, Legal .colons x) (hbar : ∀ x ∈ a, x.1.head? ≠ some '|') :
    told? ((a ++ e :: b).map colonsLine) = some .colons := by
  have htrim {x : Text × Text} (hx : x ∈ a ++ e :: b) : Text.trim (colonsLine x) = colonsLine x :=
    isTrimmed_colonsLine (h x hx).toIsField
  have he : e ∈ a ++ e :: b := by simp
  have hline : ofLine? (Text.trim (colonsLine e)) = some .colons := by
    rw [htrim he, ofLine?_colonsLine (h e he), if_pos hkey]
  have hahead : told? (a.map colonsLine) = none ∨ told? (a.map colonsLine) = some .colons := by
    cases hd : told? (a.map colonsLine) with
    | none => exact .inl rfl
    | some d =>
      right
      obtain ⟨l, hl, hd⟩ := List.exists_of_findSome?_eq_some hd
      obtain ⟨x, hx, rfl⟩ := List.mem_map.1 hl
      have hmem : x ∈ a ++ e :: b := List.mem_append_left _ hx
      have hrow : isRow (colonsLine x) = false := by
        have hhead : (colonsLine x).head? = x.1.head? := by
          unfold colonsLine
          split
          · exact (h x hmem).head?_append _
          · rw [List.append_assoc]
            exact (h x hmem).head?_append _
        unfold isRow
        rw [hhead]
        simp [hbar x hx]
      rw [htrim hmem, ofLine?_colonsLine (h x hmem), hrow] at hd
      split at hd
      · exact hd.symm
      · simp at hd
  rw [List.map_append, List.map_cons, told?_append, told?_cons, hline]
  rcases hahead with hahead | hahead <;> rw [hahead] <;> rfl

/-! ## Blocks -/

variable {fields : Fields}

theorem told?_fenced (fields : Fields) :
    told? (Dialect.fenced.writtenLines fields) = some .fenced := by
  unfold writtenLines
  rw [List.cons_append, told?_cons]
  rfl

theorem told?_table (fields : Fields) :
    told? (Dialect.table.writtenLines fields) = some .table := by
  have hhead : ofLine? (Text.trim tableHead) = some .table := by decide
  unfold writtenLines
  rw [told?_cons]
  unfold tableHead at hhead
  rw [hhead]
  rfl

theorem told?_packed (h : ∀ e ∈ fields.entries, IsField e) (hne : fields.entries ≠ []) :
    told? (Dialect.packed.writtenLines fields) = some .packed := by
  have htrim : Text.trim (packedLine fields.entries) = packedLine fields.entries :=
    isTrimmed_packedLine h hne
  have hfence : isFence (packedLine fields.entries) = false := by
    unfold isFence packedLine
    simp [mark]
  have hmark : mark.isPrefixOf (packedLine fields.entries) = true :=
    List.isPrefixOf_iff_prefix.2 (List.prefix_append _ _)
  change told? [packedLine fields.entries] = some .packed
  rw [told?_cons, htrim]
  unfold ofLine?
  rw [hfence, hmark]
  rfl

/-- The block of legal fields gives its dialect away when all keys look like keys. -/
theorem told?_writtenLines_of_keyLike (h : ∀ e ∈ fields.entries, d.Legal e)
    (hne : fields.entries ≠ []) (hkeys : d = .colons → ∀ e ∈ fields.entries, isKeyLike e.1) :
    told? (d.writtenLines fields) = some d := by
  cases d with
  | packed => exact told?_packed (fun e he ↦ (h e he).toIsField) hne
  | table => exact told?_table fields
  | fenced => exact told?_fenced fields
  | colons =>
    unfold writtenLines
    obtain ⟨e, r, hentries⟩ := List.exists_cons_of_ne_nil hne
    rw [hentries] at h ⊢
    have hkey : isKeyLike e.1 := hkeys rfl e (hentries ▸ List.mem_cons_self)
    exact told?_map_colonsLine (a := []) hkey h (by simp)

/-- The block of legal fields gives its dialect away when one of the keys is a word. -/
theorem told?_writtenLines_of_isWord (h : ∀ e ∈ fields.entries, d.Legal e) {k v : Text}
    (hk : Text.isWord k) (hmem : fields.get? k = some v) :
    told? (d.writtenLines fields) = some d := by
  have hkv := TextMap.mem_entries_iff.2 hmem
  cases d with
  | packed => exact told?_packed (fun e he ↦ (h e he).toIsField) (List.ne_nil_of_mem hkv)
  | table => exact told?_table fields
  | fenced => exact told?_fenced fields
  | colons =>
    unfold writtenLines
    obtain ⟨a, b, hentries⟩ := List.append_of_mem hkv
    have hlt : ∀ x ∈ a, x.1 < k := by
      have hasc := fields.ascending
      rw [hentries, List.pairwise_append] at hasc
      exact fun x hx ↦ hasc.2.2 x hx (k, v) List.mem_cons_self
    rw [hentries] at h ⊢
    exact told?_map_colonsLine (isKeyLike_of_isWord hk) h
      fun x hx ↦ Text.head?_ne_bar_of_lt hk (hlt x hx)

end Markbook.Dialect
