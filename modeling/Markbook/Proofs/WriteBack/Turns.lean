import Markbook.Proofs.Section.Refilled
import Markbook.Proofs.Text.Copied
import Markbook.Proofs.WriteBack.Reread

/-!
# Rewriting in Turns

A text without carriage returns can be rewritten for some records and then for others.  When each
heading gives its name back and each block is claimed by its own dialect, that is rewriting it for
all of them (`rewrite_rewrite`).  So neither the order of the turns matters, nor how often a record
has one (`foldl_rewrite`).
-/

namespace Markbook

open Dialect Section

/-- A record that a line dialect can hold and whose heading is one line that gives its name back. -/
structure Record.IsSteady (t : StatusTable) (r : Record) : Prop where
  heading : ∃ level, '\n' ∉ Heading.write t level r.status r.name r.title ∧
    '\r' ∉ Heading.write t level r.status r.name r.title ∧
    (Heading.named? t (Heading.write t level r.status r.name r.title)).map (·.2) = some r.name
  dialect : r.dialect ≠ .fenced
  fields : ∀ e ∈ (r.writtenFields t).entries, IsField e
  keys : r.dialect = .colons → ∀ e ∈ (r.writtenFields t).entries, e.1.head? ≠ some '#'

namespace Record.IsSteady

variable {t : StatusTable} {r : Record}

/-- What a written heading says does not depend on its level. -/
theorem text (h : r.IsSteady t) :
    Heading.IsLine t r.status r.name r.title ∧
      '\r' ∉ Heading.writtenText t r.status r.name r.title ∧
      (Heading.ofText t (Text.trim (Heading.writtenText t r.status r.name r.title))).name =
        r.name := by
  obtain ⟨level, hline, hreturn, hname⟩ := h.heading
  rw [Heading.named?_eq, Option.map_map, Option.map_eq_some_iff] at hname
  obtain ⟨p, hsplit, hname⟩ := hname
  rw [Heading.write_eq] at hline hreturn hsplit
  have hne : Text.trim (Heading.writtenText t r.status r.name r.title) ≠ [] := by
    intro hnil
    rw [Heading.split?_replicate_of_blank _ hnil] at hsplit
    simp at hsplit
  rw [Heading.split?_replicate (by omega) (by omega) hne] at hsplit
  obtain rfl := Option.some.inj hsplit
  exact ⟨⟨fun hmem ↦ hline (by simp [hmem]), hne⟩, fun hmem ↦ hreturn (by simp [hmem]), hname⟩

theorem mem_blockLines (h : r.IsSteady t) {l : Text}
    (hl : l ∈ blockLines r.dialect (r.writtenFields t)) :
    l.IsLine ∧ Heading.isHeading l = false ∧ r.dialect.claims (Text.trim l) = true := by
  cases hempty : (r.writtenFields t).isEmpty with
  | true => simp [blockLines, hempty] at hl
  | false =>
    have hne := entries_ne_nil hempty
    rw [blockLines_of_not_isEmpty hempty] at hl
    refine ⟨isLine_of_mem_writtenLines h.dialect h.fields hne l hl,
      isHeading_of_mem_writtenLines h.dialect h.fields hne (fun hd e he ↦ ?_) l hl,
      claims_of_mem_writtenLines h.dialect h.fields hne h.keys l hl⟩
    apply Heading.isHeading_of_head?
    rw [head?_colonsLine (h.fields e he)]
    exact h.keys hd e he

theorem fits (h : r.IsSteady t) : r.Fits t :=
  ⟨h.text.1, fun _ hl ↦ ⟨(h.mem_blockLines hl).1.1, (h.mem_blockLines hl).2.1⟩⟩

theorem chomp_write (h : r.IsSteady t) (level : Nat) :
    Text.chomp (Heading.write t level r.status r.name r.title) =
      Heading.write t level r.status r.name r.title := by
  rw [Text.chomp_eq_self_iff]
  intro hsuffix
  have hmem := hsuffix.subset List.mem_cons_self
  rw [Heading.write_eq] at hmem
  simp [h.text.2.1] at hmem

end Record.IsSteady

namespace Section

variable {t : StatusTable} {s : Section} {A B records : List Record}

/-- Records whose names tell them apart. -/
def Distinct (records : List Record) : Prop :=
  ∀ r ∈ records, ∀ r' ∈ records, r.name = r'.name → r = r'

theorem distinct_of_nodup (h : (records.map (·.name)).Nodup) : Distinct records :=
  fun _ hr _ hr' ↦ List.inj_on_of_nodup_map h hr hr'

/-- A section is rewritten as the records say that have its name. -/
theorem rewrittenLines_congr (h : recordOf? t A s = recordOf? t B s) :
    rewrittenLines t A s = rewrittenLines t B s := by
  unfold rewrittenLines
  rw [h]

/-- Without carriage returns a section that is not rewritten is read as it is. -/
theorem renewed_of_none (hlines : ∀ l ∈ s.asLines, Text.chomp l = l)
    (h : recordOf? t A s = none) : renewed t A s = s := by
  have hmap : s.lines.map Text.chomp = s.lines := by
    rw [List.map_congr_left fun l hl ↦ hlines l (List.mem_cons_of_mem _ hl)]
    exact List.map_id _
  unfold renewed
  rw [h]
  simp only
  rw [hlines s.heading List.mem_cons_self, hmap]

/-- A section that was rewritten is read as it was written. -/
theorem asLines_renewed_of_isSteady (hs : s.IsCut) (hlines : ∀ l ∈ s.asLines, Text.chomp l = l)
    (hsteady : ∀ r ∈ A, r.IsSteady t) : (renewed t A s).asLines = rewrittenLines t A s := by
  have hself : ∀ l ∈ rewrittenLines t A s, Text.chomp l = l := by
    intro l hl
    cases hr : recordOf? t A s with
    | none =>
      rw [rewrittenLines_of_none hr] at hl
      exact hlines l hl
    | some p =>
      obtain ⟨level, r⟩ := p
      have h := hsteady r (name_of_recordOf? hs hr).2.2
      rw [rewrittenLines_of_recordOf? hr] at hl
      rcases List.mem_cons.1 hl with rfl | hl
      · exact h.chomp_write level
      · rcases mem_refilled hl with hl | hl
        · exact hlines l (List.mem_cons_of_mem _ hl)
        · exact (h.mem_blockLines hl).1.2
  rw [asLines_renewed, List.map_congr_left hself]
  exact List.map_id _

/-- Rewriting a section for some records and then for others is rewriting it for all of them. -/
theorem rewrittenLines_renewed (hs : s.IsCut) (hlines : ∀ l ∈ s.asLines, Text.chomp l = l)
    (hsteady : ∀ r ∈ A ++ B, r.IsSteady t) (hdistinct : Distinct (A ++ B)) :
    rewrittenLines t B (renewed t A s) = rewrittenLines t (A ++ B) s := by
  have hall := recordOf?_eq hs t (A ++ B)
  rw [List.find?_append] at hall
  cases hfind : A.find? fun r ↦ r.name = s.name t with
  | none =>
    have hnone : recordOf? t A s = none := by
      rw [recordOf?_eq hs, hfind]
      rfl
    rw [renewed_of_none hlines hnone]
    refine rewrittenLines_congr ?_
    rw [hall, hfind, Option.none_or, recordOf?_eq hs]
  | some r =>
    have hr : recordOf? t A s = some (s.level, r) := by
      rw [recordOf?_eq hs, hfind]
      rfl
    have hboth : rewrittenLines t (A ++ B) s = rewrittenLines t A s := by
      refine rewrittenLines_congr ?_
      rw [hr, hall, hfind]
      rfl
    have hA : ∀ r ∈ A, r.IsSteady t := fun r' hr' ↦ hsteady r' (List.mem_append_left B hr')
    have hmem : r ∈ A := List.mem_of_find?_eq_some hfind
    have hcut : (renewed t A s).IsCut :=
      isCut_renewed hs fun level r' hr' ↦ (hA r' (name_of_recordOf? hs hr').2.2).fits
    have hrenewed := asLines_renewed_of_isSteady hs hlines hA
    have hrecord := recordOf?_eq hcut t B
    have hname : (renewed t A s).name t = r.name := by
      rw [renewed_of_recordOf? hr]
      exact (hA r hmem).text.2.2
    rw [hname] at hrecord
    rw [hboth]
    cases hagain : B.find? fun r' ↦ r'.name = r.name with
    | none =>
      -- The section is some other record's turn.
      rw [hagain, Option.map_none] at hrecord
      rw [rewrittenLines_of_none hrecord, hrenewed]
    | some r' =>
      -- It is the turn of the same record once more.
      obtain rfl : r' = r := hdistinct r'
        (List.mem_append_right A (List.mem_of_find?_eq_some hagain)) r (List.mem_append_left B hmem)
        (by simpa using List.find?_some hagain)
      rw [hagain, Option.map_some, level_renewed] at hrecord
      rw [rewrittenLines_of_recordOf? hr] at hrenewed ⊢
      rw [rewrittenLines_of_recordOf? hrecord, (List.cons.inj hrenewed).2,
        refilled_refilled (hA r' hmem).dialect fun l hl ↦ ((hA r' hmem).mem_blockLines hl).2.2]

/-! ## Bodies and texts -/

variable {body : Text}

/-- The line of a section in its body has no part in rewriting it. -/
theorem flatMap_rewrittenLines_unnumbered (t : StatusTable) (B : List Record) (ss : List Section) :
    (ss.map unnumbered).flatMap (rewrittenLines t B) = ss.flatMap (rewrittenLines t B) := by
  rw [List.flatMap_map]
  rfl

theorem rewriteBody_rewriteBody (hne : body ≠ []) (hreturn : '\r' ∉ body)
    (hsteady : ∀ r ∈ A ++ B, r.IsSteady t) (hdistinct : Distinct (A ++ B)) :
    rewriteBody t B (rewriteBody t A body) = rewriteBody t (A ++ B) body := by
  have hchomp : ∀ l ∈ Text.lines body, Text.chomp l = l := by
    intro l hl
    rw [Text.chomp_eq_self_iff]
    exact fun hsuffix ↦ hreturn (Text.mem_of_mem_lines hl (hsuffix.subset List.mem_cons_self))
  rw [lines_eq_lead_append_cut] at hchomp
  have hlead : (lead body).map Text.chomp = lead body := by
    rw [List.map_congr_left fun l hl ↦ hchomp l (List.mem_append_left _ hl)]
    exact List.map_id _
  have hsection : ∀ s ∈ cut body, ∀ l ∈ s.asLines, Text.chomp l = l := fun s hs l hl ↦
    hchomp l (List.mem_append_right _ (List.mem_flatMap.2 ⟨s, hs, hl⟩))
  have hfits : ∀ s ∈ cut body, ∀ level r, recordOf? t A s = some (level, r) → r.Fits t :=
    fun s hs level r hr ↦ (hsteady r (List.mem_append_left B
      (name_of_recordOf? (isCut_of_mem_cut hs) hr).2.2)).fits
  have hne' : rewriteBody t A body ≠ [] := by simp [rewriteBody]
  have hlead' : lead (rewriteBody t A body) = lead body := by
    have hcuts : ∀ s' ∈ (cut body).map (renewed t A), s'.IsCut := by
      intro s' hs'
      obtain ⟨s, hs, rfl⟩ := List.mem_map.1 hs'
      exact isCut_renewed (isCut_of_mem_cut hs) (hfits s hs)
    unfold lead at hlead ⊢
    rw [lines_rewriteBody_of_fits hne hfits,
      takeWhile_append_sections (fun l hl ↦ isHeading_lead_chomp hl) hcuts]
    exact hlead
  have hcut : (cut (rewriteBody t A body)).flatMap (rewrittenLines t B) =
      (cut body).flatMap (rewrittenLines t (A ++ B)) := by
    rw [← flatMap_rewrittenLines_unnumbered, unnumbered_cut_rewriteBody hfits,
      flatMap_rewrittenLines_unnumbered, List.flatMap_map]
    exact List.flatMap_congr fun s hs ↦
      rewrittenLines_renewed (isCut_of_mem_cut hs) (hsection s hs) hsteady hdistinct
  rw [rewriteBody_eq hne', hlead', hcut, rewriteBody_eq hne]

end Section

variable {t : StatusTable} {A B records : List Record} {content : Text} {p : Preamble}

/-- Rewriting a text for some records and then for others is rewriting it for all of them. -/
theorem rewrite_rewrite (hsplit : Preamble.split? content = some p) (hbody : p.body ≠ [])
    (hreturn : '\r' ∉ content) (hsteady : ∀ r ∈ A ++ B, r.IsSteady t)
    (hdistinct : Distinct (A ++ B)) :
    rewrite t B (rewrite t A content) = rewrite t (A ++ B) content := by
  have hreturn' : '\r' ∉ p.body := by
    intro hmem
    rw [Preamble.lead_append_body hsplit] at hreturn
    exact hreturn (List.mem_append_right _ hmem)
  have hsplit' := Preamble.split?_lead_append hsplit
    (Preamble.lead_getLast?_of_body_ne_nil hsplit hbody) (rewriteBody t A p.body)
  rw [rewrite_eq hsplit, rewrite_eq hsplit', rewrite_eq hsplit,
    rewriteBody_rewriteBody hbody hreturn' hsteady hdistinct]

/-- The record of a name is the one that has it. -/
theorem Section.find?_name_eq_some_iff (h : Distinct records) {n : Text} {r : Record} :
    (records.find? fun r ↦ r.name = n) = some r ↔ r ∈ records ∧ r.name = n := by
  constructor
  · intro hfind
    exact ⟨List.mem_of_find?_eq_some hfind, by simpa using List.find?_some hfind⟩
  · rintro ⟨hr, rfl⟩
    obtain ⟨r', hfind⟩ : ∃ r', (records.find? fun x ↦ x.name = r.name) = some r' := by
      rw [← Option.isSome_iff_exists, List.find?_isSome]
      exact ⟨r, hr, decide_eq_true rfl⟩
    have hname : r'.name = r.name := by simpa using List.find?_some hfind
    rw [hfind, h r' (List.mem_of_find?_eq_some hfind) r hr hname]

/-- A text is rewritten in the same way for records that are the same ones in another order. -/
theorem rewrite_congr (hdistinct : Distinct records) (hmem : ∀ r, r ∈ A ↔ r ∈ records)
    (t : StatusTable) (content : Text) : rewrite t A content = rewrite t records content := by
  have hdistinct' : Distinct A := fun r hr r' hr' ↦
    hdistinct r ((hmem r).1 hr) r' ((hmem r').1 hr')
  have hfind (n : Text) : (A.find? fun r ↦ r.name = n) = records.find? fun r ↦ r.name = n := by
    refine Option.ext fun r ↦ ?_
    rw [find?_name_eq_some_iff hdistinct', find?_name_eq_some_iff hdistinct, hmem]
  have hrewritten : rewritten t A = rewritten t records := by
    funext s
    unfold rewritten recordOf? recordNamed?
    simp only [hfind]
  unfold rewrite
  simp only [rewriteBody_eq_unlines, hrewritten]

/-- Turns for some records at a time are together one for all of them, in whatever order they come
and however often a record has one. -/
theorem foldl_rewrite (turns : List (List Record)) (hsplit : Preamble.split? content = some p)
    (hbody : p.body ≠ []) (hreturn : '\r' ∉ content) (hsteady : ∀ r ∈ records, r.IsSteady t)
    (hdistinct : Distinct records) (hne : turns ≠ [])
    (hmem : ∀ r, r ∈ turns.flatten ↔ r ∈ records) :
    turns.foldl (fun c A ↦ rewrite t A c) content = rewrite t records content := by
  obtain ⟨A, turns, rfl⟩ := List.exists_cons_of_ne_nil hne
  -- What has been rewritten so far is rewritten for the records of one more turn.
  have hturns (A : List Record) (turns : List (List Record))
      (hmem : ∀ r ∈ A ++ turns.flatten, r ∈ records) :
      turns.foldl (fun c A ↦ rewrite t A c) (rewrite t A content) =
        rewrite t (A ++ turns.flatten) content := by
    induction turns generalizing A with
    | nil => simp
    | cons B turns ih =>
      rw [List.flatten_cons, ← List.append_assoc] at hmem ⊢
      have hsome : ∀ r ∈ A ++ B, r ∈ records := fun r hr ↦ hmem r (List.mem_append_left _ hr)
      rw [List.foldl_cons, rewrite_rewrite hsplit hbody hreturn (fun r hr ↦ hsteady r (hsome r hr))
        fun r hr r' hr' ↦ hdistinct r (hsome r hr) r' (hsome r' hr')]
      exact ih (A ++ B) hmem
  rw [List.foldl_cons, hturns A turns fun r hr ↦ (hmem r).1 hr]
  exact rewrite_congr hdistinct hmem t content

/-- A turn for each record. -/
theorem foldl_rewrite_each {order : List Record} (hsplit : Preamble.split? content = some p)
    (hbody : p.body ≠ []) (hreturn : '\r' ∉ content) (hsteady : ∀ r ∈ records, r.IsSteady t)
    (hdistinct : Distinct records) (hne : order ≠ []) (hmem : ∀ r, r ∈ order ↔ r ∈ records) :
    order.foldl (fun c r ↦ rewrite t [r] c) content = rewrite t records content := by
  have hturns := foldl_rewrite (order.map ([·])) hsplit hbody hreturn hsteady hdistinct
    (by simpa using hne) (by simpa using hmem)
  rwa [List.foldl_map] at hturns

end Markbook
