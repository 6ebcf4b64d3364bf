import Markbook.Proofs.Heading
import Markbook.Proofs.Status.Longest
import Markbook.Proofs.Text.Word

/-!
# Marked Headings

The heading of a status starts with the form the status is written in and a space, the lead.  It
says the status and the name whatever name of letters and digits stands behind the lead, exactly
when the lead alone says the status and no form goes beyond the lead into a name
(`Heading.headsNames_iff`).
-/

namespace Markbook.Heading

variable {t : StatusTable} {status : Option Text} {name title m s g : Text}

/-! ## Leads -/

/-- Headings for a status are read as the status and the name, whatever name they are for. -/
def HeadsNames (t : StatusTable) (status : Text) : Prop :=
  ∀ (level : Nat) (name title : Text), name ≠ [] → name.IsAlnum → ∃ text,
    split? (write t level (some status) name title) = some (max 1 (min level 6), text) ∧
      (ofText t text).status = some status ∧ (ofText t text).name = name

/-- What stands in front of the name in a heading that is marked with a form. -/
def markedLead (form : Text) : Text := Text.trimStart (form ++ [' '])

/-- A beginning of what a heading says behind its lead: a name of letters and digits, and perhaps a
title. -/
def BeginsName (g : Text) : Prop :=
  ∃ name title : Text, name ≠ [] ∧ name.IsAlnum ∧ g <+: titled name title

/-- A lead says a status by itself, and no form goes beyond it into a name. -/
structure IsLead (t : StatusTable) (lead status : Text) : Prop where
  own : ∃ form, t.marker? lead = some ⟨status, form, []⟩
  apart : ∀ e ∈ t.allForms, ∀ g, e.2 = lead ++ g → g ≠ [] → ¬ BeginsName g

/-! ## Written headings -/

theorem split?_write_eq (level : Nat) (h : Text.trim (writtenText t status name title) ≠ []) :
    split? (write t level status name title) =
      some (max 1 (min level 6), Text.trim (writtenText t status name title)) := by
  have hcount : hashes (write t level status name title) = max 1 (min level 6) := by
    rw [write_eq, hashes_append _ (by simp), hashes_replicate]
  have hdrop : (write t level status name title).drop (max 1 (min level 6)) =
      ' ' :: writtenText t status name title := by
    rw [write_eq]
    exact List.drop_left' List.length_replicate
  rw [split?_eq_some_iff, hcount, hdrop, Text.trim_cons_blank Text.isBlank_space]
  exact ⟨rfl, by omega, by omega, rfl, h⟩

theorem exists_titled_eq_cons (hne : name ≠ []) (h : name.IsAlnum) (title : Text) :
    ∃ c r, titled name title = c :: r ∧ c ∈ name ∧ Text.isBlank c = false := by
  obtain ⟨c, r, rfl⟩ := List.exists_cons_of_ne_nil hne
  exact ⟨c, _, rfl, List.mem_cons_self, Text.isBlank_of_isAlphanum (h c List.mem_cons_self)⟩

theorem trim_titled_isPrefix (hne : name ≠ []) (h : name.IsAlnum) (title : Text) :
    Text.trim (titled name title) <+: titled name title := by
  obtain ⟨c, r, hc, -, hblank⟩ := exists_titled_eq_cons hne h title
  refine Text.trim_isPrefix (Text.trimStart_eq_self_iff.2 ?_)
  simpa [hc] using hblank

theorem trim_writtenText (hmarker : marker? t status = some m) (hne : name ≠ [])
    (h : name.IsAlnum) (title : Text) :
    Text.trim (writtenText t status name title) =
      markedLead m ++ Text.trim (titled name title) := by
  obtain ⟨c, r, hc, -, hblank⟩ := exists_titled_eq_cons hne h title
  unfold writtenText markedLead
  rw [hmarker, hc, Text.trim_append_cons hblank, Text.trim_cons hblank]

theorem name_titled (h : name.IsAlnum) (title : Text) :
    (nameAndTitle (Text.trim (titled name title))).1 = name := by
  have hdash : emDash ∉ name := h.not_mem (by decide)
  have htrim : Text.trim name = name := h.isTrimmed
  have hhyphens : ¬ [' ', '-', '-', ' '] <:+: name := fun hin ↦
    h.not_mem (c := ' ') (by decide) (hin.subset List.mem_cons_self)
  unfold titled
  split
  · rw [List.append_nil, htrim, nameAndTitle_plain hdash hhyphens, htrim]
  · rw [nameAndTitle_spaced hdash, htrim]

/-! ## Telling the name from the lead -/

theorem IsLead.marker?_eq {lead status : Text} (h : IsLead t lead status) (hne : name ≠ [])
    (hname : name.IsAlnum) (title : Text) :
    ∃ form, t.marker? (lead ++ Text.trim (titled name title)) =
      some ⟨status, form, Text.trim (titled name title)⟩ := by
  obtain ⟨form, hown⟩ := h.own
  unfold StatusTable.marker? at hown
  obtain ⟨e, he, hmk⟩ := Option.map_eq_some_iff.1 hown
  obtain ⟨rfl, rfl, hrest⟩ := StatusTable.Marker.mk.inj hmk
  have htitled := trim_titled_isPrefix hne hname title
  have hapart : ∀ e ∈ t.allForms, ∀ g, e.2 = lead ++ g → g <+: Text.trim (titled name title) →
      g = [] := fun e he g hg hp ↦ by_contra fun hgne ↦
    h.apart e he g hg hgne ⟨name, title, hne, hname, hp.trans htitled⟩
  have hblank : ∀ c ∈ lead.drop e.2.length, Text.isBlank c := List.dropWhile_eq_nil_iff.1 hrest
  refine ⟨e.2, ?_⟩
  rw [StatusTable.marker?_append hapart, he, Option.map_some, Text.trimStart_append_blank hblank,
    (Text.isTrimmed_trim _).trimStart_eq]

theorem trim_writtenText_ne_nil (hmarker : marker? t status = some m) (hne : name ≠ [])
    (hname : name.IsAlnum) (title : Text) : Text.trim (writtenText t status name title) ≠ [] := by
  rw [trim_writtenText hmarker hne hname]
  intro hnil
  rw [List.append_eq_nil_iff] at hnil
  have hread := name_titled hname title
  rw [hnil.2] at hread
  exact hne hread.symm

/-- Behind a lead of its status a name is read as it was written. -/
theorem IsLead.headsNames {status : Text} (hmarker : marker? t (some status) = some m)
    (h : IsLead t (markedLead m) status) : HeadsNames t status := by
  intro level name title hne hname
  obtain ⟨form, hread⟩ := h.marker?_eq hne hname title
  refine ⟨_, split?_write_eq level (trim_writtenText_ne_nil hmarker hne hname title), ?_, ?_⟩
  · rw [ofText_status, trim_writtenText hmarker hne hname, hread]
    rfl
  · rw [ofText_name, trim_writtenText hmarker hne hname, StatusTable.strip, hread]
    exact name_titled hname title

/-! ## Telling the lead from the headings -/

theorem HeadsNames.ofText_eq {status : Text} (hmarker : marker? t (some status) = some m)
    (h : HeadsNames t status) (hne : name ≠ []) (hname : name.IsAlnum) (title : Text) :
    (t.marker? (markedLead m ++ Text.trim (titled name title))).map (·.status) = some status ∧
      (nameAndTitle (t.strip (markedLead m ++ Text.trim (titled name title)))).1 = name := by
  obtain ⟨text, hsplit, hstatus, hread⟩ := h 1 name title hne hname
  rw [split?_write_eq 1 (trim_writtenText_ne_nil hmarker hne hname title), Option.some.injEq,
    Prod.mk.injEq, trim_writtenText hmarker hne hname] at hsplit
  rw [← hsplit.2, ofText_status] at hstatus
  rw [← hsplit.2, ofText_name] at hread
  exact ⟨hstatus, hread⟩

/-- Some heading has only marks behind the text. -/
def EndsHeading (g : Text) : Prop :=
  ∃ name title w : Text, name ≠ [] ∧ name.IsAlnum ∧ Text.trim (titled name title) = g ++ w ∧
    ∀ c ∈ w, c.isAlphanum = false

theorem endsHeading_of_isAlnum (hne : g ≠ []) (h : g.IsAlnum) : EndsHeading g := by
  have htrim : Text.trim g = g := h.isTrimmed
  refine ⟨g, g, [], hne, h, ?_, by simp⟩
  rw [titled, if_pos rfl, List.append_nil, htrim]

/-- A title can go on with an exclamation mark. -/
theorem endsHeading_of_mark (hne : name ≠ []) (h : name.IsAlnum) (title : Text) {w : Text}
    (hg : name ++ ' ' :: emDash :: ' ' :: (title ++ ['!']) = g ++ w)
    (hw : ∀ c ∈ w, c.isAlphanum = false) : EndsHeading g := by
  have hdiffers : title ++ ['!'] ≠ name := by
    rintro rfl
    exact h.not_mem (c := '!') (by decide) (by simp)
  have hmark : Text.IsTrimmed ['!'] := by decide
  have htrim := h.isTrimmed.append hmark hne (by simp) (' ' :: emDash :: ' ' :: title)
  have hcat : name ++ (' ' :: emDash :: ' ' :: title) ++ ['!'] = g ++ w := by simpa using hg
  rw [hcat] at htrim
  refine ⟨name, title ++ ['!'], w, hne, h, ?_, hw⟩
  rw [titled, if_neg hdiffers, hg]
  exact htrim

theorem BeginsName.endsHeading (h : BeginsName g) (hne : g ≠ []) : EndsHeading g := by
  obtain ⟨name, title, hname, halnum, hp⟩ := h
  have hshort (hg : g <+: name) : EndsHeading g :=
    endsHeading_of_isAlnum hne fun c hc ↦ halnum c (hg.subset hc)
  unfold titled at hp
  rcases List.prefix_or_prefix_of_prefix hp (List.prefix_append name _) with hg | ⟨g, rfl⟩
  · exact hshort hg
  rw [List.prefix_append_right_inj] at hp
  split at hp
  · rw [List.prefix_nil] at hp
    exact hshort (by simp [hp])
  have hcat : ' ' :: emDash :: ' ' :: title = [' ', emDash, ' '] ++ title := rfl
  rw [hcat] at hp
  rcases List.prefix_or_prefix_of_prefix hp (List.prefix_append _ title) with ⟨r, hr⟩ | ⟨u, rfl⟩
  · have hmarks : ∀ c ∈ r ++ ['!'], c.isAlphanum = false := by
      have hall : ∀ c ∈ [' ', emDash, ' ', '!'], c.isAlphanum = false := by
        simpa using (by decide : [' ', emDash, ' ', '!'].any Char.isAlphanum = false)
      intro c hc
      refine hall c ?_
      have hc : c ∈ g ++ r ++ ['!'] := by
        rw [List.append_assoc]
        exact List.mem_append_right g hc
      rwa [hr] at hc
    refine endsHeading_of_mark hname halnum [] (w := r ++ ['!']) ?_ hmarks
    have hboth : g ++ (r ++ ['!']) = [' ', emDash, ' ', '!'] := by
      rw [← List.append_assoc, hr]
      rfl
    rw [List.append_assoc, hboth]
    rfl
  · have hmark : '!'.isAlphanum = false := by decide
    exact endsHeading_of_mark hname halnum u (w := ['!']) (by simp)
      (List.forall_mem_singleton.2 hmark)

/-- A form that goes beyond the lead takes from some name. -/
theorem HeadsNames.apart {status : Text} (hmarker : marker? t (some status) = some m)
    (h : HeadsNames t status) :
    ∀ e ∈ t.allForms, ∀ g, e.2 = markedLead m ++ g → g ≠ [] → ¬ BeginsName g := by
  intro e he g hg hgne hbegins
  obtain ⟨name, title, w, hne, hname, htitled, hw⟩ := hbegins.endsHeading hgne
  obtain ⟨hstatus, hread⟩ := h.ofText_eq hmarker hne hname title
  rw [htitled, ← List.append_assoc, ← hg] at hstatus hread
  obtain ⟨mk, hmk, -⟩ := Option.map_eq_some_iff.1 hstatus
  obtain ⟨e', he', rfl⟩ := Option.map_eq_some_iff.1 hmk
  have hene : e.2 ≠ [] := by simp [hg, hgne]
  obtain ⟨r, hr⟩ := StatusTable.prefix_of_longestForm? he' he hene (List.prefix_append _ w)
  have hrest : (e.2 ++ w).drop e'.2.length = w.drop r.length := by
    rw [← hr, List.length_append, ← List.drop_drop, List.drop_left]
  rw [StatusTable.strip, hmk] at hread
  simp only [hrest] at hread
  have hpart := (isNamed_nameAndTitle (Text.trimStart (w.drop r.length))).name_part
  rw [hread] at hpart
  obtain ⟨c, name, rfl⟩ := List.exists_cons_of_ne_nil hne
  have hc : c ∈ w := List.mem_of_mem_drop
    ((List.dropWhile_suffix _).subset (hpart.subset List.mem_cons_self))
  have halnum := hname c List.mem_cons_self
  rw [hw c hc] at halnum
  exact absurd halnum (by decide)

/-- What is left of a lead begins the name that is read behind it. -/
theorem head?_of_name_eq {y : Text} {c : Char} (hc : c.isAlphanum) (hy : Text.trimStart y ≠ [])
    (h : (nameAndTitle (Text.trimStart (y ++ [c]))).1 = [c]) :
    (Text.trimStart y).head? = some c := by
  have hcat : Text.trimStart (y ++ [c]) = Text.trimStart y ++ [c] := by
    unfold Text.trimStart at hy ⊢
    rw [List.dropWhile_append, if_neg (by simpa using hy)]
  have htrimmed : (Text.trimStart y ++ [c]).IsTrimmed := by
    rw [Text.isTrimmed_iff, List.head?_append_of_ne_nil _ hy, List.getLast?_concat]
    exact ⟨Text.head?_trimStart y, by simpa using Text.isBlank_of_isAlphanum hc⟩
  obtain ⟨d, r, hd⟩ := List.exists_cons_of_ne_nil hy
  have hp := name_isPrefix htrimmed
  rw [hcat] at h
  rw [h, hd, List.cons_append, List.cons_prefix_cons] at hp
  rw [hd, hp.1]
  rfl

/-- A rest of the lead would begin every name. -/
theorem HeadsNames.own {status : Text} (hmarker : marker? t (some status) = some m)
    (h : HeadsNames t status) : ∃ form, t.marker? (markedLead m) = some ⟨status, form, []⟩ := by
  have hapart (c : Char) (hc : Text.IsAlnum [c]) :
      ∀ e ∈ t.allForms, ∀ g, e.2 = markedLead m ++ g → g <+: [c] → g = [] :=
    fun e he g hg hp ↦ by_contra fun hgne ↦
      h.apart hmarker e he g hg hgne ⟨[c], [c], by simp, hc, by simpa [titled] using hp⟩
  have hread (c : Char) (hc : Text.IsAlnum [c]) :
      ∃ e, t.longestForm? (markedLead m) = some e ∧ e.1 = status ∧
        (nameAndTitle (Text.trimStart ((markedLead m).drop e.2.length ++ [c]))).1 = [c] := by
    have htrim : Text.trim (titled [c] [c]) = [c] := by
      have htrim : Text.trim [c] = [c] := hc.isTrimmed
      simpa [titled] using htrim
    obtain ⟨hstatus, hname⟩ := h.ofText_eq hmarker (by simp) hc [c]
    rw [htrim, StatusTable.marker?_append (hapart c hc)] at hstatus
    rw [htrim, StatusTable.strip, StatusTable.marker?_append (hapart c hc)] at hname
    obtain ⟨mk, hmk, hmks⟩ := Option.map_eq_some_iff.1 hstatus
    obtain ⟨e, he, rfl⟩ := Option.map_eq_some_iff.1 hmk
    rw [he] at hname
    exact ⟨e, he, hmks, hname⟩
  obtain ⟨e, he, rfl, hname⟩ := hread 'a' (by decide)
  obtain ⟨e', he', -, hname'⟩ := hread 'b' (by decide)
  obtain rfl : e = e' := Option.some.inj (he.symm.trans he')
  have hrest : Text.trimStart ((markedLead m).drop e.2.length) = [] := by
    by_contra hne
    have ha := head?_of_name_eq (by decide) hne hname
    have hb := head?_of_name_eq (by decide) hne hname'
    rw [ha] at hb
    exact absurd hb (by decide)
  refine ⟨e.2, ?_⟩
  unfold StatusTable.marker?
  rw [he, Option.map_some, hrest]

/-- A status is told from the names behind it exactly when its lead is its own. -/
theorem headsNames_iff {status : Text} (hmarker : marker? t (some status) = some m) :
    HeadsNames t status ↔ IsLead t (markedLead m) status :=
  ⟨fun h ↦ ⟨h.own hmarker, h.apart hmarker⟩, fun h ↦ h.headsNames hmarker⟩

end Markbook.Heading
