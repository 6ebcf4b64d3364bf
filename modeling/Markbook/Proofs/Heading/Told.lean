import Markbook.Proofs.Heading.Marked

/-!
# Headings Between Tables

A heading may be written with one status table and read with another one.  It says the same to the
reader in two cases (`Heading.isTold_iff`): without a status, when no form of the reader begins the
name; and with a status that the writer has a form for, when the reader takes the form for that
status and leaves name and title.
-/

namespace Markbook.Heading

variable {t u : StatusTable} {given : Option Text} {name title rest : Text}

/-- A heading that is written with the table `t` says the same when it is read with the table
`u`. -/
def IsTold (t u : StatusTable) (given : Option Text) (name title : Text) : Prop :=
  match given with
  | none => ∀ e ∈ u.allForms, e.2 ≠ [] → ¬ e.2 <+: Text.trim (titled name title)
  | some s => ∃ m form rest, marker? t (some s) = some m ∧
      u.marker? (markedLead m ++ Text.trim (titled name title)) =
        some ⟨t.canonical s, form, rest⟩ ∧
      nameAndTitle rest = (name, title)

theorem nameAndTitle_titled_alnum (hname : name.IsAlnum) (htitle : title.IsAlnum) :
    nameAndTitle (Text.trim (titled name title)) = (name, title) := by
  refine nameAndTitle_titled hname.isTrimmed (hname.not_mem (by decide)) htitle.isTrimmed ?_
  exact fun _ hin ↦ hname.not_mem (c := ' ') (by decide) (hin.subset List.mem_cons_self)

theorem nameAndTitle_of_alnum_or_space (h : ∀ c ∈ rest, c = ' ' ∨ c.isAlphanum) :
    nameAndTitle rest = (Text.trim rest, Text.trim rest) := by
  have hnot {c : Char} (hspace : c ≠ ' ') (hc : c.isAlphanum = false) : c ∉ rest := by
    intro hmem
    rcases h c hmem with rfl | hc'
    · exact hspace rfl
    · rw [hc'] at hc
      exact absurd hc (by decide)
  refine nameAndTitle_plain (hnot (by decide) (by decide)) fun hin ↦ ?_
  exact hnot (c := '-') (by decide) (by decide) (hin.subset (by decide))

theorem space_or_isAlphanum_of_mem {c : Char} (htitle : title.IsAlnum)
    (hc : c ∈ Text.trimEnd (' ' :: title)) : c = ' ' ∨ c.isAlphanum := by
  obtain ⟨b, -, hb⟩ := Text.exists_trimEnd (' ' :: title)
  have hmem : c ∈ ' ' :: title := by
    rw [hb]
    exact List.mem_append_left b hc
  exact (List.mem_cons.1 hmem).imp_right (htitle c)

theorem trim_titled_of_ne (hne : name ≠ []) (hname : name.IsAlnum) (h : title ≠ name) :
    Text.trim (titled name title) = name ++ ' ' :: emDash :: Text.trimEnd (' ' :: title) := by
  have hcat : titled name title = (name ++ [' ']) ++ emDash :: ' ' :: title := by simp [titled, h]
  have hnamed : Text.trimStart (name ++ [' ']) = name ++ [' '] := by
    rw [Text.trimStart_eq_self_iff, List.head?_append_of_ne_nil _ hne]
    exact (Text.isTrimmed_iff.1 hname.isTrimmed).1
  rw [hcat, Text.trim_append_cons (by decide), hnamed]
  simp

/-- Without its beginning a text of a name and a title says another name or another title. -/
theorem nameAndTitle_suffix_ne (hne : name ≠ []) (hname : name.IsAlnum) (htitle : title.IsAlnum)
    (hrest : rest <:+ Text.trim (titled name title))
    (hproper : rest ≠ Text.trim (titled name title))
    (hstart : rest.head? ≠ some ' ') : nameAndTitle rest ≠ (name, title) := by
  intro hsaid
  have htrim : Text.trim name = name := hname.isTrimmed
  by_cases heq : title = name
  · have htext : Text.trim (titled name title) = name := by
      rw [titled, if_pos heq, List.append_nil, htrim]
    rw [htext] at hrest hproper
    have hpart := (isNamed_nameAndTitle rest).name_part
    rw [hsaid] at hpart
    exact hproper (hrest.eq_of_length_le hpart.length_le)
  rw [trim_titled_of_ne hne hname heq] at hrest hproper
  obtain ⟨x, hx⟩ := hrest
  rcases List.append_eq_append_iff.1 hx with ⟨z, hz, hr⟩ | ⟨z, -, hr⟩
  · -- What is left of the name is too short.
    have hzalnum : Text.IsAlnum z := fun c hc ↦ hname c (by simp [hz, hc])
    have hztrim : Text.trim z = z := hzalnum.isTrimmed
    have hdash : emDash ∉ z ++ [' '] := by
      simpa [emDash] using hzalnum.not_mem (c := emDash) (by decide)
    have hcat : rest = (z ++ [' ']) ++ emDash :: Text.trimEnd (' ' :: title) := by simp [hr]
    rw [hcat, nameAndTitle_of_dash hdash, Text.trim_concat_blank Text.isBlank_space, hztrim,
      Prod.mk.injEq] at hsaid
    rw [hsaid.1] at hr
    exact hproper hr
  · -- Nothing is left of the name.
    rcases z with _ | ⟨c, _ | ⟨d, z⟩⟩
    · rw [List.nil_append] at hr
      rw [← hr] at hstart
      exact hstart rfl
    · simp only [List.cons_append, List.nil_append, List.cons.injEq] at hr
      rw [← hr.2] at hsaid
      have hnil := nameAndTitle_of_dash (a := []) (by simp) (Text.trimEnd (' ' :: title))
      rw [List.nil_append, hsaid, Prod.mk.injEq] at hnil
      exact hne hnil.1
    · simp only [List.cons_append, List.cons.injEq] at hr
      have hmem : ∀ c ∈ rest, c = ' ' ∨ c.isAlphanum := fun c hc ↦
        space_or_isAlphanum_of_mem htitle (hr.2.2 ▸ List.mem_append_right z hc)
      rw [nameAndTitle_of_alnum_or_space hmem, Prod.mk.injEq] at hsaid
      exact heq (hsaid.2.symm.trans hsaid.1)

/-- What a reader takes a heading for that is written with another table. -/
structure Says (u : StatusTable) (text : Text) (status : Option Text)
    (name title : Text) : Prop where
  name_eq : (ofText u text).name = name
  title_eq : (ofText u text).title = title
  status_eq : (ofText u text).status = status

theorem says_iff {text : Text} {status : Option Text} :
    Says u text status name title ↔
      nameAndTitle (u.strip text) = (name, title) ∧ (u.marker? text).map (·.status) = status := by
  rw [← ofText_status, Prod.ext_iff, ← ofText_name, ← ofText_title]
  exact ⟨fun h ↦ ⟨⟨h.1, h.2⟩, h.3⟩, fun h ↦ ⟨h.1.1, h.1.2, h.2⟩⟩

/-- A text that starts with a name and has a marker says another name or another title. -/
theorem nameAndTitle_rest_ne (hne : name ≠ []) (hname : name.IsAlnum) (htitle : title.IsAlnum)
    {mk : StatusTable.Marker} (h : u.marker? (Text.trim (titled name title)) = some mk) :
    nameAndTitle mk.rest ≠ (name, title) := by
  obtain ⟨e, he, rfl⟩ := Option.map_eq_some_iff.1 h
  obtain ⟨-, hform, hp⟩ := StatusTable.mem_of_longestForm? he
  have hsuffix := List.dropWhile_suffix Text.isBlank
    (l := (Text.trim (titled name title)).drop e.2.length)
  refine nameAndTitle_suffix_ne hne hname htitle (hsuffix.trans (List.drop_suffix _ _)) ?_ ?_
  · intro heq
    have hle := hsuffix.length_le
    have hpos := List.length_pos_iff.2 hform
    have hlen := hp.length_le
    have heq := congrArg List.length heq
    simp only [Text.trimStart] at heq
    rw [heq, List.length_drop] at hle
    omega
  · intro hblank
    have hhead := Text.head?_trimStart _ ' ' hblank
    exact absurd hhead (by decide)

/-- When a heading says the same to a reader with another table. -/
theorem isTold_iff (hne : name ≠ []) (hname : name.IsAlnum) (htitle : title.IsAlnum) :
    Says u (Text.trim (writtenText t given name title)) (given.map t.canonical) name title ↔
      IsTold t u given name title := by
  rw [says_iff]
  cases hmarker : marker? t given with
  | some m =>
    obtain ⟨s, rfl, -⟩ := Option.bind_eq_some_iff.1 hmarker
    rw [trim_writtenText hmarker hne hname, Option.map_some]
    constructor
    · rintro ⟨hsaid, hstatus⟩
      obtain ⟨⟨status, form, rest⟩, hmk, hmks⟩ := Option.map_eq_some_iff.1 hstatus
      rw [StatusTable.strip, hmk] at hsaid
      subst hmks
      exact ⟨m, form, rest, hmarker, hmk, hsaid⟩
    · rintro ⟨m', form, rest, hm', hread, hsaid⟩
      obtain rfl : m = m' := Option.some.inj (hmarker.symm.trans hm')
      rw [StatusTable.strip, hread]
      exact ⟨hsaid, rfl⟩
  | none =>
    have htext : writtenText t given name title = titled name title := by
      unfold writtenText
      rw [hmarker]
      rfl
    rw [htext]
    cases given with
    | none =>
      change _ ↔ ∀ e ∈ u.allForms, e.2 ≠ [] → ¬ e.2 <+: Text.trim (titled name title)
      rw [← StatusTable.marker?_eq_none_iff, Option.map_none, Option.map_eq_none_iff]
      refine and_iff_right_of_imp fun hnone ↦ ?_
      rw [StatusTable.strip, hnone]
      exact nameAndTitle_titled_alnum hname htitle
    | some s =>
      -- The status is lost, and a form that the name starts with costs the name.
      refine iff_of_false ?_ ?_
      · rintro ⟨hsaid, hstatus⟩
        obtain ⟨mk, hmk, -⟩ := Option.map_eq_some_iff.1 hstatus
        rw [StatusTable.strip, hmk] at hsaid
        exact nameAndTitle_rest_ne hne hname htitle hmk hsaid
      · rintro ⟨m, -, -, hm, -, -⟩
        rw [hmarker] at hm
        simp at hm

end Markbook.Heading
