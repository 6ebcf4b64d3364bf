import Markbook.Heading
import Markbook.Proofs.Status
import Markbook.Proofs.Text.Cut

/-!
# Written Headings

A heading that is written for a status, a name and a title is read back as the same three when no
mark of the format is hidden in them (`Heading.ReadsBack`).  With the built-in table the form of the
status is always told from the name (`Heading.isApart_builtIn`), and one mark is left: a title that
equals the name is not written, so a name with two spaced hyphens is cut there
(`Heading.name_ne_of_hyphens`).
-/

namespace Markbook.Heading

/-! ## Hashes -/

/-- The number of hashes that a text starts with. -/
def hashes (s : Text) : Nat := (s.takeWhile (· = '#')).length

theorem split?_eq_some_iff {line text : Text} {level : Nat} :
    split? line = some (level, text) ↔
      level = hashes line ∧ 1 ≤ level ∧ level ≤ 6 ∧ text = Text.trim (line.drop level) ∧
        text ≠ [] := by
  unfold split?
  simp only [Bool.or_eq_true, decide_eq_true_eq, List.isEmpty_iff]
  change (if (hashes line = 0 ∨ 6 < hashes line) ∨ Text.trim (line.drop (hashes line)) = []
    then none
    else some (hashes line, Text.trim (line.drop (hashes line)))) = _ ↔ _
  split
  · next h =>
    constructor
    · simp
    · rintro ⟨rfl, h1, h6, rfl, hne⟩
      rcases h with (h | h) | h
      · omega
      · omega
      · exact absurd h hne
  · next h =>
    rw [not_or, not_or] at h
    constructor
    · intro heq
      simp only [Option.some.injEq, Prod.mk.injEq] at heq
      obtain ⟨rfl, rfl⟩ := heq
      exact ⟨rfl, by omega, by omega, rfl, h.2⟩
    · rintro ⟨rfl, -, -, rfl, -⟩
      rfl

theorem hashes_append (a : Text) {b : Text} (h : b.head? ≠ some '#') :
    hashes (a ++ b) = hashes a := by
  have hb : b.takeWhile (· = '#') = [] := by
    cases b with
    | nil => rfl
    | cons c r =>
      have hc : c ≠ '#' := by
        rintro rfl
        exact h rfl
      simp [hc]
  unfold hashes
  rw [List.takeWhile_append, hb]
  split <;> simp_all

/-- The blanks at the end of a text are no hashes. -/
theorem hashes_trimEnd (s : Text) : hashes (Text.trimEnd s) = hashes s := by
  obtain ⟨b, hb, hs⟩ := Text.exists_trimEnd s
  have hhead : b.head? ≠ some '#' := fun hhead ↦
    absurd (hb '#' (List.mem_of_head? hhead)) (by decide)
  conv_rhs => rw [hs, hashes_append _ hhead]

theorem hashes_replicate (n : Nat) : hashes (List.replicate n '#') = n := by
  simp [hashes]

/-- Only the trimmed line counts. -/
theorem isHeading_congr {a b : Text} (h : Text.trim a = Text.trim b) :
    isHeading a = isHeading b := by
  unfold isHeading
  rw [h]

theorem isHeading_chomp (l : Text) : isHeading (Text.chomp l) = isHeading l :=
  isHeading_congr (Text.trim_chomp l)

theorem isHeading_eq_false_iff {l : Text} :
    isHeading l = false ↔ split? (Text.trim l) = none := by
  unfold isHeading
  rw [Option.isSome_eq_false_iff, Option.isNone_iff_eq_none]

theorem isHeading_of_split? {l : Text} {p : Nat × Text} (h : split? (Text.trim l) = some p) :
    isHeading l = true := by
  unfold isHeading
  rw [h]
  rfl

theorem isHeading_of_named? {t : StatusTable} {l : Text} {p : Nat × Text}
    (h : named? t l = some p) :
    isHeading l = true := by
  obtain ⟨q, hsplit, -⟩ := Option.map_eq_some_iff.1 h
  exact isHeading_of_split? hsplit

/-- A line without hashes, or with too many, is no heading. -/
theorem isHeading_of_hashes {l : Text} (h : hashes (Text.trim l) = 0 ∨ 6 < hashes (Text.trim l)) :
    isHeading l = false := by
  rw [isHeading_eq_false_iff, Option.eq_none_iff_forall_ne_some]
  rintro ⟨level, text⟩ heq
  obtain ⟨rfl, h1, h6, -, -⟩ := split?_eq_some_iff.1 heq
  omega

theorem isHeading_of_head? {l : Text} (h : (Text.trim l).head? ≠ some '#') :
    isHeading l = false := by
  refine isHeading_of_hashes (.inl ?_)
  have := hashes_append [] h
  simpa [hashes] using this

/-- A line that says anything but hashes is a heading, unless it has none or too many of them. -/
theorem hashes_of_isHeading {l : Text} (h : isHeading l = false) {c : Char} (hc : c ∈ Text.trim l)
    (hhash : c ≠ '#') (hblank : Text.isBlank c = false) :
    hashes (Text.trim l) = 0 ∨ 6 < hashes (Text.trim l) := by
  by_contra hcount
  rw [not_or] at hcount
  have hrest : Text.trim ((Text.trim l).drop (hashes (Text.trim l))) ≠ [] := by
    intro hnil
    have hdrop : c ∈ (Text.trim l).drop (hashes (Text.trim l)) := by
      have hsplit := List.takeWhile_append_dropWhile (p := (· = '#')) (l := Text.trim l)
      have hlong :
          (Text.trim l).drop (hashes (Text.trim l)) = (Text.trim l).dropWhile (· = '#') := by
        have hleft : ((Text.trim l).takeWhile (· = '#') ++ (Text.trim l).dropWhile (· = '#')).drop
            (hashes (Text.trim l)) = (Text.trim l).dropWhile (· = '#') := List.drop_left
        rwa [hsplit] at hleft
      rw [hlong]
      rw [← hsplit, List.mem_append] at hc
      rcases hc with hc | hc
      · have := List.mem_takeWhile_imp hc
        exact absurd (by simpa using this) hhash
      · exact hc
    have := Text.trim_eq_nil_iff.1 hnil c hdrop
    rw [hblank] at this
    simp at this
  have hsplit : split? (Text.trim l) =
      some (hashes (Text.trim l), Text.trim ((Text.trim l).drop (hashes (Text.trim l)))) :=
    split?_eq_some_iff.2 ⟨rfl, by omega, by omega, rfl, hrest⟩
  rw [isHeading_eq_false_iff.1 h] at hsplit
  simp at hsplit

theorem split?_replicate {n : Nat} (h1 : 1 ≤ n) (h6 : n ≤ 6) {s : Text} (hs : Text.trim s ≠ []) :
    split? (Text.trim (List.replicate n '#' ++ ' ' :: s)) = some (n, Text.trim s) := by
  obtain ⟨c, hc, hblank⟩ : ∃ c ∈ s, Text.isBlank c = false := by
    by_contra hall
    refine hs (Text.trim_eq_nil_iff.2 fun c hc ↦ ?_)
    by_contra hblank
    exact hall ⟨c, hc, by simpa using hblank⟩
  obtain ⟨a, b, rfl⟩ := List.append_of_mem hc
  have hstart : Text.trimStart (List.replicate n '#' ++ ' ' :: a) =
      List.replicate n '#' ++ ' ' :: a := by
    rw [Text.trimStart_eq_self_iff]
    intro d hd
    rw [List.head?_append_of_ne_nil _ (by simp; omega), List.head?_replicate] at hd
    simp only [Option.mem_def, Option.ite_none_left_eq_some, Option.some.injEq] at hd
    rw [← hd.2]
    decide
  have htrim : Text.trim (List.replicate n '#' ++ ' ' :: (a ++ c :: b)) =
      List.replicate n '#' ++ ' ' :: (a ++ c :: Text.trimEnd b) := by
    have hcons : List.replicate n '#' ++ ' ' :: (a ++ c :: b) =
        (List.replicate n '#' ++ ' ' :: a) ++ c :: b := by simp
    rw [hcons, Text.trim_append_cons hblank, hstart]
    simp
  have hrest : Text.trim (' ' :: (a ++ c :: Text.trimEnd b)) = Text.trim (a ++ c :: b) := by
    have hend : Text.trimEnd (Text.trimEnd b) = Text.trimEnd b :=
      List.rdropWhile_idempotent _ _
    rw [Text.trim_cons_blank Text.isBlank_space, Text.trim_append_cons hblank,
      Text.trim_append_cons hblank, hend]
  have hcount : hashes (List.replicate n '#' ++ ' ' :: (a ++ c :: Text.trimEnd b)) = n := by
    rw [hashes_append _ (by simp), hashes_replicate]
  have hdrop : (List.replicate n '#' ++ ' ' :: (a ++ c :: Text.trimEnd b)).drop n =
      ' ' :: (a ++ c :: Text.trimEnd b) := List.drop_left' List.length_replicate
  rw [htrim, split?_eq_some_iff, hcount, hdrop, hrest]
  exact ⟨rfl, h1, h6, rfl, hs⟩

/-- Hashes alone are no heading. -/
theorem split?_replicate_of_blank (n : Nat) {s : Text} (hs : Text.trim s = []) :
    split? (Text.trim (List.replicate n '#' ++ ' ' :: s)) = none := by
  have hblank : ∀ c ∈ ' ' :: s, Text.isBlank c := by
    rw [← Text.trim_eq_nil_iff, Text.trim_cons_blank Text.isBlank_space, hs]
  have hhash : ∀ c ∈ List.replicate n '#', Text.isBlank c = false := by
    intro c hc
    rw [List.eq_of_mem_replicate hc]
    decide
  have htrimmed : Text.trim (List.replicate n '#') = List.replicate n '#' := by
    rw [← Text.IsTrimmed, Text.isTrimmed_iff]
    exact ⟨fun c hc ↦ hhash c (List.mem_of_head? hc), fun c hc ↦ hhash c (List.mem_of_getLast? hc)⟩
  have htrim : Text.trim (List.replicate n '#' ++ ' ' :: s) = List.replicate n '#' := by
    have h := Text.trim_append_blank (a := []) (by simp) hblank (List.replicate n '#')
    rwa [List.nil_append, htrimmed] at h
  rw [htrim, Option.eq_none_iff_forall_ne_some]
  rintro ⟨level, text⟩ heq
  obtain ⟨rfl, -, -, rfl, hne⟩ := split?_eq_some_iff.1 heq
  rw [hashes_replicate, List.drop_eq_nil_of_le (by simp)] at hne
  exact hne rfl

/-! ## Names and titles -/

theorem nameAndTitle_of_dash {a : Text} (h : emDash ∉ a) (b : Text) :
    nameAndTitle (a ++ emDash :: b) = (Text.trim a, Text.trim b) := by
  unfold nameAndTitle
  rw [Text.cut?_single h]

theorem nameAndTitle_plain {s : Text} (hdash : emDash ∉ s)
    (hhyphens : ¬ [' ', '-', '-', ' '] <:+: s) :
    nameAndTitle s = (Text.trim s, Text.trim s) := by
  unfold nameAndTitle
  rw [Text.cut?_single_eq_none.2 hdash, Text.cut?_eq_none_iff.2 hhyphens]

/-- The spaces around an em dash belong to neither the name nor the title. -/
theorem nameAndTitle_spaced {name : Text} (hdash : emDash ∉ name) (title : Text) :
    nameAndTitle (Text.trim (name ++ ' ' :: emDash :: ' ' :: title)) =
      (Text.trim name, Text.trim title) := by
  have hcat :
      name ++ ' ' :: emDash :: ' ' :: title = (name ++ [' ']) ++ emDash :: ' ' :: title := by
    simp
  have hnot : emDash ∉ Text.trimStart (name ++ [' ']) := by
    intro hmem
    have hmem := (List.dropWhile_suffix _).subset hmem
    rw [List.mem_append, List.mem_singleton] at hmem
    exact hmem.elim hdash (by decide)
  rw [hcat, Text.trim_append_cons (by decide), nameAndTitle_of_dash hnot, Text.trim_trimStart,
    Text.trim_trimEnd, Text.trim_concat_blank Text.isBlank_space,
    Text.trim_cons_blank Text.isBlank_space]

/-- A name and a title as they stand behind the marker of a heading. -/
def titled (name title : Text) : Text :=
  name ++ if title = name then [] else ' ' :: emDash :: ' ' :: title

theorem nameAndTitle_titled {name title : Text} (hname : name.IsTrimmed) (hdash : emDash ∉ name)
    (htitle : title.IsTrimmed) (hhyphens : title = name → ¬ [' ', '-', '-', ' '] <:+: name) :
    nameAndTitle (Text.trim (titled name title)) = (name, title) := by
  have hname' : Text.trim name = name := hname
  have htitle' : Text.trim title = title := htitle
  unfold titled
  split
  · next heq =>
    rw [List.append_nil, hname', nameAndTitle_plain hdash (hhyphens heq), hname', heq]
  · rw [nameAndTitle_spaced hdash, hname', htitle']

/-- What a text says as name and title has no blanks at its ends, and the name has no em dash. -/
structure IsNamed (s name title : Text) : Prop where
  name_trimmed : name.IsTrimmed
  title_trimmed : title.IsTrimmed
  no_dash : emDash ∉ name
  name_part : name <:+: s
  title_part : title <:+: s

theorem isNamed_nameAndTitle (s : Text) : IsNamed s (nameAndTitle s).1 (nameAndTitle s).2 := by
  have hparts {a b mark : Text} (heq : s = a ++ mark ++ b) (hdash : emDash ∉ a) :
      IsNamed s (Text.trim a) (Text.trim b) := by
    refine ⟨Text.isTrimmed_trim a, Text.isTrimmed_trim b, fun h ↦ hdash (Text.mem_of_mem_trim h),
      (Text.trim_isInfix a).trans ⟨[], mark ++ b, by simp [heq]⟩,
      (Text.trim_isInfix b).trans ⟨a ++ mark, [], by simp [heq]⟩⟩
  unfold nameAndTitle
  cases hdash : Text.cut? [emDash] s with
  | some p =>
    obtain ⟨a, b⟩ := p
    have hnot := Text.not_infix_of_cut? (by simp) hdash
    exact hparts (Text.eq_of_cut? hdash)
      (Text.cut?_single_eq_none.1 (Text.cut?_eq_none_iff.2 hnot))
  | none =>
    have hnot : emDash ∉ s := Text.cut?_single_eq_none.1 hdash
    cases hcut : Text.cut? [' ', '-', '-', ' '] s with
    | some p =>
      obtain ⟨a, b⟩ := p
      have heq := Text.eq_of_cut? hcut
      refine hparts heq fun h ↦ hnot ?_
      rw [heq]
      simp [h]
    | none =>
      exact ⟨Text.isTrimmed_trim s, Text.isTrimmed_trim s, fun h ↦ hnot (Text.mem_of_mem_trim h),
        Text.trim_isInfix s, Text.trim_isInfix s⟩

/-- The name begins a trimmed text. -/
theorem name_isPrefix {s : Text} (h : s.IsTrimmed) : (nameAndTitle s).1 <+: s := by
  have hparts {a b : Text} (heq : s = a ++ b) : Text.trim a <+: s := by
    rw [heq] at h ⊢
    exact (Text.trim_isPrefix h.trimStart_of_append).trans (List.prefix_append a b)
  unfold nameAndTitle
  cases hdash : Text.cut? [emDash] s with
  | some p =>
    have heq := Text.eq_of_cut? hdash
    rw [List.append_assoc] at heq
    exact hparts heq
  | none =>
    cases hcut : Text.cut? [' ', '-', '-', ' '] s with
    | some p =>
      have heq := Text.eq_of_cut? hcut
      rw [List.append_assoc] at heq
      exact hparts heq
    | none => exact hparts (b := []) (by simp)

/-- Without an em dash a name ends before the first two spaced hyphens. -/
theorem not_hyphens_infix_name {s : Text} (h : emDash ∉ s) :
    ¬ [' ', '-', '-', ' '] <:+: (nameAndTitle s).1 := by
  unfold nameAndTitle
  rw [Text.cut?_single_eq_none.2 h]
  cases hcut : Text.cut? [' ', '-', '-', ' '] s with
  | some p =>
    have hnot := Text.not_infix_of_cut? (by simp) hcut
    exact fun hin ↦ hnot (hin.trans (Text.trim_isInfix p.1))
  | none =>
    have hnot := Text.cut?_eq_none_iff.1 hcut
    exact fun hin ↦ hnot (hin.trans (Text.trim_isInfix s))

/-! ## The text of a heading -/

variable {t : StatusTable}

theorem ofText_name (t : StatusTable) (s : Text) :
    (ofText t s).name = (nameAndTitle (t.strip s)).1 := by
  unfold ofText StatusTable.strip
  cases t.marker? s <;> rfl

theorem ofText_title (t : StatusTable) (s : Text) :
    (ofText t s).title = (nameAndTitle (t.strip s)).2 := by
  unfold ofText StatusTable.strip
  cases t.marker? s <;> rfl

theorem ofText_status (t : StatusTable) (s : Text) :
    (ofText t s).status = (t.marker? s).map (·.status) := by
  unfold ofText
  cases t.marker? s <;> rfl

/-- The name of a line that is a heading is that of its text. -/
theorem named?_eq (t : StatusTable) (line : Text) :
    named? t line = (split? (Text.trim line)).map fun p ↦ (p.1, (ofText t p.2).name) := by
  unfold named?
  congr 1
  funext p
  rw [ofText_name]

theorem strip_isInfix (t : StatusTable) (s : Text) : t.strip s <:+: s := by
  unfold StatusTable.strip
  split
  · next m hm =>
    unfold StatusTable.marker? at hm
    obtain ⟨e, -, rfl⟩ := Option.map_eq_some_iff.1 hm
    exact (List.dropWhile_suffix _).isInfix.trans (List.drop_suffix _ _).isInfix
  · exact List.infix_refl s

theorem isNamed_ofText (t : StatusTable) (s : Text) :
    IsNamed s (ofText t s).name (ofText t s).title := by
  rw [ofText_name, ofText_title]
  obtain ⟨hname, htitle, hdash, hnamePart, htitlePart⟩ := isNamed_nameAndTitle (t.strip s)
  exact ⟨hname, htitle, hdash, hnamePart.trans (strip_isInfix t s),
    htitlePart.trans (strip_isInfix t s)⟩

/-- No form begins the name of a heading without a status. -/
theorem not_form_prefix_name {s : Text} (hs : s.IsTrimmed) (h : (ofText t s).status = none) :
    ∀ e ∈ t.allForms, e.2 ≠ [] → ¬ e.2 <+: (ofText t s).name := by
  rw [ofText_status, Option.map_eq_none_iff] at h
  intro e he hne hp
  rw [ofText_name] at hp
  unfold StatusTable.strip at hp
  rw [h] at hp
  exact StatusTable.marker?_eq_none_iff.1 h e he hne (hp.trans (name_isPrefix hs))

/-! ## Written and read again -/

/-- The text of a written heading behind its hashes and the space after them. -/
def writtenText (t : StatusTable) (status : Option Text) (name title : Text) : Text :=
  (match marker? t status with
    | some m => m ++ [' ']
    | none => []) ++ titled name title

theorem write_eq (t : StatusTable) (level : Nat) (status : Option Text) (name title : Text) :
    write t level status name title =
      List.replicate (max 1 (min level 6)) '#' ++ ' ' :: writtenText t status name title := by
  unfold write writtenText titled
  cases marker? t status <;> simp

/-- A written heading is one line with a text behind its hashes. -/
structure IsLine (t : StatusTable) (status : Option Text) (name title : Text) : Prop where
  line : '\n' ∉ writtenText t status name title
  text_ne : Text.trim (writtenText t status name title) ≠ []

/-- A written heading says the same when it is read: a status that has a form, the name and the
title. -/
structure ReadsBack (t : StatusTable) (status : Option Text) (name title : Text) : Prop where
  name_eq : (ofText t (Text.trim (writtenText t status name title))).name = name
  title_eq : (ofText t (Text.trim (writtenText t status name title))).title = title
  status_eq : (ofText t (Text.trim (writtenText t status name title))).status =
    if (marker? t status).isSome then status else none

variable {status : Option Text} {name title : Text}

theorem split?_write {level : Nat} (h1 : 1 ≤ level) (h6 : level ≤ 6)
    (h : IsLine t status name title) :
    split? (Text.trim (write t level status name title)) =
      some (level, Text.trim (writtenText t status name title)) := by
  have hlevel : max 1 (min level 6) = level := by omega
  rw [write_eq, hlevel, split?_replicate h1 h6 h.text_ne]

theorem newline_not_mem_write (level : Nat) (h : IsLine t status name title) :
    '\n' ∉ write t level status name title := by
  rw [write_eq]
  simp [h.line]

/-- A name and a title as a heading has them: a name without an em dash, both trimmed lines. -/
structure IsPlain (name title : Text) : Prop where
  name_ne : name ≠ []
  name_trimmed : name.IsTrimmed
  name_line : '\n' ∉ name
  no_dash : emDash ∉ name
  title_trimmed : title.IsTrimmed
  title_line : '\n' ∉ title

/-- A name and a title that a heading can hold: no spaced hyphens are in a name that is its own
title. -/
structure IsWritable (name title : Text) : Prop extends IsPlain name title where
  no_hyphens : title = name → ¬ [' ', '-', '-', ' '] <:+: name

theorem IsPlain.head_not_blank (h : IsPlain name title) :
    ∃ c r, titled name title = c :: r ∧ Text.isBlank c = false := by
  obtain ⟨c, r, hname⟩ := List.exists_cons_of_ne_nil h.name_ne
  refine ⟨c, r ++ _, by rw [titled, hname, List.cons_append], ?_⟩
  exact (Text.isTrimmed_iff.1 h.name_trimmed).1 c (by simp [hname])

theorem IsPlain.newline_not_mem (h : IsPlain name title) : '\n' ∉ titled name title := by
  unfold titled
  split
  · simpa using h.name_line
  · simp [h.name_line, h.title_line, emDash]

theorem IsPlain.isLine (h : IsPlain name title) (ht : t.HasLines) : IsLine t status name title := by
  obtain ⟨c, r, hc, hblank⟩ := h.head_not_blank
  constructor
  · unfold writtenText
    cases hm : marker? t status with
    | none => simpa using h.newline_not_mem
    | some m =>
      obtain ⟨s, -, hwritten⟩ := Option.bind_eq_some_iff.1 hm
      obtain ⟨e, he, rfl⟩ := StatusTable.mem_allForms_of_written? hwritten
      simp [ht e he, h.newline_not_mem]
  · intro hnil
    unfold writtenText at hnil
    have := Text.trim_eq_nil_iff.1 hnil c (List.mem_append_right _ (by simp [hc]))
    rw [hblank] at this
    simp at this

theorem IsWritable.nameAndTitle_eq (h : IsWritable name title) :
    nameAndTitle (Text.trim (titled name title)) = (name, title) :=
  nameAndTitle_titled h.name_trimmed h.no_dash h.title_trimmed h.no_hyphens

/-- A built-in form that begins a name with its title begins the name: no form ends with a space or
has an em dash. -/
theorem form_prefix_name {e : Text × Text} (he : e ∈ StatusTable.builtIn.allForms)
    (h : IsPlain name title) (hp : e.2 <+: Text.trim (titled name title)) : e.2 <+: name := by
  have hforms : ∀ e ∈ StatusTable.builtIn.allForms, e.2.getLast? ≠ some ' ' ∧ emDash ∉ e.2 := by
    decide
  obtain ⟨hspace, hdash⟩ := hforms e he
  have hstart : Text.trimStart (titled name title) = titled name title := by
    obtain ⟨c, r, hc, hblank⟩ := h.head_not_blank
    rw [Text.trimStart_eq_self_iff, hc]
    simpa using hblank
  have hlong : e.2 <+: titled name title := hp.trans (Text.trim_isPrefix hstart)
  have hname : name <+: titled name title := List.prefix_append _ _
  rcases List.prefix_or_prefix_of_prefix hlong hname with hpre | ⟨y, hy⟩
  · exact hpre
  · have hrest : y <+: if title = name then [] else ' ' :: emDash :: ' ' :: title := by
      rw [← hy] at hlong
      exact (List.prefix_append_right_inj name).1 hlong
    match y with
    | [] => exact ⟨[], by simpa using hy.symm⟩
    | [c] =>
      exfalso
      split at hrest
      · simp at hrest
      · obtain ⟨rfl, -⟩ := List.cons_prefix_cons.1 hrest
        rw [← hy, List.getLast?_concat] at hspace
        exact hspace rfl
    | c :: c' :: y =>
      exfalso
      split at hrest
      · simp at hrest
      · obtain ⟨-, hrest⟩ := List.cons_prefix_cons.1 hrest
        obtain ⟨rfl, -⟩ := List.cons_prefix_cons.1 hrest
        rw [← hy] at hdash
        simp at hdash

/-- A name that is its own title is cut at two spaced hyphens. -/
theorem name_ne_of_hyphens (h : IsPlain name name) (hhyphens : [' ', '-', '-', ' '] <:+: name)
    (status : Option Text) :
    (ofText .builtIn (Text.trim (writtenText .builtIn status name name))).name ≠ name := by
  have hforms : ∀ e ∈ StatusTable.builtIn.allForms, emDash ∉ e.2 := by decide
  have hdash : emDash ∉ writtenText .builtIn status name name := by
    unfold writtenText titled
    cases hm : marker? .builtIn status with
    | none => simpa using h.no_dash
    | some m =>
      obtain ⟨s, -, hwritten⟩ := Option.bind_eq_some_iff.1 hm
      obtain ⟨e, he, rfl⟩ := StatusTable.mem_allForms_of_written? hwritten
      have hspace : emDash ≠ ' ' := by decide
      simp [hforms e he, h.no_dash, hspace]
  have hstrip :
      emDash ∉ StatusTable.builtIn.strip (Text.trim (writtenText .builtIn status name name)) :=
    fun hmem ↦ hdash (((strip_isInfix _ _).trans (Text.trim_isInfix _)).subset hmem)
  intro heq
  rw [ofText_name] at heq
  exact not_hyphens_infix_name hstrip (heq.symm ▸ hhyphens)

/-- A written heading is taken apart into the form of its status and the rest. -/
structure IsApart (t : StatusTable) (status : Option Text) (name title : Text) : Prop where
  strip_eq : t.strip (Text.trim (writtenText t status name title)) = Text.trim (titled name title)
  status_eq : (ofText t (Text.trim (writtenText t status name title))).status =
    if (marker? t status).isSome then status else none

theorem IsApart.readsBack (h : IsApart t status name title) (hwritable : IsWritable name title) :
    ReadsBack t status name title := by
  refine ⟨?_, ?_, h.status_eq⟩
  · rw [ofText_name, h.strip_eq]
    exact congrArg Prod.fst hwritable.nameAndTitle_eq
  · rw [ofText_title, h.strip_eq]
    exact congrArg Prod.snd hwritable.nameAndTitle_eq

/-- Something is left of a name, also when it is cut at two spaced hyphens. -/
theorem IsPlain.nameAndTitle_ne (h : IsPlain name title) :
    (nameAndTitle (Text.trim (titled name title))).1 ≠ [] := by
  by_cases hhyphens : title = name ∧ [' ', '-', '-', ' '] <:+: name
  · obtain ⟨htitle, hhyphens⟩ := hhyphens
    have htext : Text.trim (titled name title) = name := by
      unfold titled
      rw [if_pos htitle, List.append_nil]
      exact h.name_trimmed
    obtain ⟨⟨a, b⟩, hcut⟩ := Option.ne_none_iff_exists'.1 fun hnone ↦
      Text.cut?_eq_none_iff.1 hnone hhyphens
    have hname : (nameAndTitle name).1 = Text.trim a := by
      unfold nameAndTitle
      rw [Text.cut?_single_eq_none.2 h.no_dash, hcut]
    rw [htext, hname]
    intro hnil
    have hblank := Text.trim_eq_nil_iff.1 hnil
    have hhead := (Text.isTrimmed_iff.1 h.name_trimmed).1
    rw [Text.eq_of_cut? hcut] at hhead
    cases a with
    | nil => exact absurd (hhead ' ' rfl) (by decide)
    | cons c a =>
      have hc := hhead c rfl
      rw [hblank c List.mem_cons_self] at hc
      simp at hc
  · have hwritable : IsWritable name title := ⟨h, fun htitle hin ↦ hhyphens ⟨htitle, hin⟩⟩
    rw [hwritable.nameAndTitle_eq]
    exact h.name_ne

theorem IsApart.name_ne (h : IsApart t status name title) (hplain : IsPlain name title) :
    (ofText t (Text.trim (writtenText t status name title))).name ≠ [] := by
  rw [ofText_name, h.strip_eq]
  exact hplain.nameAndTitle_ne

/-- Without a form the name stands alone, if it does not begin with one itself. -/
theorem isApart_of_unmarked (hmarker : marker? t status = none)
    (hnone : t.marker? (Text.trim (titled name title)) = none) : IsApart t status name title := by
  have htext : writtenText t status name title = titled name title := by
    unfold writtenText
    rw [hmarker]
    rfl
  constructor
  · rw [htext, StatusTable.strip, hnone]
  · rw [htext, ofText_status, hnone, hmarker]
    rfl

theorem isApart_of_marked {s m form : Text} (hmarker : marker? t (some s) = some m)
    (hread : t.marker? (Text.trim (m ++ ' ' :: titled name title)) =
      some ⟨s, form, Text.trim (titled name title)⟩) :
    IsApart t (some s) name title := by
  have htext : writtenText t (some s) name title = m ++ ' ' :: titled name title := by
    unfold writtenText
    rw [hmarker]
    simp
  constructor
  · rw [htext, StatusTable.strip, hread]
  · rw [htext, ofText_status, hread, hmarker]
    rfl

/-- A glyph in front of a name is read as the status it was written for. -/
theorem marker?_glyph_titled {s : Text} {c : Char} (hc : (s, c) ∈ StatusTable.glyphs)
    (h : IsPlain name title) :
    StatusTable.builtIn.marker? (Text.trim ([c] ++ ' ' :: titled name title)) =
      some ⟨s, [c], Text.trim (titled name title)⟩ := by
  obtain ⟨d, r, hd, hblank⟩ := h.head_not_blank
  have htrim : Text.trim ([c] ++ ' ' :: titled name title) =
      c :: ' ' :: Text.trim (titled name title) := by
    have hstart : Text.trimStart [c, ' '] = [c, ' '] := by
      rw [Text.trimStart_eq_self_iff]
      simpa using (StatusTable.isBlank_glyph hc).1
    have hcat : [c] ++ ' ' :: d :: r = [c, ' '] ++ d :: r := rfl
    rw [hd, hcat, Text.trim_append_cons hblank, hstart, Text.trim_cons hblank]
    rfl
  have hstart : Text.trimStart (' ' :: Text.trim (titled name title)) =
      Text.trim (titled name title) := by
    rw [Text.trimStart_cons_blank Text.isBlank_space, (Text.isTrimmed_trim _).trimStart_eq]
  rw [htrim, StatusTable.marker?_glyph hc, hstart]

/-- With the built-in table a canonical status is told from the name behind it.  Without a form the
name must not begin with one. -/
theorem isApart_builtIn (h : IsPlain name title)
    (hcanonical : ∀ s, status = some s → StatusTable.builtIn.canonical s = s)
    (hform : marker? .builtIn status = none →
      ∀ e ∈ StatusTable.builtIn.allForms, e.2 ≠ [] → ¬ e.2 <+: name) :
    IsApart .builtIn status name title := by
  cases hmarker : marker? .builtIn status with
  | none =>
    refine isApart_of_unmarked hmarker (StatusTable.marker?_eq_none_iff.2 fun e he hne hp ↦ ?_)
    exact hform hmarker e he hne (form_prefix_name he h hp)
  | some m =>
    obtain ⟨s, rfl, hwritten⟩ := Option.bind_eq_some_iff.1 hmarker
    have hknown : StatusTable.builtIn.canonical? s ≠ none := by
      intro hnone
      rw [StatusTable.written?_eq_none hnone] at hwritten
      simp at hwritten
    obtain ⟨c, hc⟩ := StatusTable.exists_glyph_of_canonical (hcanonical s rfl) hknown
    rw [(StatusTable.written?_builtIn hc).1] at hwritten
    obtain rfl := Option.some.inj hwritten
    exact isApart_of_marked hmarker (marker?_glyph_titled hc h)

end Markbook.Heading
