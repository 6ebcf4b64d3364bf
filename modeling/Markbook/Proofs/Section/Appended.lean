import Markbook.Proofs.Preamble
import Markbook.Proofs.Section.Held
import Markbook.Proofs.Text.Copied
import Markbook.Store.Files

/-!
# Sections at the End

A heading with lines behind it can be written to the end of a document whose last line is complete.
The document keeps its preamble and all names that it had (`Outline.exists_entities_append`), and
has one more section.
-/

namespace Markbook

/-! ## The body of an extended document -/

theorem Store.completed_append (l : Text) {s : Text} (h : s ≠ []) :
    completed (l ++ s) = l ++ completed s := by
  unfold completed
  rw [List.getLast?_append_of_ne_nil _ h]
  by_cases hlast : s.getLast? = some '\n'
  · simp [hlast]
  · simp [h, hlast]

/-- Lines behind a complete text go on with the lines of the text. -/
theorem Store.exists_lines_completed (s : Text) :
    ∃ ls, ls.map Text.trim = (Text.lines s).map Text.trim ∧
      ∀ w, Text.lines (completed s ++ w) = ls ++ Text.lines w := by
  induction s using Text.line_induction with
  | nil => exact ⟨[], rfl, fun w ↦ rfl⟩
  | last l hne hl =>
    have hlast : l.getLast? ≠ some '\n' := fun h ↦ hl (List.mem_of_getLast? h)
    have hcompleted : completed l = l ++ ['\n'] := by
      unfold completed
      rw [if_neg (by simp [hne, hlast])]
    refine ⟨[Text.chomp l], ?_, fun w ↦ ?_⟩
    · rw [Text.lines_of_not_mem hl hne, List.map_singleton, Text.trim_chomp, List.map_singleton]
    · rw [hcompleted, List.append_assoc, List.singleton_append, Text.lines_append hl,
        List.singleton_append]
  | line l s hl ih =>
    obtain ⟨ls, htrim, hlines⟩ := ih
    have hcompleted : completed (l ++ '\n' :: s) = l ++ '\n' :: completed s := by
      cases s with
      | nil =>
        unfold completed
        rw [if_pos (by simp)]
        rfl
      | cons c s =>
        have := completed_append (l ++ ['\n']) (List.cons_ne_nil c s)
        simpa using this
    refine ⟨Text.chomp l :: ls, ?_, fun w ↦ ?_⟩
    · rw [Text.lines_append hl, List.map_cons, List.map_cons, htrim]
    · rw [hcompleted, List.append_assoc, List.cons_append, Text.lines_append hl, hlines,
        List.cons_append]

/-- A text that goes on behind its end keeps its preamble. -/
theorem Preamble.exists_split?_completed {content : Text} {p : Preamble}
    (h : split? content = some p) (w : Text) :
    ∃ lead, split? (Store.completed content ++ w) =
      some ⟨lead, p.text, Store.completed p.body ++ w⟩ ∧
      (p.lead.getLast? = some '\n' → lead = p.lead) := by
  have hcontent := lead_append_body h
  by_cases hlead : p.lead.getLast? = some '\n'
  · refine ⟨p.lead, ?_, fun _ ↦ rfl⟩
    have hcompleted : Store.completed content = p.lead ++ Store.completed p.body := by
      rw [hcontent]
      by_cases hbody : p.body = []
      · rw [hbody, List.append_nil]
        unfold Store.completed
        simp [hlead]
      · exact Store.completed_append _ hbody
    rw [hcompleted, List.append_assoc]
    exact split?_lead_append h hlead _
  · obtain ⟨hbody, hnew⟩ := split?_complete h hlead w
    refine ⟨content ++ ['\n'], ?_, fun heq ↦ absurd heq hlead⟩
    have hne := ne_nil_of_split? h
    have hcompleted : Store.completed content = content ++ ['\n'] := by
      rw [hbody, List.append_nil] at hcontent
      unfold Store.completed
      rw [if_neg (by simpa [hne] using hcontent ▸ hlead)]
    rw [hcompleted, hbody, List.append_assoc]
    exact hnew

/-- A document that goes on behind its end keeps its markers. -/
theorem Document.exists_read?_completed {path : Path} {content : Text} {doc : Document}
    (h : Document.read? path content = some doc) (w : Text) :
    ∃ offset, Document.read? path (Store.completed content ++ w) =
      some ⟨path, doc.markers, Store.completed doc.body ++ w, offset⟩ := by
  obtain ⟨⟨m, p⟩, hmarked, rfl⟩ := Option.map_eq_some_iff.1 h
  obtain ⟨p', hsplit, hmarkers⟩ := Option.bind_eq_some_iff.1 hmarked
  obtain ⟨m', hm, heq⟩ := Option.bind_eq_some_iff.1 hmarkers
  obtain ⟨rfl, rfl⟩ := Prod.mk.inj (Option.some.inj heq)
  obtain ⟨lead, hnew, -⟩ := Preamble.exists_split?_completed hsplit w
  refine ⟨Preamble.offset ⟨lead, p'.text, Store.completed p'.body ++ w⟩, ?_⟩
  unfold Document.read? markedPreamble?
  rw [hnew]
  simp only [Option.bind_eq_bind, Option.bind_some, hm]
  rfl

/-! ## The sections of an extended body -/

namespace Section

variable {l : Text} {a r : List Text}

/-- What the headings of some lines say. -/
def texts (ls : List Text) : List Text :=
  ls.filterMap fun l ↦ (Heading.split? (Text.trim l)).map (·.2)

theorem texts_congr {ls ls' : List Text} (h : ls.map Text.trim = ls'.map Text.trim) :
    texts ls = texts ls' := by
  have htexts (ls : List Text) : texts ls =
      (ls.map Text.trim).filterMap fun l ↦ (Heading.split? l).map (·.2) := by
    rw [List.filterMap_map]
    rfl
  rw [htexts, htexts, h]

theorem map_text_cutFrom (n : Nat) (ls : List Text) : (cutFrom n ls).map text = texts ls := by
  induction ls generalizing n with
  | nil => rfl
  | cons l r ih =>
    cases hl : Heading.split? (Text.trim l) with
    | none =>
      unfold cutFrom texts
      simp only [hl, List.filterMap_cons, Option.map_none]
      exact ih (n + 1)
    | some p =>
      rw [cutFrom_cons_of_heading n hl, List.map_cons, ih]
      unfold texts
      simp [hl]

/-- A heading ends the section in front of it. -/
theorem cutFrom_append_heading (hl : Heading.isHeading l) (n : Nat) :
    cutFrom n (a ++ l :: r) = cutFrom n a ++ cutFrom (n + a.length) (l :: r) := by
  induction a generalizing n with
  | nil => rfl
  | cons x a ih =>
    have hlength : n + (x :: a).length = n + 1 + a.length := by
      rw [List.length_cons]
      omega
    rw [hlength]
    cases hx : Heading.split? (Text.trim x) with
    | none =>
      unfold cutFrom
      simp only [hx, List.cons_append]
      exact ih (n + 1)
    | some p =>
      have htake : (a ++ l :: r).takeWhile (!Heading.isHeading ·) =
          a.takeWhile (!Heading.isHeading ·) := by
        rw [List.takeWhile_append, List.takeWhile_cons_of_neg (by simp [hl]), List.append_nil]
        split
        · next hlength =>
          exact (List.takeWhile_prefix _).eq_of_length hlength |>.symm
        · rfl
      rw [List.cons_append, cutFrom_cons_of_heading n hx, cutFrom_cons_of_heading n hx, htake, ih,
        List.cons_append]

end Section

namespace Outline

variable {m : Markers} {t : StatusTable}

/-- The names of an outline are those that its headings say. -/
theorem exists_entity_iff {ls : List Text} {n : Nat} {name : Text} :
    (∃ e ∈ (Section.cutFrom n ls).filterMap (Section.entity? m t), e.name = name) ↔
      name ≠ [] ∧ ∃ text ∈ Section.texts ls, (Heading.ofText t text).name = name := by
  have hentity (s : Section) : Section.entity? m t s =
      if (Heading.ofText t s.text).name = [] then none
      else some (Entity.ofSection m t (Heading.ofText t s.text) s.level s.line s.body) := by
    unfold Section.entity?
    simp only [List.isEmpty_iff]
  rw [← Section.map_text_cutFrom n]
  simp only [List.mem_filterMap, hentity, List.mem_map]
  constructor
  · rintro ⟨e, ⟨s, hs, he⟩, rfl⟩
    split at he
    · simp at he
    · next hne =>
      obtain rfl := Option.some.inj he
      exact ⟨hne, s.text, ⟨s, hs, rfl⟩, rfl⟩
  · rintro ⟨hne, text, ⟨s, hs, rfl⟩, rfl⟩
    exact ⟨_, ⟨s, hs, if_neg hne⟩, rfl⟩

/-- A heading behind an outline, with lines that are none, adds one entity if it has a name. -/
theorem exists_entities_append (body : Text) {w heading text : Text} {level : Nat} {ls : List Text}
    (hw : Text.lines w = heading :: ls)
    (hheading : Heading.split? (Text.trim heading) = some (level, text))
    (hls : ∀ l ∈ ls, Heading.isHeading l = false) (m : Markers) (t : StatusTable) :
    ∃ E s, s.text = text ∧ s.lines = ls ∧
      (∀ name, (∃ e ∈ E, e.name = name) ↔ ∃ e ∈ entities m t body, e.name = name) ∧
      entities m t (Store.completed body ++ w) = E ++ (Section.entity? m t s).toList := by
  obtain ⟨a, htrim, hlines⟩ := Store.exists_lines_completed body
  refine ⟨(Section.cutFrom 1 a).filterMap (Section.entity? m t),
    ⟨1 + a.length, level, heading, text, ls⟩, rfl, rfl, fun name ↦ ?_, ?_⟩
  · rw [entities_eq]
    unfold entitiesOf Section.cut
    rw [exists_entity_iff, exists_entity_iff, Section.texts_congr htrim]
  · have hhead := Heading.isHeading_of_split? hheading
    have hnil : Section.cutFrom (1 + a.length + 1) ls = [] := by
      have := Section.cutFrom_append_of_lines (1 + a.length + 1) hls []
      rwa [List.append_nil] at this
    have htake : ls.takeWhile (!Heading.isHeading ·) = ls := by
      rw [List.takeWhile_eq_self_iff]
      intro l hl
      rw [hls l hl]
      rfl
    rw [entities_eq]
    unfold entitiesOf Section.cut
    rw [hlines, hw, Section.cutFrom_append_heading hhead, List.filterMap_append,
      Section.cutFrom_cons_of_heading _ hheading, htake, hnil]
    cases hentity : Section.entity? m t ⟨1 + a.length, level, heading, text, ls⟩ <;> simp [hentity]

end Outline

end Markbook
