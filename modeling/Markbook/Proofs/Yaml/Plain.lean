import Mathlib.Data.List.DropRight
import Mathlib.Tactic.Common
import Markbook.Yaml.Token

/-!
# Plain Scalars on One Line

A plain scalar that begins and ends on one line is the text up to the first comment or the first
colon in front of a blank, without the blanks at its end (`Yaml.takePlain?_line`).
-/

namespace Markbook.Yaml

variable {c : Char} {s w tail next u v : Text} {p : Cursor} {g : Gap} {n : Nat} {m : Int}

namespace Cursor

@[simp]
theorem skip_zero (p : Cursor) : p.skip 0 = p := rfl

@[simp]
theorem skip_skip (p : Cursor) (a b : Nat) : (p.skip a).skip b = p.skip (a + b) := by
  unfold skip
  simp only [List.drop_drop, Nat.add_assoc]

theorem rest_skip_append (h : p.rest = u ++ v) : (p.skip u.length).rest = v := by
  unfold skip
  simp [h]

theorem atDocumentMark_of_column (h : p.column ≠ 0) : p.atDocumentMark = false := by
  unfold atDocumentMark atSeparator
  simp [h]

end Cursor

/-! ## Lines -/

/-- Is the text printable and without a line break? -/
def IsOneLine (s : Text) : Prop := ∀ c ∈ s, isPrintable c = true ∧ isBreak c = false

instance (s : Text) : Decidable (IsOneLine s) := List.decidableBAll _ s

theorem isOneLine_cons :
    IsOneLine (c :: s) ↔ (isPrintable c = true ∧ isBreak c = false) ∧ IsOneLine s :=
  List.forall_mem_cons

theorem isOneLine_append : IsOneLine (u ++ v) ↔ IsOneLine u ∧ IsOneLine v :=
  List.forall_mem_append

theorem atBlank_append_cons (s : Text) (c : Char) (r : Text) :
    atBlank (s ++ c :: r) = atBlank (s ++ [c]) := by
  cases s with
  | nil => rfl
  | cons d s => rfl

/-- What stands behind a line: nothing, or a line feed and another line. -/
def IsTail (s : Text) : Prop := s = [] ∨ ∃ next, s = '\n' :: next ∧ atBlank next = false

theorem IsTail.atBlank_append (h : IsTail tail) (s : Text) : atBlank (s ++ tail) = atBlank s := by
  cases s with
  | cons c s => rfl
  | nil =>
    rcases h with rfl | ⟨next, rfl, -⟩
    · rfl
    · rfl

theorem IsTail.at_hash (h : IsTail tail) (hp : p.rest = w ++ tail) :
    p.at_ '#' = decide (w.head? = some '#') := by
  have htail : tail.head? ≠ some '#' := by
    rcases h with rfl | ⟨next, rfl, -⟩
    · simp
    · simp
  unfold Cursor.at_
  rw [hp]
  cases w with
  | nil => simpa using htail
  | cons c r => simp

/-! ## Where a plain scalar ends -/

/-- Cuts a line behind a plain scalar: at a comment after a blank, or at a colon in front of one.
The flag tells whether a blank stands in front of the line. -/
def cutPlain : Bool → Text → Text × Text
  | _, [] => ([], [])
  | afterBlank, c :: r =>
    if (afterBlank && c = '#') || (c = ':' && atBlank r) then ([], c :: r)
    else
      let q := cutPlain (isSpace c) r
      (c :: q.1, q.2)

theorem cutPlain_append (b : Bool) (s : Text) : (cutPlain b s).1 ++ (cutPlain b s).2 = s := by
  induction s generalizing b with
  | nil => rfl
  | cons c r ih =>
    unfold cutPlain
    split
    · rfl
    · simpa using ih (isSpace c)

theorem cutPlain_true (h : s.head? ≠ some '#') : cutPlain true s = cutPlain false s := by
  cases s with
  | nil => rfl
  | cons c r =>
    have hc : c ≠ '#' := fun hc ↦ h (congrArg some hc)
    unfold cutPlain
    simp [hc]

/-- Blanks in front are passed. -/
theorem cutPlain_blanks (hu : u ≠ []) (h : ∀ c ∈ u, isSpace c = true) (b : Bool) (s : Text) :
    cutPlain b (u ++ s) = (u ++ (cutPlain true s).1, (cutPlain true s).2) := by
  induction u generalizing b with
  | nil => exact absurd rfl hu
  | cons c u ih =>
    obtain ⟨hc, hrest⟩ := List.forall_mem_cons.1 h
    have hstop : ((b && c = '#') || (c = ':' && atBlank (u ++ s))) = false := by
      have h1 : c ≠ '#' := by
        rintro rfl
        exact absurd hc (by decide)
      have h2 : c ≠ ':' := by
        rintro rfl
        exact absurd hc (by decide)
      simp [h1, h2]
    rw [List.cons_append, cutPlain, hstop, hc]
    simp only [Bool.false_eq_true, if_false]
    by_cases hnil : u = []
    · rw [hnil, List.nil_append]
      rfl
    · rw [ih hnil hrest]
      rfl

theorem cutPlain_of_forall (h : ∀ c ∈ s, isSpace c = true) (b : Bool) : cutPlain b s = (s, []) := by
  by_cases hnil : s = []
  · rw [hnil]
    rfl
  · have hcut := cutPlain_blanks hnil h b []
    rwa [List.append_nil, show cutPlain true [] = ([], []) from rfl, List.append_nil] at hcut

/-- A plain scalar ends at the end of the line, at a comment, or at a colon in front of a blank. -/
theorem cutPlain_rest (b : Bool) (s : Text) :
    (cutPlain b s).2 = [] ∨ (cutPlain b s).2.head? = some '#' ∨
      ∃ r, (cutPlain b s).2 = ':' :: r ∧ atBlank r = true := by
  induction s generalizing b with
  | nil => exact .inl rfl
  | cons c r ih =>
    unfold cutPlain
    split
    · next hstop =>
      rw [Bool.or_eq_true, Bool.and_eq_true, Bool.and_eq_true, decide_eq_true_iff,
        decide_eq_true_iff] at hstop
      rcases hstop with ⟨-, rfl⟩ | ⟨rfl, hr⟩
      · exact .inr (.inl rfl)
      · exact .inr (.inr ⟨r, rfl, hr⟩)
    · exact ih (isSpace c)

/-- Text without the spaces and tabs at its end. -/
def trimSpaces (s : Text) : Text := s.rdropWhile isSpace

theorem trimSpaces_append (h : trimSpaces v ≠ []) : trimSpaces (u ++ v) = u ++ trimSpaces v := by
  have hv : (v.reverse.dropWhile isSpace).isEmpty = false := by
    rw [← Bool.not_eq_true, List.isEmpty_iff]
    intro hnil
    apply h
    unfold trimSpaces List.rdropWhile
    rw [hnil, List.reverse_nil]
  unfold trimSpaces List.rdropWhile
  rw [List.reverse_append, List.dropWhile_append, hv]
  simp

theorem trimSpaces_append_of_nil (h : trimSpaces v = []) : trimSpaces (u ++ v) = trimSpaces u := by
  have hv : (v.reverse.dropWhile isSpace).isEmpty = true := by
    rw [List.isEmpty_iff, ← List.reverse_eq_nil_iff]
    exact h
  unfold trimSpaces List.rdropWhile
  rw [List.reverse_append, List.dropWhile_append, hv]
  simp

theorem trimSpaces_of_forall (h : ∀ c ∈ s, isSpace c = true) : trimSpaces s = [] := by
  unfold trimSpaces
  rwa [List.rdropWhile_eq_nil_iff]

theorem trimSpaces_of_dark (h : ∀ c ∈ s, isSpace c = false) : trimSpaces s = s := by
  unfold trimSpaces
  rw [List.rdropWhile_eq_self_iff]
  intro hne
  simp [h _ (List.getLast_mem hne)]

/-! ## The scanner of a plain scalar -/

/-- Does a run of a plain scalar end in front of this text? -/
def StopsRun (s : Text) : Prop := atBlank s = true ∨ ∃ r, s = ':' :: r ∧ atBlank r = true

/-- A run of a plain scalar ends at a blank, or at a colon in front of one. -/
theorem takePlainRun?_line (hw : IsOneLine w) (htail : IsTail tail) (hfuel : w.length < n)
    (hp : p.rest = w ++ tail) :
    ∃ u v, w = u ++ v ∧ (∀ c ∈ u, isSpace c = false) ∧ StopsRun v ∧
      cutPlain false w = (u ++ (cutPlain false v).1, (cutPlain false v).2) ∧
      takePlainRun? false n p = some (u, p.skip u.length) := by
  induction w generalizing n p with
  | nil =>
    obtain ⟨n, rfl⟩ := Nat.exists_eq_add_one_of_ne_zero (Nat.ne_zero_of_lt hfuel)
    refine ⟨[], [], rfl, by simp, .inl rfl, rfl, ?_⟩
    rw [takePlainRun?, hp]
    rcases htail with rfl | ⟨next, rfl, -⟩
    · rfl
    · rfl
  | cons c w ih =>
    obtain ⟨n, rfl⟩ := Nat.exists_eq_add_one_of_ne_zero (Nat.ne_zero_of_lt hfuel)
    obtain ⟨⟨-, hbreak⟩, hline⟩ := isOneLine_cons.1 hw
    by_cases hspace : isSpace c
    · refine ⟨[], c :: w, rfl, by simp, .inl (by simp [atBlank, hspace]), rfl, ?_⟩
      rw [takePlainRun?, hp]
      simp [atBlank, hspace]
    · have hdark : atBlank (c :: (w ++ tail)) = false := by simp [atBlank, hspace, hbreak]
      by_cases hcolon : c = ':' ∧ atBlank w = true
      · obtain ⟨rfl, hcolon⟩ := hcolon
        refine ⟨[], ':' :: w, rfl, by simp, .inr ⟨w, rfl, hcolon⟩, rfl, ?_⟩
        rw [takePlainRun?, hp]
        simp [htail.atBlank_append, hcolon]
      · have hskip : (p.skip 1).rest = w ++ tail := Cursor.rest_skip_append (u := [c]) hp
        have hgo : (c = ':' && atBlank w) = false := by simpa using hcolon
        obtain ⟨u, v, hw', hu, hv, hcut, hrun⟩ := ih hline (by simpa using hfuel) hskip
        refine ⟨c :: u, v, by rw [hw', List.cons_append], ?_, hv, ?_, ?_⟩
        · simpa [hspace] using hu
        · rw [cutPlain, hgo]
          simp [hspace, hcut]
        · rw [takePlainRun?, hp]
          simp only [List.cons_append, hdark, htail.atBlank_append, hgo, hrun]
          simp [Nat.add_comm]

/-- Spaces and tabs on a line are collected. -/
theorem takePlainGap?_spaces (hu : ∀ c ∈ u, isSpace c = true) (hg : g.broken = false)
    (hp : p.rest = u ++ v) :
    takePlainGap? m (u.length + n) g p =
      takePlainGap? m n { g with spaces := g.spaces ++ u } (p.skip u.length) := by
  induction u generalizing g p with
  | nil => simp
  | cons c u ih =>
    obtain ⟨hc, hrest⟩ := List.forall_mem_cons.1 hu
    have hspace : g.space c = { g with spaces := g.spaces ++ [c] } := by simp [Gap.space, hg]
    have hnext := ih (g := g.space c) (p := p.skip 1) hrest (by simp [hspace, hg])
      (Cursor.rest_skip_append (u := [c]) hp)
    rw [List.length_cons, Nat.add_right_comm, takePlainGap?, hp]
    simp only [List.cons_append, hc, hg, Bool.false_and, if_true, Bool.false_eq_true, if_false]
    rw [hnext, hspace]
    simp [hg, Nat.add_comm]

/-- A gap ends in front of the next character. -/
theorem takePlainGap?_dark (hp : p.rest = [] ∨ atBlank p.rest = false) :
    takePlainGap? m n g p = some (g, p) := by
  cases n with
  | zero => rfl
  | succ n =>
    rw [takePlainGap?]
    cases hrest : p.rest with
    | nil => rfl
    | cons c r =>
      have hdark : isSpace c = false ∧ isBreak c = false := by simpa [hrest, atBlank] using hp
      simp [hdark]

/-- Blanks at the end of a line are passed with the line feed behind them. -/
theorem takePlainGap?_feed (hu : ∀ c ∈ u, isSpace c = true) (hg : g.broken = false)
    (hp : p.rest = u ++ '\n' :: next) (hnext : atBlank next = false) :
    ∃ g' : Gap, g'.broken = true ∧
      takePlainGap? m (u.length + (n + 1)) g p = some (g', (p.skip u.length).skipBreak) := by
  have hfeed : (p.skip u.length).rest = '\n' :: next := Cursor.rest_skip_append hp
  have hbreak : (p.skip u.length).takeBreak = (['\n'], (p.skip u.length).skipBreak) := by
    unfold Cursor.takeBreak
    rw [hfeed]
    rfl
  have hrest : (p.skip u.length).skipBreak.rest = next := by
    unfold Cursor.skipBreak
    rw [hfeed]
    rfl
  refine ⟨Gap.break_ { g with spaces := g.spaces ++ u } ['\n'], by simp [Gap.break_, hg], ?_⟩
  rw [takePlainGap?_spaces hu hg hp, takePlainGap?, hfeed]
  simp only [show isSpace '\n' = false from rfl, show isBreak '\n' = true from rfl,
    Bool.false_eq_true, if_false, if_true, hbreak]
  exact takePlainGap?_dark (.inr (by rw [hrest, hnext]))

/-- The text of a run behind a gap; an empty run shows nothing. -/
def Gap.shown (g : Gap) (s : Text) : Text := if s = [] then [] else g.folded ++ s

/-- The gap that the next run stands behind, unless more blanks come. -/
def Gap.pending (g : Gap) (s : Text) : Gap := if s = [] then g else Gap.start false

theorem Gap.broken_pending (hg : g.broken = false) (s : Text) : (g.pending s).broken = false := by
  unfold Gap.pending
  split
  · exact hg
  · rfl

theorem Gap.shown_pending (hu : u ≠ []) (hdark : trimSpaces u = u) (hb : ∀ c ∈ v, isSpace c = true)
    (s : Text) :
    g.shown u ++ Gap.shown ⟨v, [], [], false⟩ (trimSpaces s) =
      g.shown (trimSpaces (u ++ (v ++ s))) := by
  rw [← List.append_assoc]
  by_cases hnil : trimSpaces s = []
  · rw [trimSpaces_append_of_nil hnil, trimSpaces_append_of_nil (trimSpaces_of_forall hb), hdark,
      hnil]
    simp [Gap.shown]
  · rw [trimSpaces_append hnil]
    simp [Gap.shown, Gap.folded, hnil, hu]

section Run

variable {q : Cursor}

/-- One run of a plain scalar, with what may follow it. -/
theorem takePlain?_run (hmark : p.atDocumentMark = false) (hat : p.at_ '#' = false)
    (hrun : takePlainRun? false (p.rest.length + 1) p = some (u, q)) :
    takePlain? false m (n + 1) g p =
      if q.rest = [] ∨ atBlank q.rest = false then some (g.shown u, (g.pending u).broken, q)
      else (takePlainGap? m (q.rest.length + 1) (g.pending u) q).bind fun x ↦
        if (x.2.column : Int) < m then some (g.shown u, x.1.broken, x.2)
        else (takePlain? false m n x.1 x.2).map fun y ↦ (g.shown u ++ y.1, y.2) := by
  rw [takePlain?, hmark, hat, hrun]
  simp only [Bool.or_false, Bool.false_eq_true, if_false, Option.bind_eq_bind, Option.bind_some,
    List.isEmpty_iff, Option.map_eq_bind]
  cases hrest : q.rest with
  | nil => rfl
  | cons c r =>
    cases hblank : atBlank (c :: r) with
    | false =>
      have hdark : (isSpace c || isBreak c) = false := hblank
      simp only [hdark, or_true, if_true]
      rfl
    | true =>
      have hspace : (isSpace c || isBreak c) = true := hblank
      simp only [hspace, reduceCtorEq, or_self, if_false, Bool.not_false, Bool.true_and,
        decide_eq_true_eq]
      rfl

/-- A comment is no part of a scalar. -/
theorem takePlain?_hash (hat : p.at_ '#' = true) :
    takePlain? false m (n + 1) g p = some ([], g.broken, p) := by
  rw [takePlain?, hat]
  simp

/-- A scalar ends with a run that no blank follows. -/
theorem takePlain?_stop (hmark : p.atDocumentMark = false) (hat : p.at_ '#' = false)
    (hrun : takePlainRun? false (p.rest.length + 1) p = some (u, q)) (hg : g.broken = false)
    (hq : q.rest = [] ∨ atBlank q.rest = false) :
    takePlain? false m (n + 1) g p = some (g.shown u, false, q) := by
  rw [takePlain?_run hmark hat hrun, if_pos hq, Gap.broken_pending hg]

/-- A scalar that goes to the end of its line ends there, if the next line stands to the left of
it. -/
theorem takePlain?_feed (hmark : p.atDocumentMark = false) (hat : p.at_ '#' = false)
    (hrun : takePlainRun? false (p.rest.length + 1) p = some (u, q)) (hg : g.broken = false)
    (hv : ∀ c ∈ v, isSpace c = true) (hq : q.rest = v ++ '\n' :: next)
    (hnext : atBlank next = false) (hm : 0 < m) :
    takePlain? false m (n + 1) g p = some (g.shown u, true, (q.skip v.length).skipBreak) := by
  have hblank : ¬ (q.rest = [] ∨ atBlank q.rest = false) := by
    rw [hq]
    cases v with
    | nil => simp [atBlank, isBreak]
    | cons c v => simp [atBlank, hv c List.mem_cons_self]
  have hcolumn : ((q.skip v.length).skipBreak).column = 0 := by
    unfold Cursor.skipBreak
    rw [Cursor.rest_skip_append hq]
    rfl
  have hlen : q.rest.length + 1 = v.length + (next.length + 1 + 1) := by
    rw [hq, List.length_append, List.length_cons, Nat.add_assoc]
  obtain ⟨g', hg', hgap⟩ := takePlainGap?_feed (m := m) (n := next.length + 1) hv
    (Gap.broken_pending hg u) hq hnext
  rw [takePlain?_run hmark hat hrun, if_neg hblank, hlen, hgap, Option.bind_some, hcolumn,
    if_pos (by exact_mod_cast hm), hg']

/-- A scalar goes on behind blanks on its line. -/
theorem takePlain?_gap (hmark : p.atDocumentMark = false) (hat : p.at_ '#' = false)
    (hrun : takePlainRun? false (p.rest.length + 1) p = some (u, q)) (hu : u ≠ [])
    (hv : ∀ c ∈ v, isSpace c = true) (hne : v ≠ []) (hq : q.rest = v ++ s)
    (hs : s = [] ∨ atBlank s = false) (hm : m ≤ (q.column : Int)) :
    takePlain? false m (n + 1) g p =
      (takePlain? false m n ⟨v, [], [], false⟩ (q.skip v.length)).map
        fun y ↦ (g.shown u ++ y.1, y.2) := by
  have hblank : ¬ (q.rest = [] ∨ atBlank q.rest = false) := by
    obtain ⟨c, v, rfl⟩ := List.exists_cons_of_ne_nil hne
    simp [hq, atBlank, hv c List.mem_cons_self]
  have hgap : takePlainGap? m (q.rest.length + 1) (g.pending u) q =
      some (⟨v, [], [], false⟩, q.skip v.length) := by
    have hdark : (q.skip v.length).rest = [] ∨ atBlank (q.skip v.length).rest = false := by
      rwa [Cursor.rest_skip_append hq]
    rw [Gap.pending, if_neg hu, hq, List.length_append, Nat.add_assoc,
      takePlainGap?_spaces hv rfl hq, takePlainGap?_dark hdark]
    rfl
  have hcolumn : ¬ ((q.skip v.length).column : Int) < m := by
    change ¬ ((q.column + v.length : Nat) : Int) < m
    omega
  rw [takePlain?_run hmark hat hrun, if_neg hblank, hgap, Option.bind_some, if_neg hcolumn]

end Run

/-- What stands behind a run: the end, a colon, blanks up to the end of the line, or blanks in
front of more text. -/
inductive Behind : Text → Text → Prop where
  | finished : Behind [] []
  | colon {r tail : Text} (h : atBlank r = true) : Behind (':' :: r) tail
  | feed {u next : Text} (hu : ∀ c ∈ u, isSpace c = true) (h : atBlank next = false) :
      Behind u ('\n' :: next)
  | gap {u v tail : Text} (hne : u ≠ []) (hu : ∀ c ∈ u, isSpace c = true)
      (hv : v ++ tail = [] ∨ atBlank (v ++ tail) = false)
      (hhead : ∀ c ∈ v.head?, isSpace c = false) :
      Behind (u ++ v) tail

theorem behind_of_stopsRun (hv : IsOneLine v) (htail : IsTail tail) (h : StopsRun v) :
    Behind v tail := by
  rcases h with hblank | ⟨r, rfl, hr⟩
  · have hcut : v.takeWhile isSpace ++ v.dropWhile isSpace = v := List.takeWhile_append_dropWhile
    have hspaces : ∀ c ∈ v.takeWhile isSpace, isSpace c = true :=
      fun c hc ↦ List.mem_takeWhile_imp hc
    have hhead : ∀ c ∈ (v.dropWhile isSpace).head?, isSpace c = false := by
      intro c hc
      have := List.head?_dropWhile_not isSpace v
      simpa [Option.mem_def.1 hc] using this
    by_cases hrest : v.dropWhile isSpace = []
    · have hall : ∀ c ∈ v, isSpace c = true := List.dropWhile_eq_nil_iff.1 hrest
      rcases htail with rfl | ⟨next, rfl, hnext⟩
      · cases v with
        | nil => exact .finished
        | cons c v =>
          have hgap : Behind (c :: v ++ []) [] :=
            .gap (List.cons_ne_nil _ _) hall (.inl rfl) (by simp)
          rwa [List.append_nil] at hgap
      · exact .feed hall hnext
    · have hne : v.takeWhile isSpace ≠ [] := by
        cases v with
        | nil => exact absurd rfl hrest
        | cons c v =>
          obtain ⟨⟨-, hbreak⟩, -⟩ := isOneLine_cons.1 hv
          have hspace : isSpace c = true := by simpa [atBlank, hbreak] using hblank
          simp [hspace]
      have hdark : atBlank (v.dropWhile isSpace ++ tail) = false := by
        obtain ⟨c, r, hr⟩ := List.exists_cons_of_ne_nil hrest
        have hmem : c ∈ v.dropWhile isSpace := hr ▸ List.mem_cons_self
        have hbreak : isBreak c = false := (hv c ((List.dropWhile_sublist _).subset hmem)).2
        have hspace : isSpace c = false := hhead c (by simp [hr])
        simp [hr, atBlank, hbreak, hspace]
      rw [← hcut]
      exact .gap hne hspaces (.inr hdark) hhead
  · exact .colon hr

/-- The flag and the cursor behind a plain scalar.  One that goes to the end of its line is
followed by the next line. -/
def plainEnd (w tail : Text) (p : Cursor) : Bool × Cursor :=
  if (cutPlain true w).2 = [] ∧ tail ≠ [] then (true, (p.skip w.length).skipBreak)
  else (false, p.skip (cutPlain true w).1.length)

/-- The end of the rest of a scalar is that of the scalar. -/
theorem plainEnd_append (hcut : cutPlain true w = (u ++ (cutPlain true v).1, (cutPlain true v).2)) :
    plainEnd v tail (p.skip u.length) = plainEnd w tail p := by
  have hlen : w.length = u.length + v.length := by
    rw [← List.length_append, ← cutPlain_append true w, hcut, List.append_assoc, cutPlain_append]
  unfold plainEnd
  simp only [hcut, Cursor.skip_skip, hlen, List.length_append]

/-- A plain scalar ends on its line, at the place where the line is cut. -/
theorem takePlain?_line (hw : IsOneLine w) (htail : IsTail tail) (hm : m ≤ 1)
    (hout : (cutPlain true w).2 = [] → tail ≠ [] → m = 1)
    (hhead : ∀ c ∈ w.head?, isSpace c = false) (hfuel : w.length < n) (hg : g.broken = false)
    (hmark : p.atDocumentMark = false) (hp : p.rest = w ++ tail) :
    takePlain? false m n g p =
      some (g.shown (trimSpaces (cutPlain true w).1), plainEnd w tail p) := by
  induction n generalizing w g p with
  | zero => exact absurd hfuel (Nat.not_lt_zero _)
  | succ n ih =>
    by_cases hhash : w.head? = some '#'
    · obtain ⟨r, rfl⟩ := List.head?_eq_some_iff.1 hhash
      rw [takePlain?_hash (htail.at_hash hp), hg]
      simp [plainEnd, cutPlain, Gap.shown, trimSpaces]
    · have hat : p.at_ '#' = false := by simpa [hhash] using htail.at_hash hp
      obtain ⟨u, v, hsplit, hu, hv, hcut, hrun⟩ := takePlainRun?_line hw htail
        (n := p.rest.length + 1) (by rw [hp, List.length_append]; omega) hp
      have hrest : (p.skip u.length).rest = v ++ tail :=
        Cursor.rest_skip_append (by rw [hp, hsplit, List.append_assoc])
      have hline : IsOneLine v := (isOneLine_append.1 (hsplit ▸ hw)).2
      have hu' : trimSpaces u = u := trimSpaces_of_dark hu
      rw [← cutPlain_true hhash] at hcut
      cases behind_of_stopsRun hline htail hv with
      | finished =>
        rw [takePlain?_stop hmark hat hrun hg (.inl hrest)]
        simp [plainEnd, hcut, cutPlain, hu']
      | @colon r tail hr =>
        have hstop : cutPlain false (':' :: r) = ([], ':' :: r) := by simp [cutPlain, hr]
        rw [takePlain?_stop hmark hat hrun hg (.inr (by rw [hrest]; rfl))]
        simp [plainEnd, hcut, hstop, hu']
      | @feed b next hb hnext =>
        have hmargin : m = 1 := hout (by rw [hcut, cutPlain_of_forall hb]) (by simp)
        have hlen : w.length = u.length + v.length := by rw [hsplit, List.length_append]
        rw [takePlain?_feed hmark hat hrun hg hb hrest hnext (by omega)]
        simp [plainEnd, hcut, cutPlain_of_forall hb, hlen,
          trimSpaces_append_of_nil (trimSpaces_of_forall hb), hu']
      | @gap b v tail hne hb hv' hhead' =>
        have hune : u ≠ [] := by
          rintro rfl
          obtain ⟨c, b, rfl⟩ := List.exists_cons_of_ne_nil hne
          have hdark : isSpace c = false := hhead c (by simp [hsplit])
          rw [hb c List.mem_cons_self] at hdark
          exact absurd hdark (by decide)
        have hrest' : (p.skip u.length).rest = b ++ (v ++ tail) :=
          hrest.trans (List.append_assoc ..)
        have hcut' : cutPlain true w =
            (u ++ (b ++ (cutPlain true v).1), (cutPlain true v).2) := by
          rw [hcut, cutPlain_blanks hne hb]
        have hlen : v.length < n := by
          have hpos := List.length_pos_iff.2 hune
          rw [hsplit, List.length_append, List.length_append] at hfuel
          omega
        have hcolumn : 0 < (p.skip u.length).column :=
          Nat.add_pos_right _ (List.length_pos_iff.2 hune)
        have hcolumn' : ((p.skip u.length).skip b.length).column ≠ 0 :=
          (Nat.add_pos_left hcolumn _).ne'
        have hmore : takePlain? false m n ⟨b, [], [], false⟩ ((p.skip u.length).skip b.length) =
            some (Gap.shown ⟨b, [], [], false⟩ (trimSpaces (cutPlain true v).1),
              plainEnd v tail ((p.skip u.length).skip b.length)) :=
          ih (isOneLine_append.1 hline).2 (by rwa [hcut'] at hout) hhead' hlen rfl
            (Cursor.atDocumentMark_of_column hcolumn') (Cursor.rest_skip_append hrest')
        have hend : plainEnd v tail ((p.skip u.length).skip b.length) = plainEnd w tail p := by
          rw [Cursor.skip_skip, ← List.length_append]
          exact plainEnd_append (hcut'.trans (by rw [List.append_assoc]))
        rw [takePlain?_gap hmark hat hrun hune hb hne hrest' hv' (by omega), hmore, Option.map_some,
          Gap.shown_pending hune hu' hb, hend, hcut']

end Markbook.Yaml
