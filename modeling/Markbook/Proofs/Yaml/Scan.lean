import Markbook.Proofs.Yaml.Plain

/-!
# Between Two Tokens

What the scanner passes in front of a token, and which token it reads there: blanks and comments up
to the end of a line, the start of the next line, a plain scalar.
-/

namespace Markbook.Yaml

variable {w v tail next : Text} {n : Nat}

/-- Does a plain scalar begin here, outside of brackets? -/
def startsPlain : Text → Bool
  | [] => false
  | c :: r => !(Scan.isIndicator c || isSpace c) || ((c = '-' || c = '?' || c = ':') && !atBlank r)

theorem head?_of_startsPlain (hw : IsOneLine w) (h : startsPlain w = true) :
    w.head? ≠ some '#' ∧ atBlank w = false := by
  cases w with
  | nil => exact absurd h (by decide)
  | cons c r =>
    have hbreak : isBreak c = false := (isOneLine_cons.1 hw).1.2
    have hcases : Scan.isIndicator c = false ∧ isSpace c = false ∨
        (c = '-' ∨ c = '?' ∨ c = ':') ∧ atBlank r = false := by
      simpa [startsPlain, or_assoc] using h
    rcases hcases with ⟨hind, hspace⟩ | ⟨rfl | rfl | rfl, -⟩
    · refine ⟨fun hc ↦ ?_, by simp [atBlank, hspace, hbreak]⟩
      obtain rfl : c = '#' := by simpa using hc
      exact absurd hind (by decide)
    · exact ⟨by simp, rfl⟩
    · exact ⟨by simp, rfl⟩
    · exact ⟨by simp, rfl⟩

theorem startsPlain_tail (htail : IsTail tail) (h : startsPlain w = true) :
    startsPlain (w ++ tail) = true := by
  cases w with
  | nil => exact absurd h (by decide)
  | cons c r =>
    rw [List.cons_append, startsPlain, htail.atBlank_append]
    exact h

/-- A plain scalar has a character to begin with. -/
theorem exists_cutPlain_cons (hw : IsOneLine w) (h : startsPlain w = true) :
    ∃ c r, (cutPlain true w).1 = c :: r ∧ isSpace c = false := by
  obtain ⟨hhash, hblank⟩ := head?_of_startsPlain hw h
  cases w with
  | nil => exact absurd h (by decide)
  | cons c r =>
    have hspace : isSpace c = false := (Bool.or_eq_false_iff.1 hblank).1
    have hgo : (true && decide (c = '#') || (decide (c = ':') && atBlank r)) = false := by
      rw [Bool.or_eq_false_iff]
      refine ⟨by simpa using hhash, ?_⟩
      rw [Bool.and_eq_false_iff, decide_eq_false_iff_not, ← imp_iff_not_or]
      rintro rfl
      simpa [startsPlain, Scan.isIndicator] using h
    exact ⟨c, (cutPlain (isSpace c) r).1, by rw [cutPlain, hgo]; rfl, hspace⟩

/-- Does a line with something to read begin here, in its first column? -/
def IsStart (s : Text) : Prop :=
  ∃ c r, s = c :: r ∧ isSpace c = false ∧ isBreak c = false ∧ c ≠ '#' ∧ c ≠ '\ufeff'

theorem IsStart.atBlank (h : IsStart next) : atBlank next = false := by
  obtain ⟨c, r, rfl, hspace, hbreak, -⟩ := h
  simp [Yaml.atBlank, hspace, hbreak]

/-- The marks that begin something else than a plain scalar: brackets, quotes, block scalars,
anchors, aliases and tags. -/
def isOpening (c : Char) : Bool := ",[]\x7b\x7d&*!|>'\"".toList.contains c

/-! ## Blanks and comments -/

namespace Cursor

theorem skipWhile_append {p : Cursor} {u v : Text} {test : Char → Bool} (hp : p.rest = u ++ v)
    (hu : ∀ c ∈ u, test c = true) (hv : ∀ c ∈ v.head?, test c = false) :
    p.skipWhile test = p.skip u.length := by
  have htake : (u ++ v).takeWhile test = u := by
    rw [List.takeWhile_append_of_pos hu]
    cases v with
    | nil => simp
    | cons c v => simp [hv c rfl]
  unfold skipWhile takeWhile
  rw [hp, htake]

theorem skipMark_of_head {p : Cursor} (h : p.column ≠ 0 ∨ p.rest.head? ≠ some '\ufeff') :
    p.skipMark = p := by
  unfold skipMark at_
  rw [if_neg]
  simpa [imp_iff_not_or] using h

theorem skipComment_of_head {p : Cursor} (h : p.rest.head? ≠ some '#') : p.skipComment = p := by
  unfold skipComment at_
  simp [h]

end Cursor

namespace Scan

variable {s t : Scan} {c : Char} {r u : Text} {p : Cursor}

/-- Blanks of a line are passed up to the next character. -/
theorem skipBlanks_text (hp : s.at_.rest = u ++ v) (hu : ∀ c ∈ u, isSpace c = true)
    (htabs : u ≠ [] → s.keyAllowed = false) (hv : v ≠ []) (hblank : atBlank v = false)
    (hhash : v.head? ≠ some '#') (hmark : s.at_.column ≠ 0 ∨ s.at_.rest.head? ≠ some '\ufeff') :
    s.skipBlanks (n + 1) = s.move (s.at_.skip u.length) := by
  obtain ⟨c, v, rfl⟩ := List.exists_cons_of_ne_nil hv
  have hdark : isSpace c = false ∧ isBreak c = false := by simpa [atBlank] using hblank
  have hskip : s.at_.skipWhile (fun c ↦ c = ' ' || ((s.inFlow || !s.keyAllowed) && c = '\t')) =
      s.at_.skip u.length := by
    apply Cursor.skipWhile_append hp
    · intro c hc
      have htab := htabs (List.ne_nil_of_mem hc)
      simpa [htab, isSpace] using hu c hc
    · intro d hd
      obtain rfl : c = d := by simpa using hd
      have := hdark.1
      simp only [isSpace, Bool.or_eq_false_iff] at this
      simp [this]
  have hrest : (s.at_.skip u.length).rest = c :: v := Cursor.rest_skip_append hp
  unfold skipBlanks
  simp only
  rw [Cursor.skipMark_of_head hmark, hskip, Cursor.skipComment_of_head (by rw [hrest]; exact hhash),
    hrest]
  simp [atBreak, hdark]

theorem skipBlanks_start (h : IsStart s.at_.rest) : s.skipBlanks (n + 1) = s := by
  obtain ⟨c, r, hrest, hspace, hbreak, hhash, hmark⟩ := h
  rw [skipBlanks_text (u := []) rfl (by simp) (by simp) (by simp [hrest])
    (by simp [hrest, atBlank, hspace, hbreak]) (by simpa [hrest] using hhash)
    (.inr (by simpa [hrest] using hmark))]
  rfl

/-- Is nothing to read on this line, but blanks and a comment? -/
def IsBare (s : Text) : Prop :=
  s.dropWhile isSpace = [] ∨ (s.dropWhile isSpace).head? = some '#'

/-- The blanks and the comment of a bare line are passed up to its end. -/
theorem skip_bare (hp : p.rest = w ++ tail) (hw : IsOneLine w) (hbare : IsBare w)
    (htail : IsTail tail) : (p.skipWhile isSpace).skipComment = p.skip w.length := by
  have hsplit : w.takeWhile isSpace ++ w.dropWhile isSpace = w := List.takeWhile_append_dropWhile
  have hlen : (w.takeWhile isSpace).length + (w.dropWhile isSpace).length = w.length := by
    rw [← List.length_append, hsplit]
  have htailhead : ∀ c ∈ tail.head?, isSpace c = false ∧ c ≠ '#' ∧ isBreak c = true := by
    intro c hc
    rcases htail with rfl | ⟨next, rfl, -⟩
    · simp at hc
    · obtain rfl : '\n' = c := by simpa using hc
      decide
  have hp' : p.rest = w.takeWhile isSpace ++ (w.dropWhile isSpace ++ tail) := by
    rw [← List.append_assoc, hsplit, hp]
  have hspaces : p.skipWhile isSpace = p.skip (w.takeWhile isSpace).length := by
    apply Cursor.skipWhile_append hp'
    · exact fun c hc ↦ List.mem_takeWhile_imp hc
    · intro c hc
      rcases hbare with hnil | hhash
      · rw [hnil] at hc
        exact (htailhead c hc).1
      · rw [List.head?_append, hhash] at hc
        obtain rfl : '#' = c := by simpa using hc
        decide
  have hrest : (p.skip (w.takeWhile isSpace).length).rest = w.dropWhile isSpace ++ tail :=
    Cursor.rest_skip_append hp'
  rw [hspaces]
  rcases hbare with hnil | hhash
  · rw [Cursor.skipComment_of_head, ← hlen, hnil]
    · rfl
    · rw [hrest, hnil]
      intro hc
      exact (htailhead _ hc).2.1 rfl
  · have hcomment : (p.skip (w.takeWhile isSpace).length).at_ '#' = true := by
      unfold Cursor.at_
      rw [hrest, List.head?_append, hhash]
      rfl
    unfold Cursor.skipComment
    rw [if_pos hcomment, Cursor.skipWhile_append hrest, Cursor.skip_skip, hlen]
    · intro c hc
      have hmem : c ∈ w := (List.dropWhile_sublist _).subset hc
      simp [(hw c hmem).2]
    · intro c hc
      simp [(htailhead c hc).2.2]

/-- The end of a bare line at the end of the text. -/
theorem skipBlanks_bare (hp : s.at_.rest = w) (hw : IsOneLine w) (hbare : IsBare w)
    (hkey : s.keyAllowed = false) (hcolumn : s.at_.column ≠ 0) :
    s.skipBlanks (n + 1) = s.move (s.at_.skip w.length) := by
  have htabs : (fun c ↦ decide (c = ' ') || ((s.inFlow || !s.keyAllowed) && decide (c = '\t'))) =
      isSpace := by
    funext c
    simp [hkey, isSpace]
  have hp' : s.at_.rest = w ++ [] := by rw [hp, List.append_nil]
  unfold skipBlanks
  simp only
  rw [Cursor.skipMark_of_head (.inl hcolumn), htabs, skip_bare hp' hw hbare (.inl rfl),
    Cursor.rest_skip_append hp']
  rfl

/-- Behind a bare line the next line is reached. -/
theorem skipBlanks_feed (hp : s.at_.rest = w ++ '\n' :: next) (hw : IsOneLine w) (hbare : IsBare w)
    (hnext : atBlank next = false) (hkey : s.keyAllowed = false) (hflow : s.inFlow = false)
    (hcolumn : s.at_.column ≠ 0) :
    s.skipBlanks (n + 1) =
      skipBlanks n { s with at_ := (s.at_.skip w.length).skipBreak, keyAllowed := true } := by
  have htabs : (fun c ↦ decide (c = ' ') || ((s.inFlow || !s.keyAllowed) && decide (c = '\t'))) =
      isSpace := by
    funext c
    simp [hkey, isSpace]
  rw [skipBlanks]
  rw [Cursor.skipMark_of_head (.inl hcolumn), htabs,
    skip_bare hp hw hbare (.inr ⟨next, rfl, hnext⟩), Cursor.rest_skip_append hp, hkey, hflow]
  rfl

/-! ## One token -/

/-- A state that the scanner leaves as it is between two tokens. -/
def IsSettled (s : Scan) : Prop := s.dropStale? = some s ∧ s.dedentTo s.at_.column = s

theorem run?_token (hs : s.skipBlanks (s.at_.rest.length + 1) = t) (ht : t.IsSettled)
    (hrest : t.at_.rest ≠ []) : run? (n + 1) s = t.token?.bind (run? n) := by
  rw [run?, hs]
  simp only [ht.1, Option.bind_eq_bind, Option.bind_some, ht.2]
  rw [if_neg (by simpa using hrest)]

theorem run?_finished (hs : s.skipBlanks (s.at_.rest.length + 1) = t) (ht : t.IsSettled)
    (hrest : t.at_.rest = []) :
    run? (n + 1) s = (t.dedentTo (-1)).dropKey?.map fun s ↦ s.tokens.toList := by
  rw [run?, hs]
  simp only [ht.1, Option.bind_eq_bind, Option.bind_some, ht.2]
  rw [if_pos (by simpa using hrest), Option.map_eq_bind]
  rfl

/-- A plain scalar is told by its first characters. -/
theorem token?_plain (hflow : s.inFlow = false) (hmark : s.at_.atDocumentMark = false)
    (hstart : startsPlain s.at_.rest = true) : s.token? = s.plainScalar? := by
  cases hrest : s.at_.rest with
  | nil => simp [hrest, startsPlain] at hstart
  | cons c r =>
    have hseparators : s.at_.atSeparator '-' = false ∧ s.at_.atSeparator '.' = false := by
      simpa [Cursor.atDocumentMark] using hmark
    have hcases : isIndicator c = false ∧ isSpace c = false ∨
        (c = '-' ∨ c = '?' ∨ c = ':') ∧ atBlank r = false := by
      simpa [hrest, startsPlain, or_assoc] using hstart
    unfold token?
    simp only [hrest, hseparators, hflow, Bool.false_eq_true, if_false]
    rcases hcases with ⟨hind, hspace⟩ | ⟨rfl | rfl | rfl, hr⟩
    · have hmarks := hind
      simp [isIndicator] at hmarks
      simp [hmarks, hind, hspace]
    · have hnospace : r.head?.any isSpace = false := by
        cases r with
        | nil => rfl
        | cons d r =>
          simp only [atBlank, Bool.or_eq_false_iff] at hr
          simp [hr.1]
      simp [hr, hnospace]
    · simp [hr]
    · simp [hr]

/-- Outside of brackets nothing else begins behind the colon of a key, but what an opening mark
begins. -/
theorem token?_none (hflow : s.inFlow = false) (hkey : s.keyAllowed = false)
    (hkeys : s.keys = [none]) (hcolumn : s.at_.column ≠ 0) (hstart : startsPlain s.at_.rest = false)
    (hspace : ∀ c ∈ s.at_.rest.head?, isSpace c = false ∧ isOpening c = false) :
    s.token? = none := by
  cases hrest : s.at_.rest with
  | nil =>
    unfold token?
    simp [hrest]
  | cons c r =>
    obtain ⟨hc, hopening⟩ := hspace c (by rw [hrest]; rfl)
    have hmarks : c ≠ ',' ∧ c ≠ '[' ∧ c ≠ ']' ∧ c ≠ '\x7b' ∧ c ≠ '\x7d' ∧ c ≠ '&' ∧ c ≠ '*' ∧
        c ≠ '!' ∧ c ≠ '|' ∧ c ≠ '>' ∧ c ≠ '\'' ∧ c ≠ '"' := by
      simpa [isOpening] using hopening
    have hseparators : s.at_.atSeparator '-' = false ∧ s.at_.atSeparator '.' = false := by
      simpa [Cursor.atDocumentMark] using Cursor.atDocumentMark_of_column hcolumn
    have hplain : isIndicator c = true ∧ ((c = '-' ∨ c = '?' ∨ c = ':') → atBlank r = true) := by
      simpa [hrest, startsPlain, hc, or_assoc] using hstart
    unfold token?
    simp only [hrest, hseparators, hflow, Bool.false_eq_true, if_false, hcolumn]
    by_cases hdash : c = '-'
    · obtain rfl := hdash
      simp [hplain.2 (.inl rfl), dash?, hkey, hflow]
    · by_cases hquestion : c = '?'
      · obtain rfl := hquestion
        simp [hplain.2 (.inr (.inl rfl)), key?, hkey, hflow]
      · by_cases hcolon : c = ':'
        · obtain rfl := hcolon
          simp [hplain.2 (.inr (.inr rfl)), value?, hkey, hflow, hkeys]
        · simp [hmarks, hdash, hquestion, hcolon, hplain.1]

theorem run?_congr
    (h : s.skipBlanks (s.at_.rest.length + 1) = t.skipBlanks (t.at_.rest.length + 1)) :
    run? (n + 1) s = run? (n + 1) t := by
  rw [run?, run?, h]

theorem run?_none (ht : s.skipBlanks (s.at_.rest.length + 1) = t) (hsettled : t.IsSettled)
    (hrest : t.at_.rest ≠ []) (htoken : t.token? = none) : run? (n + 1) s = none := by
  rw [run?_token ht hsettled hrest, htoken, Option.bind_none]

theorem plain?_line {j : Int} (hw : IsOneLine w) (htail : IsTail tail) (hj : j ≤ 0)
    (hout : (cutPlain true w).2 = [] → tail ≠ [] → j = 0) (hstart : startsPlain w = true)
    (hmark : p.atDocumentMark = false) (hp : p.rest = w ++ tail) :
    plain? false j p = some (trimSpaces (cutPlain true w).1, plainEnd w tail p) := by
  obtain ⟨-, hblank⟩ := head?_of_startsPlain hw hstart
  have hhead : ∀ c ∈ w.head?, isSpace c = false := by
    intro c hc
    obtain ⟨r, rfl⟩ := List.head?_eq_some_iff.1 hc
    simp only [atBlank, Bool.or_eq_false_iff] at hblank
    exact hblank.1
  have hshown (t : Text) : (Gap.start false).shown t = t := by
    unfold Gap.shown
    split
    · next h => exact h.symm
    · rfl
  unfold plain?
  rw [takePlain?_line hw htail (by omega) (fun h h' ↦ by rw [hout h h']; rfl) hhead
    (by rw [hp, List.length_append]; omega) rfl hmark hp, hshown]

theorem plainScalar?_eq {b : Bool} {x : Text} {q : Cursor} (hs : s.saveKey? = some t)
    (hp : plain? t.inFlow t.indent t.at_ = some (x, b, q)) :
    s.plainScalar? = some (((t.move q).allowKey b).push (.scalar x true)) := by
  unfold plainScalar?
  simp only [hs, hp, Option.bind_eq_bind, Option.bind_some]
  rfl

end Scan

end Markbook.Yaml
