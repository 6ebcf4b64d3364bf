import Markbook.Proofs.Text.Lines
import Markbook.Proofs.Yaml.Scan

/-!
# Lines of One Entry

A mapping written one entry a line, keys and values without any quotes, is cut into the tokens of
its lines (`Yaml.tokens?_lines`).  One value that a line cannot hold stops the scanner for good.
-/

namespace Markbook.Yaml

variable {k v w tail next : Text} {n : Nat}

/-! ## What a line holds -/

/-- A key that is read as it stands from the beginning of a line, up to a colon and a space. -/
structure IsPlainKey (k : Text) : Prop where
  oneLine : IsOneLine k
  starts : startsPlain (k ++ [':']) = true
  cut : cutPlain true (k ++ [':', ' ']) = (k, [':', ' '])
  trimmed : trimSpaces k = k
  short : k.length ≤ 1024
  unmarked : k.head? ≠ some '\ufeff'
  apart : (Cursor.start (k ++ [':'])).atDocumentMark = false

instance (k : Text) : Decidable (IsPlainKey k) :=
  decidable_of_iff
    (IsOneLine k ∧ startsPlain (k ++ [':']) = true ∧
      cutPlain true (k ++ [':', ' ']) = (k, [':', ' ']) ∧ trimSpaces k = k ∧ k.length ≤ 1024 ∧
      k.head? ≠ some '\ufeff' ∧ (Cursor.start (k ++ [':'])).atDocumentMark = false)
    ⟨fun ⟨hline, hstarts, hcut, htrimmed, hshort, hunmarked, hapart⟩ ↦
        ⟨hline, hstarts, hcut, htrimmed, hshort, hunmarked, hapart⟩,
      fun h ↦ ⟨h.oneLine, h.starts, h.cut, h.trimmed, h.short, h.unmarked, h.apart⟩⟩

namespace IsPlainKey

theorem ne_nil (h : IsPlainKey k) : k ≠ [] := by
  rintro rfl
  exact absurd h.starts (by decide)

/-- What follows the colon does not change how the key begins. -/
theorem startsPlain_append (h : IsPlainKey k) (r : Text) : startsPlain (k ++ ':' :: r) = true := by
  obtain ⟨c, k, rfl⟩ := List.exists_cons_of_ne_nil h.ne_nil
  have hstart := h.starts
  rw [List.cons_append, startsPlain] at hstart ⊢
  rwa [atBlank_append_cons]

theorem isStart (h : IsPlainKey k) (r : Text) : IsStart (k ++ r) := by
  have hline : IsOneLine (k ++ [':']) :=
    isOneLine_append.2 ⟨h.oneLine, isOneLine_cons.2 ⟨by decide, by simp [IsOneLine]⟩⟩
  obtain ⟨hhash, hblank⟩ := head?_of_startsPlain hline h.starts
  have hmark := h.unmarked
  obtain ⟨c, k, rfl⟩ := List.exists_cons_of_ne_nil h.ne_nil
  obtain ⟨hspace, hbreak⟩ := Bool.or_eq_false_iff.1 hblank
  exact ⟨c, k ++ r, rfl, hspace, hbreak, by simpa using hhash, by simpa using hmark⟩

theorem cutPlain_append (h : IsPlainKey k) (r : Text) :
    cutPlain true (k ++ ':' :: ' ' :: r) = (k, ':' :: ' ' :: r) := by
  have hcut (b : Bool) (s : Text) (hs : cutPlain b (s ++ [':', ' ']) = (s, [':', ' '])) :
      cutPlain b (s ++ ':' :: ' ' :: r) = (s, ':' :: ' ' :: r) := by
    induction s generalizing b with
    | nil => simp [cutPlain, atBlank, isSpace]
    | cons c s ih =>
      rw [List.cons_append, cutPlain, atBlank_append_cons] at hs ⊢
      split at hs
      · simp at hs
      · next hgo =>
        have hrest : cutPlain (isSpace c) (s ++ [':', ' ']) = (s, [':', ' ']) := by
          simpa [Prod.ext_iff] using hs
        rw [if_neg hgo, ih (isSpace c) hrest]
  exact hcut true k h.cut

theorem atDocumentMark_append (h : IsPlainKey k) (r : Text) (i l : Nat) :
    Cursor.atDocumentMark ⟨k ++ ':' :: r, i, l, 0⟩ = false := by
  have happart := h.apart
  unfold Cursor.start at happart
  unfold Cursor.atDocumentMark Cursor.atSeparator Cursor.startsWith at happart ⊢
  rcases k with _ | ⟨a, _ | ⟨b, _ | ⟨c, k⟩⟩⟩
  · simp
  · simp
  · simp
  · simpa [atBlank_append_cons k ':' r] using happart

end IsPlainKey

/-- The text of the plain scalar that a line holds behind a key, empty when there is none.  There
is no such text when the line breaks a rule of plain scalars. -/
def lineText? (v : Text) : Option Text :=
  let w := v.dropWhile isSpace
  if w = [] ∨ w.head? = some '#' then some []
  else if startsPlain w && (cutPlain true w).2.head? ≠ some ':' then
    some (trimSpaces (cutPlain true w).1)
  else none

/-- A value of one line that does not begin with an opening mark. -/
structure IsPlainValue (v : Text) : Prop where
  oneLine : IsOneLine v
  unopened : (v.dropWhile isSpace).head?.any isOpening = false

instance (v : Text) : Decidable (IsPlainValue v) :=
  decidable_of_iff (IsOneLine v ∧ (v.dropWhile isSpace).head?.any isOpening = false)
    ⟨fun ⟨hline, hunopened⟩ ↦ ⟨hline, hunopened⟩, fun h ↦ ⟨h.oneLine, h.unopened⟩⟩

/-- The line of an entry. -/
def entryLine (e : Text × Text) : Text := e.1 ++ ':' :: ' ' :: e.2

/-- The keys with the texts that their lines hold, if every line holds one. -/
def lineTexts? (l : List (Text × Text)) : Option (List (Text × Text)) :=
  l.mapM fun e ↦ (lineText? e.2).map fun t ↦ (e.1, t)

theorem lineTexts?_cons (e : Text × Text) (l : List (Text × Text)) :
    lineTexts? (e :: l) =
      (lineText? e.2).bind fun t ↦ (lineTexts? l).map fun x ↦ (e.1, t) :: x := by
  unfold lineTexts?
  rw [List.mapM_cons]
  cases lineText? e.2 with
  | none => rfl
  | some t =>
    simp only [Option.bind_eq_bind, Option.bind_some, Option.map_eq_bind]
    rfl

namespace Scan

variable {s t : Scan} {r : Text} {p : Cursor}

/-! ## The tokens of an entry -/

/-- The scanner in front of a line, of the first one of a mapping or of a later one. -/
def atLine (first : Bool) (r : Text) (i l : Nat) (T : List Token) : Scan :=
  ⟨⟨r, i, l, 0⟩, T.toArray, if first then -1 else 0, if first then [] else [-1], [none], true⟩

/-- The scanner in front of the colon behind a key of `m` characters, which is the last token. -/
def atColon (first : Bool) (r : Text) (i l m : Nat) (T : List Token) (k : Text) : Scan :=
  ⟨⟨r, i + m, l, m⟩, (T ++ [Token.scalar k true]).toArray, if first then -1 else 0,
    if first then [] else [-1], [some ⟨!first, T.length, i, l, 0⟩], false⟩

/-- The scanner behind the colon of a key. -/
def inLine (p : Cursor) (T : List Token) : Scan := ⟨p, T.toArray, 0, [-1], [none], false⟩

/-- The tokens up to the colon of a key.  The first key opens the mapping. -/
def keyTokens (first : Bool) (k : Text) : List Token :=
  (if first then [.mappingStart] else []) ++ [.key, .scalar k true, .value]

variable {b : Bool} {i l m : Nat} {T : List Token}

theorem isSettled_atLine : (atLine b r i l T).IsSettled := by
  constructor
  · rfl
  · cases b
    · rfl
    · rfl

theorem isSettled_atColon (hm : m ≤ 1024) : (atColon b r i l m T k).IsSettled := by
  constructor
  · simp [dropStale?, atColon, Nat.not_lt.2 hm]
  · cases b
    · rfl
    · rfl

theorem isSettled_inLine : (inLine p T).IsSettled := ⟨rfl, rfl⟩

/-- The key of a line is read up to its colon. -/
theorem run?_key (hk : IsPlainKey k) (hv : IsOneLine v) (htail : IsTail tail) :
    run? (n + 1) (atLine b (k ++ ':' :: ' ' :: v ++ tail) i l T) =
      run? n (atColon b (':' :: ' ' :: v ++ tail) i l k.length T k) := by
  have hline : IsOneLine (k ++ ':' :: ' ' :: v) :=
    isOneLine_append.2 ⟨hk.oneLine, isOneLine_cons.2 ⟨by decide, isOneLine_cons.2 ⟨by decide, hv⟩⟩⟩
  have hcut := hk.cutPlain_append v
  have hsplit : k ++ ':' :: ' ' :: v ++ tail = k ++ ':' :: (' ' :: v ++ tail) := by simp
  have hne : k ++ ':' :: ' ' :: v ++ tail ≠ [] := by simp
  have hstart : startsPlain (k ++ ':' :: ' ' :: v) = true := hk.startsPlain_append _
  have hmark : Cursor.atDocumentMark ⟨k ++ ':' :: ' ' :: v ++ tail, i, l, 0⟩ = false := by
    rw [hsplit]
    exact hk.atDocumentMark_append _ i l
  obtain ⟨hhash, hblank⟩ := head?_of_startsPlain hline hstart
  have hhead : (k ++ ':' :: ' ' :: v ++ tail).head? = k.head? := by
    rw [hsplit, List.head?_append_of_ne_nil _ hk.ne_nil]
  rw [List.head?_append_of_ne_nil _ hk.ne_nil] at hhash
  have hskip : (atLine b (k ++ ':' :: ' ' :: v ++ tail) i l T).skipBlanks
      ((k ++ ':' :: ' ' :: v ++ tail).length + 1) =
        atLine b (k ++ ':' :: ' ' :: v ++ tail) i l T := by
    rw [skipBlanks_text (u := []) (v := k ++ ':' :: ' ' :: v ++ tail) rfl (by simp) (by simp) hne
      (by rw [htail.atBlank_append, hblank]) (by rwa [hhead])
      (.inr (hhead.trans_ne hk.unmarked))]
    rfl
  have htoken : (atLine b (k ++ ':' :: ' ' :: v ++ tail) i l T).token? =
      some (atColon b (':' :: ' ' :: v ++ tail) i l k.length T k) := by
    have hplain : plain? false (if b then -1 else 0) ⟨k ++ ':' :: ' ' :: v ++ tail, i, l, 0⟩ =
        some (k, false, ⟨':' :: ' ' :: v ++ tail, i + k.length, l, k.length⟩) := by
      have hend : plainEnd (k ++ ':' :: ' ' :: v) tail ⟨k ++ ':' :: ' ' :: v ++ tail, i, l, 0⟩ =
          (false, ⟨':' :: ' ' :: v ++ tail, i + k.length, l, k.length⟩) := by
        simp [plainEnd, hcut, Cursor.skip]
      rw [plain?_line hline htail (by cases b <;> decide) (by simp [hcut]) hstart hmark rfl,
        hcut, hk.trimmed, hend]
    have hsave : (atLine b (k ++ ':' :: ' ' :: v ++ tail) i l T).saveKey? =
        some { atLine b (k ++ ':' :: ' ' :: v ++ tail) i l T with
          keys := [some ⟨!b, T.length, i, l, 0⟩] } := by
      cases b <;> rfl
    rw [token?_plain rfl hmark (by rw [hsplit]; exact hk.startsPlain_append _),
      plainScalar?_eq hsave hplain]
    simp [move, allowKey, push, atLine, atColon]
  rw [run?_token hskip isSettled_atLine hne, htoken, Option.bind_some]

/-- The colon puts the key in front of its text, and for the first key the start of the mapping. -/
theorem run?_colon (hm : 0 < m) (hm' : m ≤ 1024) :
    run? (n + 1) (atColon b (':' :: ' ' :: r) i l m T k) =
      run? n (inLine ⟨' ' :: r, i + m + 1, l, m + 1⟩ (T ++ keyTokens b k)) := by
  have hskip : (atColon b (':' :: ' ' :: r) i l m T k).skipBlanks
      ((':' :: ' ' :: r).length + 1) = atColon b (':' :: ' ' :: r) i l m T k := by
    rw [skipBlanks_text (u := []) (v := ':' :: ' ' :: r) rfl (by simp) (by simp) (by simp) rfl
      (by simp) (.inl hm.ne')]
    rfl
  have hvalue : (atColon b (':' :: ' ' :: r) i l m T k).token? =
      some (inLine ⟨' ' :: r, i + m + 1, l, m + 1⟩ (T ++ keyTokens b k)) := by
    have htoken : (atColon b (':' :: ' ' :: r) i l m T k).token? =
        (atColon b (':' :: ' ' :: r) i l m T k).value? := by
      have hmark := Cursor.atDocumentMark_of_column (p := ⟨':' :: ' ' :: r, i + m, l, m⟩) hm.ne'
      have hseparators : Cursor.atSeparator ⟨':' :: ' ' :: r, i + m, l, m⟩ '-' = false ∧
          Cursor.atSeparator ⟨':' :: ' ' :: r, i + m, l, m⟩ '.' = false := by
        simpa [Cursor.atDocumentMark] using hmark
      simp [token?, atColon, hseparators, inFlow, atBlank, isSpace]
    rw [htoken]
    cases b with
    | true => simp [value?, atColon, inLine, indentTo, inFlow, move, allowKey, push, keyTokens,
        Cursor.skip]
    | false => simp [value?, atColon, inLine, indentTo, inFlow, move, allowKey, push, keyTokens,
        Cursor.skip]
  rw [run?_token hskip (isSettled_atColon hm') (by simp [atColon]), hvalue, Option.bind_some]

/-! ## The value of a line -/

/-- The scanner returns this, whatever fuel it has beyond the length of the text. -/
def Runs (s : Scan) (x : Option (List Token)) : Prop := ∀ n, s.at_.rest.length < n → run? n s = x

/-- What the scanner returns behind a line, as a function of the tokens so far. -/
inductive Follows : Text → (List Token → Option (List Token)) → Prop where
  | finished : Follows [] fun T ↦ some (T ++ [.blockEnd])
  | line {next : Text} {f : List Token → Option (List Token)} (hnext : IsStart next)
      (h : ∀ i l T, Runs (atLine false next i l T) (f T)) : Follows ('\n' :: next) f

variable {f : List Token → Option (List Token)}

theorem Follows.isTail (h : Follows tail f) : IsTail tail := by
  cases h with
  | finished => exact .inl rfl
  | line hnext => exact .inr ⟨_, rfl, hnext.atBlank⟩

/-- A line with nothing more to read ends the entry. -/
theorem runs_bare (hp : p.rest = w ++ tail) (hw : IsOneLine w) (hbare : IsBare w)
    (h : Follows tail f) (hcolumn : p.column ≠ 0) : Runs (inLine p T) (f T) := by
  intro n hn
  obtain ⟨n, rfl⟩ := Nat.exists_eq_add_one_of_ne_zero (Nat.ne_zero_of_lt hn)
  cases h with
  | finished =>
    rw [List.append_nil] at hp
    have hskip : (inLine p T).skipBlanks (p.rest.length + 1) = inLine (p.skip w.length) T :=
      skipBlanks_bare hp hw hbare rfl hcolumn
    have hrest : (p.skip w.length).rest = [] := by
      apply Cursor.rest_skip_append
      rw [hp, List.append_nil]
    rw [run?_finished hskip isSettled_inLine hrest]
    simp [inLine, dedentTo, inFlow, closeBlocks, dropKey?]
  | @line next f hnext h =>
    have hbreak : (p.skip w.length).skipBreak = ⟨next, p.index + w.length + 1, p.line + 1, 0⟩ := by
      unfold Cursor.skipBreak
      rw [Cursor.rest_skip_append hp]
      rfl
    have hlen : next.length < p.rest.length := by
      rw [hp, List.length_append, List.length_cons]
      omega
    rw [← h (p.index + w.length + 1) (p.line + 1) T (n + 1) (hlen.trans hn)]
    have hstay (m : Nat) : (atLine false next (p.index + w.length + 1) (p.line + 1) T).skipBlanks
        (m + 1) = atLine false next (p.index + w.length + 1) (p.line + 1) T :=
      skipBlanks_start hnext
    have hskip : (inLine p T).skipBlanks (p.rest.length + 1) =
        atLine false next (p.index + w.length + 1) (p.line + 1) T := by
      obtain ⟨m, hm⟩ := Nat.exists_eq_add_one_of_ne_zero (Nat.ne_zero_of_lt hlen)
      rw [skipBlanks_feed hp hw hbare hnext.atBlank rfl rfl hcolumn]
      change skipBlanks _ ⟨(p.skip w.length).skipBreak, _, _, _, _, _⟩ = _
      rw [hbreak, hm]
      exact hstay m
    apply run?_congr
    exact hskip.trans (hstay _).symm

/-- A plain scalar behind the colon is one token. -/
theorem run?_plain {u : Text} {b : Bool} {q : Cursor} (hp : p.rest = u ++ (w ++ tail))
    (hu : ∀ c ∈ u, isSpace c = true) (hw : IsOneLine w) (htail : IsTail tail)
    (hstart : startsPlain w = true) (hcolumn : p.column ≠ 0)
    (hend : plainEnd w tail (p.skip u.length) = (b, q)) :
    run? (n + 1) (inLine p T) =
      run? n { inLine q (T ++ [.scalar (trimSpaces (cutPlain true w).1) true]) with
        keyAllowed := b } := by
  obtain ⟨hhash, hblank⟩ := head?_of_startsPlain hw hstart
  have hne : w ≠ [] := by
    rintro rfl
    exact absurd hstart (by decide)
  have hrest : (p.skip u.length).rest = w ++ tail := Cursor.rest_skip_append hp
  have hcolumn' : (p.skip u.length).column ≠ 0 := by
    change p.column + u.length ≠ 0
    omega
  have hskip : (inLine p T).skipBlanks (p.rest.length + 1) = inLine (p.skip u.length) T :=
    skipBlanks_text (s := inLine p T) hp hu (fun _ ↦ rfl) (by simp [hne])
      (by rw [htail.atBlank_append, hblank]) (by rwa [List.head?_append_of_ne_nil _ hne])
      (.inl hcolumn)
  have hmark := Cursor.atDocumentMark_of_column hcolumn'
  have hplain := plain?_line (j := 0) hw htail (Int.le_refl 0) (fun _ _ ↦ rfl) hstart hmark hrest
  rw [hend] at hplain
  have htoken : (inLine (p.skip u.length) T).token? =
      some { inLine q (T ++ [.scalar (trimSpaces (cutPlain true w).1) true]) with
        keyAllowed := b } := by
    have hstart' : startsPlain (p.skip u.length).rest = true := by
      rw [hrest, startsPlain_tail htail hstart]
    rw [token?_plain (s := inLine (p.skip u.length) T) rfl hmark hstart',
      plainScalar?_eq (s := inLine (p.skip u.length) T) rfl hplain]
    simp [inLine, move, allowKey, push]
  rw [run?_token hskip isSettled_inLine (by simp [inLine, hrest, hne]), htoken, Option.bind_some]

/-- A second colon on the line stops the scanner. -/
theorem runs_colon (hp : p.rest = ':' :: r) (hr : atBlank r = true) (hcolumn : p.column ≠ 0) :
    Runs (inLine p T) none := by
  intro n hn
  obtain ⟨n, rfl⟩ := Nat.exists_eq_add_one_of_ne_zero (Nat.ne_zero_of_lt hn)
  have hskip : (inLine p T).skipBlanks (p.rest.length + 1) = inLine p T :=
    skipBlanks_text (s := inLine p T) (u := []) (v := ':' :: r) hp (by simp) (by simp) (by simp) rfl
      (by simp) (.inl hcolumn)
  refine run?_none hskip isSettled_inLine (by simp [inLine, hp]) ?_
  apply token?_none rfl rfl rfl hcolumn
  · change startsPlain p.rest = false
    rw [hp, startsPlain, hr]
    rfl
  · change ∀ c ∈ p.rest.head?, _
    rw [hp]
    simp [isSpace, isOpening]

/-- What begins no plain scalar stops the scanner, if no opening mark does. -/
theorem runs_unplain {u : Text} (hp : p.rest = u ++ (w ++ tail)) (hu : ∀ c ∈ u, isSpace c = true)
    (hw : IsOneLine w) (hne : w ≠ []) (htail : IsTail tail) (hstart : startsPlain w = false)
    (hhead : ∀ c ∈ w.head?, isSpace c = false ∧ c ≠ '#' ∧ isOpening c = false)
    (hcolumn : p.column ≠ 0) : Runs (inLine p T) none := by
  intro n hn
  obtain ⟨n, rfl⟩ := Nat.exists_eq_add_one_of_ne_zero (Nat.ne_zero_of_lt hn)
  obtain ⟨c, r, rfl⟩ := List.exists_cons_of_ne_nil hne
  obtain ⟨hspace, hhash, hopening⟩ := hhead c rfl
  have hrest : (p.skip u.length).rest = c :: (r ++ tail) := Cursor.rest_skip_append hp
  have hskip : (inLine p T).skipBlanks (p.rest.length + 1) = inLine (p.skip u.length) T :=
    skipBlanks_text (s := inLine p T) hp hu (fun _ ↦ rfl) (by simp)
      (by simp [atBlank, hspace, (isOneLine_cons.1 hw).1.2]) (by simpa using hhash) (.inl hcolumn)
  refine run?_none hskip isSettled_inLine (by simp [inLine, hrest]) ?_
  apply token?_none rfl rfl rfl
  · change p.column + u.length ≠ 0
    omega
  · change startsPlain (p.skip u.length).rest = false
    rw [hrest, startsPlain, htail.atBlank_append]
    exact hstart
  · change ∀ d ∈ (p.skip u.length).rest.head?, _
    rw [hrest]
    simpa using ⟨hspace, hopening⟩

/-- A plain scalar that goes to the end of its line takes the line feed with it, so the scanner is
in front of the next line. -/
theorem runs_plain_feed {u : Text} (hp : p.rest = u ++ (w ++ '\n' :: next))
    (hu : ∀ c ∈ u, isSpace c = true) (hw : IsOneLine w) (hstart : startsPlain w = true)
    (hnil : (cutPlain true w).2 = []) (hnext : IsStart next)
    (h : ∀ i l T, Runs (atLine false next i l T) (f T)) (hcolumn : p.column ≠ 0) :
    Runs (inLine p T) (f (T ++ [.scalar (trimSpaces (cutPlain true w).1) true])) := by
  intro n hn
  obtain ⟨n, rfl⟩ := Nat.exists_eq_add_one_of_ne_zero (Nat.ne_zero_of_lt hn)
  have hfeed : ((p.skip u.length).skip w.length).rest = '\n' :: next :=
    Cursor.rest_skip_append (Cursor.rest_skip_append hp)
  have hend : plainEnd w ('\n' :: next) (p.skip u.length) =
      (true, ⟨next, p.index + u.length + w.length + 1, p.line + 1, 0⟩) := by
    rw [plainEnd, if_pos ⟨hnil, List.cons_ne_nil _ _⟩]
    unfold Cursor.skipBreak
    rw [hfeed]
    rfl
  have hlen : next.length < n := by
    have hn' : p.rest.length < n + 1 := hn
    rw [hp, List.length_append, List.length_append, List.length_cons] at hn'
    omega
  rw [run?_plain hp hu hw (.inr ⟨next, rfl, hnext.atBlank⟩) hstart hcolumn hend]
  exact h _ _ _ n hlen

/-- A plain scalar that stops in front of the line feed leaves a bare line, or a second colon. -/
theorem runs_plain_stop {u : Text} (hp : p.rest = u ++ (w ++ tail)) (hu : ∀ c ∈ u, isSpace c = true)
    (hw : IsOneLine w) (hstart : startsPlain w = true)
    (hstop : ¬ ((cutPlain true w).2 = [] ∧ tail ≠ [])) (h : Follows tail f)
    (hcolumn : p.column ≠ 0) :
    Runs (inLine p T)
      (if (cutPlain true w).2.head? = some ':' then none
      else f (T ++ [.scalar (trimSpaces (cutPlain true w).1) true])) := by
  intro n hn
  obtain ⟨n, rfl⟩ := Nat.exists_eq_add_one_of_ne_zero (Nat.ne_zero_of_lt hn)
  have hsplit := cutPlain_append true w
  have hrest : ((p.skip u.length).skip (cutPlain true w).1.length).rest =
      (cutPlain true w).2 ++ tail := by
    apply Cursor.rest_skip_append
    apply Cursor.rest_skip_append
    rw [hp, ← List.append_assoc (cutPlain true w).1, hsplit]
  have hend : plainEnd w tail (p.skip u.length) =
      (false, (p.skip u.length).skip (cutPlain true w).1.length) := if_neg hstop
  have hlen : ((p.skip u.length).skip (cutPlain true w).1.length).rest.length < n := by
    have hn' : p.rest.length < n + 1 := hn
    obtain ⟨c, s, hc, -⟩ := exists_cutPlain_cons hw hstart
    have hpos : 0 < (cutPlain true w).1.length := by simp [hc]
    rw [hp, ← hsplit, List.length_append, List.length_append, List.length_append] at hn'
    rw [hrest, List.length_append]
    omega
  have hcolumn' : ((p.skip u.length).skip (cutPlain true w).1.length).column ≠ 0 := by
    change p.column + u.length + (cutPlain true w).1.length ≠ 0
    omega
  have hline : IsOneLine (cutPlain true w).2 := by
    rw [← hsplit] at hw
    exact (isOneLine_append.1 hw).2
  rw [run?_plain hp hu hw h.isTail hstart hcolumn hend]
  rcases cutPlain_rest true w with hnil | hhash | ⟨r, hcolon, hr⟩
  · rw [hnil]
    exact runs_bare hrest hline (.inl (by rw [hnil]; rfl)) h hcolumn' n hlen
  · have hbare : IsBare (cutPlain true w).2 := by
      obtain ⟨r, hr⟩ := List.head?_eq_some_iff.1 hhash
      rw [hr]
      exact .inr rfl
    rw [hhash]
    exact runs_bare hrest hline hbare h hcolumn' n hlen
  · rw [hcolon] at hrest ⊢
    exact runs_colon hrest ((h.isTail.atBlank_append r).trans hr) hcolumn' n hlen

/-- A plain scalar ends its entry, or stops the scanner by a second colon. -/
theorem runs_plain {u : Text} (hp : p.rest = u ++ (w ++ tail)) (hu : ∀ c ∈ u, isSpace c = true)
    (hw : IsOneLine w) (hstart : startsPlain w = true) (h : Follows tail f)
    (hcolumn : p.column ≠ 0) :
    Runs (inLine p T)
      (if (cutPlain true w).2.head? = some ':' then none
      else f (T ++ [.scalar (trimSpaces (cutPlain true w).1) true])) := by
  by_cases hgoes : (cutPlain true w).2 = [] ∧ tail ≠ []
  · cases h with
    | finished => exact absurd rfl hgoes.2
    | line hnext h =>
      rw [if_neg (by simp [hgoes.1])]
      exact runs_plain_feed hp hu hw hstart hgoes.1 hnext h hcolumn
  · exact runs_plain_stop hp hu hw hstart hgoes h hcolumn

/-- The tokens of a value; there is none for an empty one. -/
def valueTokens (t : Text) : List Token := if t = [] then [] else [.scalar t true]

/-- The rest of a line behind its key adds the token of its value, or stops the scanner. -/
theorem runs_value (hv : IsPlainValue v) (h : Follows tail f) (hp : p.rest = ' ' :: v ++ tail)
    (hcolumn : p.column ≠ 0) :
    Runs (inLine p T) ((lineText? v).bind fun t ↦ f (T ++ valueTokens t)) := by
  have hdrop : (' ' :: v).dropWhile isSpace = v.dropWhile isSpace := rfl
  have hline : IsOneLine (' ' :: v) := isOneLine_cons.2 ⟨by decide, hv.oneLine⟩
  unfold lineText?
  simp only
  split
  · next hbare =>
    have hruns := runs_bare hp hline (by rwa [IsBare, hdrop]) h hcolumn (T := T)
    simpa [valueTokens] using hruns
  · next hbare =>
    have hp' : p.rest = (' ' :: v.takeWhile isSpace) ++ (v.dropWhile isSpace ++ tail) := by
      rw [hp, List.cons_append, List.cons_append, ← List.append_assoc,
        List.takeWhile_append_dropWhile]
    have hspaces : ∀ c ∈ ' ' :: v.takeWhile isSpace, isSpace c = true := by
      rw [List.forall_mem_cons]
      exact ⟨rfl, fun c hc ↦ List.mem_takeWhile_imp hc⟩
    have hrest : IsOneLine (v.dropWhile isSpace) :=
      fun c hc ↦ hv.oneLine c ((List.dropWhile_sublist _).subset hc)
    rw [not_or] at hbare
    by_cases hstart : startsPlain (v.dropWhile isSpace) = true
    · have hruns := runs_plain hp' hspaces hrest hstart h hcolumn (T := T)
      rw [hstart]
      by_cases hcolon : (cutPlain true (v.dropWhile isSpace)).2.head? = some ':'
      · simpa [hcolon] using hruns
      · have hne : trimSpaces (cutPlain true (v.dropWhile isSpace)).1 ≠ [] := by
          obtain ⟨c, s, hc, hspace⟩ := exists_cutPlain_cons hrest hstart
          unfold trimSpaces
          rw [Ne, List.rdropWhile_eq_nil_iff, hc]
          simp [hspace]
        simpa [hcolon, valueTokens, hne] using hruns
    · rw [Bool.not_eq_true] at hstart
      rw [hstart]
      apply runs_unplain hp' hspaces hrest hbare.1 h.isTail hstart _ hcolumn
      intro c hc
      have hopening := hv.unopened
      rw [Option.mem_def.1 hc] at hopening
      refine ⟨?_, ?_, hopening⟩
      · have := List.head?_dropWhile_not isSpace v
        simpa [Option.mem_def.1 hc] using this
      · rintro rfl
        exact hbare.2 hc

/-! ## Lines one after another -/

/-- The line of an entry adds its tokens, or stops the scanner. -/
theorem runs_line {e : Text × Text} (hk : IsPlainKey e.1) (hv : IsPlainValue e.2)
    (h : Follows tail f) :
    Runs (atLine b (entryLine e ++ tail) i l T)
      ((lineText? e.2).bind fun t ↦ f (T ++ keyTokens b e.1 ++ valueTokens t)) := by
  obtain ⟨k, v⟩ := e
  intro n hn
  obtain ⟨n, rfl⟩ : ∃ m, n = m + 2 := by
    refine ⟨n - 2, ?_⟩
    have hn' : (k ++ ':' :: ' ' :: v ++ tail).length < n := hn
    simp only [List.length_append, List.length_cons] at hn'
    omega
  have hpos : 0 < k.length := List.length_pos_iff.2 hk.ne_nil
  have hlen : (' ' :: v ++ tail).length < n := by
    have hn' : (k ++ ':' :: ' ' :: v ++ tail).length < n + 2 := hn
    simp only [List.length_append, List.length_cons] at hn' ⊢
    omega
  calc run? (n + 2) (atLine b (k ++ ':' :: ' ' :: v ++ tail) i l T)
      = run? (n + 1) (atColon b (':' :: ' ' :: v ++ tail) i l k.length T k) :=
        run?_key hk hv.oneLine h.isTail
    _ = run? n (inLine ⟨' ' :: v ++ tail, i + k.length + 1, l, k.length + 1⟩
          (T ++ keyTokens b k)) := run?_colon hpos hk.short
    _ = _ := runs_value hv h rfl (Nat.succ_ne_zero _) n hlen

/-- The tokens of an entry behind the first one. -/
def entryTokens (e : Text × Text) : List Token := keyTokens false e.1 ++ valueTokens e.2

theorem runs_lines {L : List (Text × Text)} (hL : L ≠ []) (hk : ∀ e ∈ L, IsPlainKey e.1)
    (hv : ∀ e ∈ L, IsPlainValue e.2) :
    Runs (atLine b (Text.unlines (L.map entryLine)) i l T)
      ((lineTexts? L).map fun x ↦
        T ++ (if b then [.mappingStart] else []) ++ x.flatMap entryTokens ++ [.blockEnd]) := by
  induction L generalizing b i l T with
  | nil => exact absurd rfl hL
  | cons e L ih =>
    obtain ⟨hke, hkL⟩ := List.forall_mem_cons.1 hk
    obtain ⟨hve, hvL⟩ := List.forall_mem_cons.1 hv
    have htokens (t : Text) (x : List (Text × Text)) :
        T ++ keyTokens b e.1 ++ valueTokens t ++ x.flatMap entryTokens ++ [.blockEnd] =
          T ++ (if b then [.mappingStart] else []) ++ ((e.1, t) :: x).flatMap entryTokens ++
            [.blockEnd] := by
      cases b <;> simp [entryTokens, keyTokens]
    rw [lineTexts?_cons, Option.map_bind]
    by_cases hnil : L = []
    · have hline := runs_line (b := b) (i := i) (l := l) (T := T) hke hve .finished
      rw [List.append_nil] at hline
      rw [hnil]
      have hlast (t : Text) : T ++ keyTokens b e.1 ++ valueTokens t ++ [.blockEnd] =
          T ++ (if b then [.mappingStart] else []) ++ [(e.1, t)].flatMap entryTokens ++
            [.blockEnd] := by
        rw [← htokens, List.flatMap_nil, List.append_nil]
      simp only [hlast] at hline
      exact hline
    · have hstart : IsStart (Text.unlines (L.map entryLine)) := by
        obtain ⟨d, L, rfl⟩ := List.exists_cons_of_ne_nil hnil
        have hkd := hkL d List.mem_cons_self
        cases L with
        | nil => exact hkd.isStart _
        | cons d' L =>
          rw [List.map_cons, Text.unlines_cons (by simp), entryLine, List.append_assoc]
          exact hkd.isStart _
      have hline := runs_line (b := b) (i := i) (l := l) (T := T) hke hve
        (.line hstart fun i l T ↦ ih hnil hkL hvL)
      rw [List.map_cons, Text.unlines_cons (by simpa using hnil)]
      simp only [Bool.false_eq_true, if_false, List.append_nil, htokens] at hline
      simp only [Function.comp_def, Option.map_map]
      exact hline

end Scan

/-- The tokens of a text that holds one entry a line. -/
theorem tokens?_lines {L : List (Text × Text)} (hL : L ≠ []) (hk : ∀ e ∈ L, IsPlainKey e.1)
    (hv : ∀ e ∈ L, IsPlainValue e.2) :
    tokens? (Text.unlines (L.map entryLine)) =
      (lineTexts? L).map fun x ↦ .mappingStart :: x.flatMap Scan.entryTokens ++ [.blockEnd] := by
  have hprintable : (Text.unlines (L.map entryLine)).all isPrintable = true := by
    rw [List.all_eq_true]
    intro c hc
    rcases Text.mem_join hc with hfeed | ⟨s, hs, hc⟩
    · obtain rfl : c = '\n' := by simpa using hfeed
      decide
    · obtain ⟨e, he, rfl⟩ := List.mem_map.1 hs
      rw [entryLine, List.mem_append, List.mem_cons, List.mem_cons] at hc
      rcases hc with hc | rfl | rfl | hc
      · exact ((hk e he).oneLine c hc).1
      · decide
      · decide
      · exact ((hv e he).oneLine c hc).1
  rw [tokens?, if_pos hprintable]
  have hruns := Scan.runs_lines (b := true) (i := 0) (l := 0) (T := []) hL hk hv
  exact hruns _ (Nat.lt_add_of_pos_right (by decide))

end Markbook.Yaml
