import Markbook.Proofs.Text.Cut
import Markbook.Proofs.Text.Trim
import Markbook.Trigger.Condition

/-!
# Cutting Conjunctions

An expression is cut at the first conjunction outside of parentheses and quotes.  What the reader
knows of the text behind it is a `Condition.Nesting`, so a text with no conjunction at the top is
passed over whatever it holds (`Condition.cutAnd?_append`), and an expression of such texts is cut
into exactly these (`Condition.conjuncts_append`).  Cutting loses nothing of any expression but
blanks and the conjunctions themselves (`Condition.exists_conjuncts`).
-/

namespace Markbook.Trigger.Condition

/-- What a reader of conjunctions keeps in mind: the open parentheses, and whether a quote is
open. -/
structure Nesting where
  depth : Nat
  quoted : Bool
deriving DecidableEq

namespace Nesting

/-- Outside of parentheses and quotes. -/
def top : Nesting := ⟨0, false⟩

def next (n : Nesting) (c : Char) : Nesting where
  depth :=
    if n.quoted then n.depth
    else if c = '(' then n.depth + 1
    else if c = ')' then n.depth - 1
    else n.depth
  quoted := if c = '"' then !n.quoted else n.quoted

/-- The nesting behind a text. -/
def after (n : Nesting) (s : Text) : Nesting := s.foldl next n

variable {n : Nesting} {s : Text}

theorem after_append (n : Nesting) (a b : Text) : n.after (a ++ b) = (n.after a).after b :=
  List.foldl_append

theorem after_cons (n : Nesting) (c : Char) (s : Text) :
    n.after (c :: s) = (n.next c).after s := rfl

/-- Inside of a quote only its end counts. -/
theorem after_of_quoted (hn : n.quoted = true) (hs : '"' ∉ s) : n.after s = n := by
  induction s with
  | nil => rfl
  | cons c r ih =>
    rw [List.mem_cons, not_or] at hs
    have hnext : n.next c = n := by
      unfold next
      rw [if_pos hn, if_neg (Ne.symm hs.1)]
    rw [after_cons, hnext, ih hs.2]

theorem after_of_plain (hopen : '(' ∉ s) (hclose : ')' ∉ s) (hs : '"' ∉ s) : n.after s = n := by
  induction s with
  | nil => rfl
  | cons c r ih =>
    rw [List.mem_cons, not_or] at hopen hclose hs
    have hnext : n.next c = n := by
      unfold next
      rw [if_neg (Ne.symm hopen.1), if_neg (Ne.symm hclose.1), if_neg (Ne.symm hs.1), ite_self]
    rw [after_cons, hnext, ih hopen.2 hclose.2 hs.2]

end Nesting

open Nesting

variable {n : Nesting} {a b r s : Text}

/-! ## Texts without a cut -/

/-- No conjunction at the top starts in the first of two texts. -/
def Uncut (n : Nesting) (a r : Text) : Prop :=
  ∀ x y, a = x ++ y → y ≠ [] → n.after x = top → ¬ conjunction <+: y ++ r

theorem cutAnd?_cons (n : Nesting) (c : Char) (r : Text) :
    cutAnd? n.depth n.quoted (c :: r) =
      if n = top ∧ conjunction <+: c :: r then some ([], (c :: r).drop conjunction.length)
      else (cutAnd? (n.next c).depth (n.next c).quoted r).map fun p ↦ (c :: p.1, p.2) := by
  obtain ⟨depth, quoted⟩ := n
  rw [cutAnd?]
  congr 1
  simp only [Nesting.top, Nesting.mk.injEq, Bool.and_eq_true, Bool.not_eq_true', decide_eq_true_eq,
    List.isPrefixOf_iff_prefix, eq_iff_iff, and_congr_left_iff]
  exact fun _ ↦ and_comm

theorem uncut_append (ha : Uncut n a (b ++ r)) (hb : Uncut (n.after a) b r) :
    Uncut n (a ++ b) r := by
  intro x y hxy hy htop
  rcases List.append_eq_append_iff.1 hxy with ⟨z, rfl, rfl⟩ | ⟨z, rfl, rfl⟩
  · rw [after_append] at htop
    exact hb z y rfl hy htop
  · by_cases hz : z = []
    · subst hz
      rw [List.append_nil] at hb
      exact hb [] b rfl (by simpa using hy) htop
    · rw [List.append_assoc]
      exact ha x z rfl hz htop

/-- Reading goes on behind a text in which nothing is cut. -/
theorem cutAnd?_append (h : Uncut n a r) :
    cutAnd? n.depth n.quoted (a ++ r) =
      (cutAnd? (n.after a).depth (n.after a).quoted r).map fun p ↦ (a ++ p.1, p.2) := by
  induction a generalizing n with
  | nil => simp [after]
  | cons c a ih =>
    have hrest : Uncut (n.next c) a r := fun x y hxy hy htop ↦ h (c :: x) y (by simp [hxy]) hy htop
    have hhere : ¬ (n = top ∧ conjunction <+: c :: (a ++ r)) := fun hcut ↦
      h [] (c :: a) rfl (List.cons_ne_nil c a) hcut.1 hcut.2
    rw [List.cons_append, cutAnd?_cons, if_neg hhere, ih hrest, after_cons, Option.map_map]
    rfl

/-- Without a space nothing is cut. -/
theorem uncut_of_space (h : ' ' ∉ a) : Uncut n a r := by
  rintro x y rfl hy - hp
  obtain ⟨c, y, rfl⟩ := List.exists_cons_of_ne_nil hy
  obtain ⟨rfl, -⟩ := List.cons_prefix_cons.1 hp
  simp at h

theorem uncut_of_quoted (hn : n.quoted = true) (h : '"' ∉ a) : Uncut n a r := by
  rintro x y rfl - htop
  rw [List.mem_append, not_or] at h
  rw [after_of_quoted hn h.1] at htop
  subst htop
  exact absurd hn (by decide)

theorem uncut_of_open (hn : n ≠ top) (hopen : '(' ∉ a) (hclose : ')' ∉ a) (h : '"' ∉ a) :
    Uncut n a r := by
  rintro x y rfl - htop
  rw [List.mem_append, not_or] at hopen hclose h
  rw [after_of_plain hopen.1 hclose.1 h.1] at htop
  exact absurd htop hn

/-! ## Whole texts -/

/-- A text that neither is cut nor leaves a parenthesis or a quote open, whatever goes on behind it
with a space. -/
structure IsWhole (a : Text) : Prop where
  closed : top.after a = top
  uncut : ∀ r, r = [] ∨ r.head? = some ' ' → Uncut top a r

theorem IsWhole.append (ha : IsWhole a) (hb : IsWhole b) (hhead : b.head? = some ' ') :
    IsWhole (a ++ b) where
  closed := by rw [after_append, ha.closed, hb.closed]
  uncut := by
    intro r hr
    have hbr : (b ++ r).head? = some ' ' := by rw [List.head?_append, hhead, Option.some_or]
    refine uncut_append (ha.uncut _ (.inr hbr)) ?_
    rw [ha.closed]
    exact hb.uncut r hr

/-- A text without marks. -/
structure IsPlain (a : Text) : Prop where
  opening : '(' ∉ a
  closing : ')' ∉ a
  quote : '"' ∉ a

instance : DecidablePred IsPlain := fun a ↦
  decidable_of_iff ('(' ∉ a ∧ ')' ∉ a ∧ '"' ∉ a)
    ⟨fun h ↦ ⟨h.1, h.2.1, h.2.2⟩, fun h ↦ ⟨h.opening, h.closing, h.quote⟩⟩

theorem IsPlain.append (ha : IsPlain a) (hb : IsPlain b) : IsPlain (a ++ b) where
  opening := by simpa using ⟨ha.opening, hb.opening⟩
  closing := by simpa using ⟨ha.closing, hb.closing⟩
  quote := by simpa using ⟨ha.quote, hb.quote⟩

theorem IsPlain.after_eq (h : IsPlain a) (n : Nesting) : n.after a = n :=
  after_of_plain h.opening h.closing h.quote

theorem isWhole_name (h : IsPlain a) (hspace : ' ' ∉ a) : IsWhole a :=
  ⟨h.after_eq top, fun _ _ ↦ uncut_of_space hspace⟩

/-- A word behind a space is no conjunction unless it is the word `and`. -/
theorem isWhole_word (h : IsPlain a) (hspace : ' ' ∉ a) (hne : a ≠ [])
    (hand : a ≠ ['a', 'n', 'd']) :
    IsWhole (' ' :: a) where
  closed := by
    rw [after_cons]
    exact h.after_eq top
  uncut := by
    rintro r hr x y hxy hy - hp
    cases x with
    | cons c x =>
      obtain ⟨c', y, rfl⟩ := List.exists_cons_of_ne_nil hy
      obtain ⟨rfl, -⟩ := List.cons_prefix_cons.1 hp
      simp only [List.cons_append, List.cons.injEq] at hxy
      rw [hxy.2] at hspace
      simp at hspace
    | nil =>
      rw [List.nil_append] at hxy
      subst hxy
      have hp : ['a', 'n', 'd', ' '] <+: a ++ r := (List.cons_prefix_cons.1 hp).2
      -- The word is shorter than `and` with its space, or it holds that space.
      match a with
      | [] => exact hne rfl
      | [_] =>
        rcases hr with rfl | hr
        · simp at hp
        · obtain ⟨r, rfl⟩ := List.head?_eq_some_iff.1 hr
          simp at hp
      | [_, _] =>
        rcases hr with rfl | hr
        · simp at hp
        · obtain ⟨r, rfl⟩ := List.head?_eq_some_iff.1 hr
          simp at hp
      | [_, _, _] =>
        simp only [List.cons_append, List.cons_prefix_cons] at hp
        obtain ⟨rfl, rfl, rfl, -⟩ := hp
        exact hand rfl
      | _ :: _ :: _ :: d :: a =>
        simp only [List.cons_append, List.cons_prefix_cons] at hp
        obtain ⟨-, -, -, rfl, -⟩ := hp
        simp at hspace

/-- A call passes for whole when its arguments do inside of the parentheses. -/
theorem isWhole_call (ha : IsPlain a) (hspace : ' ' ∉ a)
    (hb : Nesting.after ⟨1, false⟩ b = ⟨1, false⟩) (hcut : ∀ r, Uncut ⟨1, false⟩ b r) :
    IsWhole (a ++ '(' :: b ++ [')']) := by
  have hopen : top.after (a ++ ['(']) = ⟨1, false⟩ := by
    rw [after_append, ha.after_eq]
    rfl
  have hsplit : a ++ '(' :: b ++ [')'] = a ++ ['('] ++ b ++ [')'] := by simp
  rw [hsplit]
  constructor
  · rw [after_append, after_append, hopen, hb]
    rfl
  · intro r _
    refine uncut_append (uncut_append (uncut_of_space ?_) ?_) (uncut_of_space (by decide))
    · simpa using hspace
    · rw [hopen]
      exact hcut _

theorem isWhole_call_of_isPlain (ha : IsPlain a) (hspace : ' ' ∉ a) (hb : IsPlain b) :
    IsWhole (a ++ '(' :: b ++ [')']) :=
  isWhole_call ha hspace (hb.after_eq _) fun _ ↦
    uncut_of_open (by decide) hb.opening hb.closing hb.quote

/-- Nothing but a quote counts inside of quotes. -/
theorem isWhole_call_quoted (ha : IsPlain a) (hspace : ' ' ∉ a) (hb : IsPlain b) (hs : '"' ∉ s) :
    IsWhole (a ++ '(' :: (b ++ '"' :: s ++ ['"']) ++ [')']) := by
  have hopen : Nesting.after ⟨1, false⟩ (b ++ ['"']) = ⟨1, true⟩ := by
    rw [after_append, hb.after_eq]
    rfl
  have hclose : Nesting.after ⟨1, false⟩ (b ++ ['"'] ++ s) = ⟨1, true⟩ := by
    rw [after_append, hopen, after_of_quoted rfl hs]
  have hsplit : b ++ '"' :: s ++ ['"'] = b ++ ['"'] ++ s ++ ['"'] := by simp
  rw [hsplit]
  refine isWhole_call ha hspace ?_ fun r ↦ ?_
  · rw [after_append, hclose]
    rfl
  · refine uncut_append (uncut_append (uncut_append ?_ (uncut_of_space (by decide))) ?_)
      (uncut_of_space (by decide))
    · exact uncut_of_open (by decide) hb.opening hb.closing hb.quote
    · rw [hopen]
      exact uncut_of_quoted rfl hs

/-! ## Conjuncts -/

/-- A text that stays whole in a conjunction. -/
structure IsConjunct (a : Text) : Prop extends IsWhole a where
  trimmed : a.IsTrimmed
  ne_nil : a ≠ []

theorem IsConjunct.cutAnd?_eq_none (h : IsConjunct a) : cutAnd? 0 false a = none := by
  have hpass := cutAnd?_append (h.uncut [] (.inl rfl))
  rw [List.append_nil, h.closed] at hpass
  exact hpass

theorem IsConjunct.cutAnd?_eq (h : IsConjunct a) (s : Text) :
    cutAnd? 0 false (a ++ conjunction ++ s) = some (a, s) := by
  have hpass := cutAnd?_append (h.uncut (conjunction ++ s) (.inr rfl))
  have hcut : cutAnd? 0 false (conjunction ++ s) = some ([], s) := rfl
  rw [h.closed] at hpass
  rw [List.append_assoc]
  refine hpass.trans ?_
  change (cutAnd? 0 false (conjunction ++ s)).map _ = _
  rw [hcut, Option.map_some, List.append_nil]

theorem conjuncts_single (h : IsConjunct a) : conjuncts a = [a] := by
  have htrim : Text.trim a = a := h.trimmed
  rw [conjuncts]
  split
  · next p hcut =>
    rw [htrim, h.cutAnd?_eq_none] at hcut
    simp at hcut
  · rw [htrim]

/-- A conjunct in front of an expression is the first one of both. -/
theorem conjuncts_append (h : IsConjunct a) (hs : s.IsTrimmed) (hne : s ≠ []) :
    conjuncts (a ++ conjunction ++ s) = a :: conjuncts s := by
  have htrim : Text.trim (a ++ conjunction ++ s) = a ++ conjunction ++ s :=
    h.trimmed.append hs h.ne_nil hne conjunction
  have ha : Text.trim a = a := h.trimmed
  rw [conjuncts]
  split
  · next p hcut =>
    rw [htrim, h.cutAnd?_eq, Option.some.injEq] at hcut
    subst hcut
    rw [ha]
  · next hcut =>
    rw [htrim, h.cutAnd?_eq] at hcut
    simp at hcut

/-! ## The conjuncts are the text -/

theorem eq_of_cutAnd? {depth : Nat} {quoted : Bool} (h : cutAnd? depth quoted s = some (a, b)) :
    s = a ++ conjunction ++ b := by
  induction s generalizing depth quoted a b with
  | nil => simp [cutAnd?] at h
  | cons x r ih =>
    rw [cutAnd?] at h
    split at h
    · next hcut =>
      have hprefix : conjunction <+: x :: r := by
        rw [Bool.and_eq_true] at hcut
        exact List.isPrefixOf_iff_prefix.1 hcut.2
      rw [Option.some.injEq, Prod.mk.injEq] at h
      obtain ⟨rfl, rfl⟩ := h
      exact (List.prefix_iff_eq_append.1 hprefix).symm
    · obtain ⟨p, hp, he⟩ := Option.map_eq_some_iff.1 h
      obtain ⟨rfl, rfl⟩ := Prod.mk.inj he
      rw [ih hp]
      rfl

theorem conjuncts_congr (h : Text.trim a = Text.trim b) : conjuncts a = conjuncts b := by
  rw [conjuncts, conjuncts]
  split
  · next p hp =>
    rw [h] at hp
    split
    · next q hq =>
      rw [hp, Option.some.injEq] at hq
      rw [hq]
    · next hq => simp [hp] at hq
  · next hp =>
    rw [h] at hp
    split
    · next q hq => simp [hp] at hq
    · rw [h]

theorem conjuncts_ne_nil (s : Text) : conjuncts s ≠ [] := by
  rw [conjuncts]
  split <;> exact List.cons_ne_nil _ _

/-- Between the conjunctions of an expression stand its conjuncts, up to blanks at their ends. -/
theorem exists_conjuncts (s : Text) :
    ∃ l, s = Text.join conjunction l ∧ conjuncts s = l.map Text.trim := by
  induction hlen : s.length using Nat.strong_induction_on generalizing s with
  | _ k ih =>
    cases hcut : cutAnd? 0 false (Text.trim s) with
    | none =>
      refine ⟨[s], rfl, ?_⟩
      rw [conjuncts]
      split
      · next p hp => simp [hcut] at hp
      · rfl
    | some p =>
      obtain ⟨x, y⟩ := p
      obtain ⟨u, v, hu, hv, hs⟩ := Text.exists_trim s
      -- The rest keeps the blanks that trimming took from the end, and is still shorter.
      have hsplit : s = u ++ x ++ conjunction ++ (y ++ v) := by
        rw [eq_of_cutAnd? hcut] at hs
        simpa using hs
      have hx : Text.trim (u ++ x) = Text.trim x := by
        simpa using Text.trim_append_blank hu (b := []) (by simp) x
      have hy : Text.trim (y ++ v) = Text.trim y := by
        simpa using Text.trim_append_blank (a := []) (by simp) hv y
      have hshort : (y ++ v).length < k := by
        have hword : conjunction.length = 5 := rfl
        rw [← hlen, hsplit]
        simp only [List.length_append, hword]
        omega
      obtain ⟨l, hl, hconjuncts⟩ := ih _ hshort (y ++ v) rfl
      have hne : l ≠ [] := by
        intro hnil
        rw [hnil] at hconjuncts
        exact conjuncts_ne_nil _ hconjuncts
      refine ⟨(u ++ x) :: l, ?_, ?_⟩
      · rw [Text.join_cons hne, ← hl]
        exact hsplit
      · rw [List.map_cons, hx, ← hconjuncts, conjuncts_congr hy, conjuncts]
        split
        · next q hq =>
          rw [hcut, Option.some.injEq] at hq
          rw [← hq]
        · next hq => simp [hcut] at hq

end Markbook.Trigger.Condition
