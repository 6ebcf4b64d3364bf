import Markbook.Proofs.Decimal
import Markbook.Proofs.Text.Cut
import Markbook.Proofs.Trigger.Conjuncts

/-!
# Reading Written Conditions

The text of a condition is read as the condition (`Condition.read_text`).  Agents and states keep
clear of the marks of the notation; patterns hold anything but quotes, parentheses and conjunctions
included.  The text of an atom is one conjunct (`Condition.isConjunct_text`) that its own reader
takes apart again (`Condition.readOne_text`), and a conjunction is the list of its atoms.
-/

namespace Markbook.Trigger.Condition

/-! ## Conditions that can be written -/

structure IsAgent (a : Text) : Prop extends IsPlain a where
  trimmed : a.IsTrimmed
  comma : ',' ∉ a

instance : DecidablePred IsAgent := fun a ↦
  decidable_of_iff (IsPlain a ∧ a.IsTrimmed ∧ ',' ∉ a)
    ⟨fun h ↦ ⟨h.1, h.2.1, h.2.2⟩, fun h ↦ ⟨h.toIsPlain, h.trimmed, h.comma⟩⟩

structure IsState (s : Text) : Prop extends IsPlain s where
  ne_nil : s ≠ []
  solid : ∀ c ∈ s, Text.isBlank c = false
  ne_and : s ≠ ['a', 'n', 'd']

instance : DecidablePred IsState := fun s ↦
  haveI : Decidable (∀ c ∈ s, Text.isBlank c = false) := List.decidableBAll _ s
  decidable_of_iff
    (IsPlain s ∧ s ≠ [] ∧ (∀ c ∈ s, Text.isBlank c = false) ∧ s ≠ ['a', 'n', 'd'])
    ⟨fun h ↦ ⟨h.1, h.2.1, h.2.2.1, h.2.2.2⟩, fun h ↦ ⟨h.toIsPlain, h.ne_nil, h.solid, h.ne_and⟩⟩

/-- A question about one agent or the last beat, with its parts in bounds. -/
def IsAtom : Condition → Prop
  | .contains a p => IsAgent a ∧ '"' ∉ p
  | .status a s => IsAgent a ∧ IsState s
  | .idle a n => IsAgent a ∧ n < UInt64.size
  | .context a _ n => IsAgent a ∧ n < UInt32.size
  | .heartbeat n => n < UInt64.size
  | .both _ _ => False
  | .always => False

instance : DecidablePred IsAtom
  | .contains a p => inferInstanceAs (Decidable (IsAgent a ∧ '"' ∉ p))
  | .status a s => inferInstanceAs (Decidable (IsAgent a ∧ IsState s))
  | .idle a n => inferInstanceAs (Decidable (IsAgent a ∧ n < UInt64.size))
  | .context a _ n => inferInstanceAs (Decidable (IsAgent a ∧ n < UInt32.size))
  | .heartbeat n => inferInstanceAs (Decidable (n < UInt64.size))
  | .both _ _ => inferInstanceAs (Decidable False)
  | .always => inferInstanceAs (Decidable False)

/-- Atoms, joined from the right. -/
def IsWritable : Condition → Prop
  | .both l r => l.IsAtom ∧ r.IsWritable
  | c => c.IsAtom

/-- The atoms of a condition. -/
def atoms : Condition → List Condition
  | .both l r => l :: r.atoms
  | c => [c]

variable {a s : Text} {c : Condition} {n : Nat}

theorem IsState.isTrimmed (h : IsState s) : s.IsTrimmed := by
  rw [Text.isTrimmed_iff]
  exact ⟨fun c hc ↦ h.solid c (List.mem_of_mem_head? hc),
    fun c hc ↦ h.solid c (List.mem_of_getLast? hc)⟩

theorem IsState.space (h : IsState s) : ' ' ∉ s := fun hc ↦ by
  simpa [Text.isBlank_space] using h.solid _ hc

theorem isPlain_digitsOf (n : Nat) : IsPlain (Decimal.digitsOf n) where
  opening := Decimal.not_mem_digitsOf (by decide) n
  closing := Decimal.not_mem_digitsOf (by decide) n
  quote := Decimal.not_mem_digitsOf (by decide) n

/-! ## Atoms are conjuncts -/

theorem isWhole_sign (comparison : Comparison) : IsWhole (' ' :: comparison.sign) := by
  have hplain : IsPlain comparison.sign := by
    cases comparison <;> constructor <;> decide
  refine isWhole_word hplain ?_ ?_ ?_ <;> cases comparison <;> decide

theorem isWhole_digits (n : Nat) (tail : Text) (htail : IsPlain tail) (hspace : ' ' ∉ tail) :
    IsWhole (' ' :: (Decimal.digitsOf n ++ tail)) := by
  have hdigits : ' ' ∉ Decimal.digitsOf n := Decimal.not_mem_digitsOf (by decide) n
  have hletter : 'a' ∉ Decimal.digitsOf n := Decimal.not_mem_digitsOf (by decide) n
  refine isWhole_word ((isPlain_digitsOf n).append htail) ?_ ?_ fun hand ↦ ?_
  · simpa using ⟨hdigits, hspace⟩
  · simp [Decimal.digitsOf_ne_nil n]
  · obtain ⟨d, r, hd⟩ := List.exists_cons_of_ne_nil (Decimal.digitsOf_ne_nil n)
    rw [hd, List.cons_append, List.cons.injEq] at hand
    rw [hd, hand.1] at hletter
    exact hletter List.mem_cons_self

section Text

/-! A text is a name, the arguments between parentheses, and words behind them. -/

variable (a p s : Text) (comparison : Comparison) (n : Nat)

theorem text_contains :
    (contains a p).text =
      "contains".toList ++ '(' :: (a ++ [',', ' '] ++ '"' :: p ++ ['"']) ++ [')'] := by
  change "contains(".toList ++ a ++ ", \"".toList ++ p ++ "\")".toList = _
  simp

theorem text_status :
    (status a s).text = "status".toList ++ '(' :: a ++ [')'] ++ [' ', '=', '='] ++ ' ' :: s := by
  change "status(".toList ++ a ++ ") == ".toList ++ s = _
  simp

theorem text_idle :
    (idle a n).text =
      "idle".toList ++ '(' :: (a ++ [',', ' '] ++ Decimal.digitsOf n) ++ [')'] := by
  change "idle(".toList ++ a ++ ", ".toList ++ Decimal.digitsOf n ++ [')'] = _
  simp

theorem text_context :
    (context a comparison n).text =
      "context".toList ++ '(' :: a ++ [')'] ++ ' ' :: comparison.sign ++
        ' ' :: (Decimal.digitsOf n ++ ['%']) := by
  change "context(".toList ++ a ++ ") ".toList ++ comparison.sign ++
    ' ' :: Decimal.digitsOf n ++ ['%'] = _
  simp

theorem text_heartbeat :
    (heartbeat n).text = "heartbeat".toList ++ ' ' :: (Decimal.digitsOf n ++ []) := by
  change "heartbeat ".toList ++ Decimal.digitsOf n = _
  simp

theorem text_both (l r : Condition) : (both l r).text = l.text ++ conjunction ++ r.text := rfl

end Text

theorem isWhole_text (h : c.IsAtom) : IsWhole c.text := by
  cases c with
  | contains a p =>
    have hname : IsPlain "contains".toList := by decide
    have hlead : IsPlain (a ++ [',', ' ']) := h.1.toIsPlain.append (by decide)
    rw [text_contains]
    exact isWhole_call_quoted hname (by simp) hlead h.2
  | status a s =>
    have hname : IsPlain "status".toList := by decide
    have hcall := isWhole_call_of_isPlain hname (by simp) h.1.toIsPlain
    have hstate := isWhole_word h.2.toIsPlain h.2.space h.2.ne_nil h.2.ne_and
    rw [text_status]
    exact (hcall.append (isWhole_sign .equal) rfl).append hstate rfl
  | idle a n =>
    have hname : IsPlain "idle".toList := by decide
    have hlead : IsPlain (a ++ [',', ' ']) := h.1.toIsPlain.append (by decide)
    rw [text_idle]
    exact isWhole_call_of_isPlain hname (by simp) (hlead.append (isPlain_digitsOf n))
  | context a comparison n =>
    have hname : IsPlain "context".toList := by decide
    have hcall := isWhole_call_of_isPlain hname (by simp) h.1.toIsPlain
    have hpercent := isWhole_digits n ['%'] (by decide) (by simp)
    rw [text_context]
    exact (hcall.append (isWhole_sign comparison) rfl).append hpercent rfl
  | heartbeat n =>
    have hname : IsPlain "heartbeat".toList := by decide
    have hdigits := isWhole_digits n [] (by decide) (by simp)
    rw [text_heartbeat]
    exact (isWhole_name hname (by simp)).append hdigits rfl
  | both => exact h.elim
  | always => exact h.elim

theorem isTrimmed_text (h : c.IsAtom) : c.text.IsTrimmed := by
  have hclose : Text.IsTrimmed [')'] := by decide
  cases c with
  | contains a p =>
    have hname : Text.IsTrimmed "contains".toList := by decide
    rw [text_contains]
    exact hname.append hclose (by simp) (by simp) _
  | status a s =>
    have hname : Text.IsTrimmed "status".toList := by decide
    have htrim := hname.append h.2.isTrimmed (by simp) h.2.ne_nil ('(' :: a ++ ") == ".toList)
    rw [text_status]
    simpa using htrim
  | idle a n =>
    have hname : Text.IsTrimmed "idle".toList := by decide
    rw [text_idle]
    exact hname.append hclose (by simp) (by simp) _
  | context a comparison n =>
    have hname : Text.IsTrimmed "context".toList := by decide
    have hpercent : Text.IsTrimmed ['%'] := by decide
    have htrim := hname.append hpercent (by simp) (by simp)
      ('(' :: a ++ ") ".toList ++ comparison.sign ++ ' ' :: Decimal.digitsOf n)
    rw [text_context]
    simpa using htrim
  | heartbeat n =>
    have hname : Text.IsTrimmed "heartbeat".toList := by decide
    have htrim := hname.append (Decimal.isTrimmed_digitsOf n) (by simp)
      (Decimal.digitsOf_ne_nil n) [' ']
    rw [text_heartbeat]
    simpa using htrim
  | both => exact h.elim
  | always => exact h.elim

theorem isConjunct_text (h : c.IsAtom) : IsConjunct c.text where
  toIsWhole := isWhole_text h
  trimmed := isTrimmed_text h
  ne_nil := by
    cases c with
    | contains a p => simp [text_contains]
    | status a s => simp [text_status]
    | idle a n => simp [text_idle]
    | context a comparison n => simp [text_context]
    | heartbeat n => simp [text_heartbeat]
    | both => exact h.elim
    | always => exact h.elim

/-! ## Atoms are read -/

theorem argumentList_concat (call inner : Text) :
    argumentList call (inner ++ [')']) = .ok inner := by
  have hcut : Text.cutLast? ')' (inner ++ [')']) = some (inner, []) :=
    Text.cutLast?_eq_some_iff.2 ⟨rfl, List.not_mem_nil⟩
  unfold argumentList
  rw [hcut]

theorem twoArguments_eq (ha : IsAgent a) (hs : s.IsTrimmed) :
    twoArguments (a ++ [',', ' '] ++ s) = .ok (a, s) := by
  have hcut : Text.cut? [','] (a ++ [',', ' '] ++ s) = some (a, ' ' :: s) := by
    simpa using Text.cut?_single ha.comma (' ' :: s)
  have hagent : Text.trim a = a := ha.trimmed
  have hrest : Text.trim s = s := hs
  unfold twoArguments
  rw [hcut]
  simp only
  rw [Text.trim_cons_blank Text.isBlank_space, hagent, hrest]

theorem oneArgument_eq (call : Text) (ha : IsAgent a) (hs : s.IsTrimmed) :
    oneArgument call (a ++ [')'] ++ ' ' :: s) = .ok (a, s) := by
  have hcut : Text.cut? [')'] (a ++ [')'] ++ ' ' :: s) = some (a, ' ' :: s) := by
    simpa using Text.cut?_single ha.closing (' ' :: s)
  have hagent : Text.trim a = a := ha.trimmed
  have hrest : Text.trim s = s := hs
  unfold oneArgument
  rw [hcut]
  simp only
  rw [Text.trim_cons_blank Text.isBlank_space, hagent, hrest]

theorem isTrimmed_quoted (p : Text) : Text.IsTrimmed ('"' :: p ++ ['"']) :=
  Text.IsTrimmed.cons_append (by decide) (by decide)

theorem unquoted_eq (p : Text) : unquoted ('"' :: p ++ ['"']) = .ok p := by
  have htrim : Text.trim ('"' :: p ++ ['"']) = '"' :: p ++ ['"'] := isTrimmed_quoted p
  have hopen : Text.after? ['"'] ('"' :: p ++ ['"']) = some (p ++ ['"']) :=
    Text.after?_eq_some_iff.2 rfl
  have hclose : Text.before? ['"'] (p ++ ['"']) = some p := Text.before?_eq_some_iff.2 rfl
  unfold unquoted
  rw [htrim, hopen, Option.bind_some, hclose]

theorem integer_digitsOf {bound : Nat} (role : Text) (h : n < bound) :
    integer bound role (Decimal.digitsOf n) = .ok n := by
  have htrim : Text.trim (Decimal.digitsOf n) = Decimal.digitsOf n := Decimal.isTrimmed_digitsOf n
  unfold integer
  rw [htrim, Decimal.bounded?_digitsOf h]

theorem cut?_sign (comparison : Comparison) (s : Text) :
    Comparison.cut? (comparison.sign ++ ' ' :: s) = some (comparison, ' ' :: s) := by
  cases comparison <;> rfl

theorem readContains_eq (p : Text) (ha : IsAgent a) :
    readContains (a ++ [',', ' '] ++ '"' :: p ++ ['"'] ++ [')']) = .ok (.contains a p) := by
  have harguments := twoArguments_eq ha (isTrimmed_quoted p)
  rw [← List.append_assoc] at harguments
  unfold readContains
  simp only [argumentList_concat, harguments, unquoted_eq, bind, Except.bind, pure, Except.pure]

theorem readStatus_eq (ha : IsAgent a) (hs : IsState s) :
    readStatus (a ++ [')'] ++ [' ', '=', '='] ++ ' ' :: s) = .ok (.status a s) := by
  have hrest : Text.IsTrimmed (['=', '='] ++ ' ' :: s) := by
    have heq : Text.IsTrimmed ['=', '='] := by decide
    simpa using heq.append hs.isTrimmed (by simp) hs.ne_nil [' ']
  have hstate : Text.trim s = s := hs.isTrimmed
  have hsign : Text.after? ['=', '='] (['=', '='] ++ ' ' :: s) = some (' ' :: s) :=
    Text.after?_eq_some_iff.2 rfl
  have hcall := oneArgument_eq "status" ha hrest
  rw [← List.cons_append, ← List.append_assoc] at hcall
  unfold readStatus
  simp only [hcall, hsign, Text.trim_cons_blank Text.isBlank_space, hstate,
    bind, Except.bind]
  rw [if_neg (by simpa using hs.ne_nil)]

theorem readIdle_eq (ha : IsAgent a) (hn : n < UInt64.size) :
    readIdle (a ++ [',', ' '] ++ Decimal.digitsOf n ++ [')']) = .ok (.idle a n) := by
  unfold readIdle
  simp only [argumentList_concat, twoArguments_eq ha (Decimal.isTrimmed_digitsOf n),
    integer_digitsOf _ hn, bind, Except.bind, pure, Except.pure]

theorem isTrimmed_percent (n : Nat) : (Decimal.digitsOf n ++ ['%']).IsTrimmed := by
  have hdigits := Decimal.isTrimmed_digitsOf n
  simpa using hdigits.append (b := ['%']) (by decide) (Decimal.digitsOf_ne_nil n) (by simp) []

theorem dropPercent_digitsOf (n : Nat) :
    ((Decimal.digitsOf n ++ ['%']).reverse.dropWhile (· = '%')).reverse = Decimal.digitsOf n := by
  have hne : ∀ c ∈ (Decimal.digitsOf n).reverse.head?, c ≠ '%' := by
    rintro c hc rfl
    rw [List.head?_reverse] at hc
    exact Decimal.not_mem_digitsOf (by decide) n (List.mem_of_getLast? hc)
  have hkeep : (Decimal.digitsOf n).reverse.dropWhile (· = '%') = (Decimal.digitsOf n).reverse := by
    cases hd : (Decimal.digitsOf n).reverse with
    | nil => rfl
    | cons c r =>
      rw [hd] at hne
      simp [hne c rfl]
  rw [List.reverse_append, List.reverse_singleton, List.singleton_append,
    List.dropWhile_cons_of_pos (by simp), hkeep, List.reverse_reverse]

theorem readContext_eq (comparison : Comparison) (ha : IsAgent a) (hn : n < UInt32.size) :
    readContext (a ++ [')'] ++ ' ' :: comparison.sign ++ ' ' :: (Decimal.digitsOf n ++ ['%'])) =
      .ok (.context a comparison n) := by
  have hsign : comparison.sign.IsTrimmed ∧ comparison.sign ≠ [] := by
    cases comparison <;> decide
  have hrest : Text.IsTrimmed (comparison.sign ++ ' ' :: (Decimal.digitsOf n ++ ['%'])) := by
    simpa using hsign.1.append (isTrimmed_percent n) hsign.2 (by simp) [' ']
  have htrim : Text.trim (Decimal.digitsOf n ++ ['%']) = Decimal.digitsOf n ++ ['%'] :=
    isTrimmed_percent n
  have hcall := oneArgument_eq "context" ha hrest
  rw [← List.cons_append, ← List.append_assoc] at hcall
  unfold readContext
  simp only [hcall, cut?_sign, Text.trim_cons_blank Text.isBlank_space,
    htrim, dropPercent_digitsOf, integer_digitsOf _ hn, bind, Except.bind, pure, Except.pure]

theorem readHeartbeat_eq (hn : n < UInt64.size) :
    readHeartbeat (Decimal.digitsOf n) = .ok (.heartbeat n) := by
  unfold readHeartbeat
  simp only [integer_digitsOf _ hn, bind, Except.bind, pure, Except.pure]

/-- The reader of an atom is chosen by its name. -/
theorem readOne_text (h : c.IsAtom) : readOne c.text = .ok c := by
  cases c with
  | contains a p =>
    rw [text_contains]
    exact readContains_eq p h.1
  | status a s =>
    rw [text_status]
    exact readStatus_eq h.1 h.2
  | idle a n =>
    rw [text_idle]
    exact readIdle_eq h.1 h.2
  | context a comparison n =>
    rw [text_context]
    exact readContext_eq comparison h.1 h.2
  | heartbeat n =>
    rw [text_heartbeat, List.append_nil]
    exact readHeartbeat_eq h
  | both => exact h.elim
  | always => exact h.elim

/-! ## Conjunctions are read -/

theorem atoms_ne_nil (c : Condition) : c.atoms ≠ [] := by
  cases c <;> simp [atoms]

theorem conjunctionOf_atoms (c : Condition) : conjunctionOf c.atoms = c := by
  induction c with
  | both l r _ ih =>
    obtain ⟨d, t, hd⟩ := List.exists_cons_of_ne_nil (atoms_ne_nil r)
    rw [hd] at ih
    rw [atoms, hd, conjunctionOf, ih]
    simp
  | _ => rfl

theorem isAtom_of_mem_atoms (h : c.IsWritable) : ∀ d ∈ c.atoms, d.IsAtom := by
  induction c with
  | both l r _ ih =>
    intro d hd
    rcases List.mem_cons.1 hd with rfl | hd
    · exact h.1
    · exact ih h.2 d hd
  | _ =>
    intro d hd
    rw [List.mem_singleton.1 hd]
    exact h

theorem isTrimmed_text_of_isWritable (h : c.IsWritable) : c.text.IsTrimmed ∧ c.text ≠ [] := by
  induction c with
  | both l r _ ih =>
    have hl := isConjunct_text h.1
    obtain ⟨hr, hne⟩ := ih h.2
    rw [text_both]
    exact ⟨hl.trimmed.append hr hl.ne_nil hne _, by simp [hne]⟩
  | _ => exact ⟨(isConjunct_text h).trimmed, (isConjunct_text h).ne_nil⟩

/-- The conjuncts of a text are the texts of the atoms. -/
theorem conjuncts_text (h : c.IsWritable) : conjuncts c.text = c.atoms.map text := by
  induction c with
  | both l r _ ih =>
    obtain ⟨hr, hne⟩ := isTrimmed_text_of_isWritable h.2
    rw [text_both, conjuncts_append (isConjunct_text h.1) hr hne, ih h.2]
    rfl
  | _ => exact conjuncts_single (isConjunct_text h)

theorem mapM_readOne {l : List Condition} (h : ∀ c ∈ l, c.IsAtom) :
    (l.map text).mapM readOne = .ok l := by
  induction l with
  | nil => rfl
  | cons c r ih =>
    rw [List.forall_mem_cons] at h
    rw [List.map_cons, List.mapM_cons, readOne_text h.1, ih h.2]
    rfl

/-- What is written for a condition is read as the condition. -/
theorem read_text (c : Condition) (h : c.IsWritable) : read c.text = .ok c := by
  have hatoms : (c.atoms.map text).mapM readOne = .ok c.atoms :=
    mapM_readOne (isAtom_of_mem_atoms h)
  unfold read
  rw [conjuncts_text h, hatoms]
  change Except.ok (conjunctionOf c.atoms) = _
  rw [conjunctionOf_atoms]

/-- A pattern may hold parentheses, commas and conjunctions. -/
def ofMarks : Condition :=
  both (contains "a b".toList "x) and (y, z".toList)
    (both (status ['b'] "done".toList) (context ['c'] .atLeast 80))

theorem read_text_of_marks : ofMarks.IsWritable ∧ read ofMarks.text = .ok ofMarks := by
  have h : ofMarks.IsWritable := ⟨by decide, by decide, show IsAtom _ by decide⟩
  exact ⟨h, read_text _ h⟩

end Markbook.Trigger.Condition
