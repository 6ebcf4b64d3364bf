import Markbook.Proofs.Trigger.Condition
import Mathlib.Data.List.Forall2

/-!
# Calls

`contains(` and `idle(` take their arguments from the text in front of the last closing parenthesis
of the conjunct, whichever parenthesis that is, and what stands behind it is dropped.  So a
conjunct gives its condition for all its text exactly when the last parenthesis is the one that
closes the call and nothing follows it (`read_calls`).
-/

namespace Markbook.Trigger.Condition

open Nesting

variable {n : Nesting} {a b body call inner r s tail : Text} {c d : Condition}

/-! ## Arguments -/

/-- The calls with two arguments. -/
def calls : List Text := ["contains(", "idle("]

/-- What stands between the parentheses of a call, and the condition it gives. -/
inductive IsArguments : Text → Text → Condition → Prop
  | contains {a b p : Text} (hcomma : ',' ∉ a) (hpattern : Text.trim b = '"' :: p ++ ['"']) :
      IsArguments "contains(" (a ++ ',' :: b) (.contains (Text.trim a) p)
  | idle {a b : Text} {n : Nat} (hcomma : ',' ∉ a)
      (hseconds : Decimal.bounded? UInt64.size (Text.trim b) = some n) :
      IsArguments "idle(" (a ++ ',' :: b) (.idle (Text.trim a) n)

theorem bind_eq_ok_iff {α β : Type} {x : Except Fault α} {f : α → Except Fault β} {y : β} :
    (x >>= f) = .ok y ↔ ∃ v, x = .ok v ∧ f v = .ok y := by
  cases x with
  | error e => simp [bind, Except.bind]
  | ok v => simp [bind, Except.bind]

theorem argumentList_eq_ok_iff {name : Text} :
    argumentList name inner = .ok body ↔ ∃ tail, inner = body ++ ')' :: tail ∧ ')' ∉ tail := by
  simp only [← Text.cutLast?_eq_some_iff]
  unfold argumentList
  cases h : Text.cutLast? ')' inner with
  | none => simp
  | some p => simp [Prod.ext_iff]

theorem twoArguments_eq_ok_iff {p : Text × Text} :
    twoArguments s = .ok p ↔
      ∃ a b, s = a ++ ',' :: b ∧ ',' ∉ a ∧ (Text.trim a, Text.trim b) = p := by
  unfold twoArguments
  cases h : Text.cut? [','] s with
  | none =>
    have hcomma : ',' ∉ s := Text.cut?_single_eq_none.1 h
    constructor
    · intro hp
      exact absurd hp (by simp)
    · rintro ⟨a, b, rfl, -⟩
      exact absurd (by simp) hcomma
  | some q =>
    obtain ⟨u, v⟩ := q
    constructor
    · intro hp
      have hu : ',' ∉ u := by
        intro hmem
        obtain ⟨x, y, rfl⟩ := List.append_of_mem hmem
        exact Text.not_infix_of_cut? (List.cons_ne_nil _ _) h ⟨x, y, by simp⟩
      exact ⟨u, v, by simpa using Text.eq_of_cut? h, hu, Except.ok.inj hp⟩
    · rintro ⟨a, b, rfl, ha, rfl⟩
      rw [Text.cut?_single ha, Option.some.injEq, Prod.mk.injEq] at h
      rw [h.1, h.2]

theorem unquoted_trim_eq_ok_iff {p : Text} :
    unquoted (Text.trim s) = .ok p ↔ Text.trim s = '"' :: p ++ ['"'] := by
  have htrim : Text.trim (Text.trim s) = Text.trim s := Text.isTrimmed_trim s
  have hends : (Text.after? ['"'] (Text.trim s)).bind (Text.before? ['"']) = some p ↔
      Text.trim s = '"' :: p ++ ['"'] := by
    rw [Option.bind_eq_some_iff]
    constructor
    · rintro ⟨t, hopen, hclose⟩
      rw [Text.after?_eq_some_iff.1 hopen, Text.before?_eq_some_iff.1 hclose]
      rfl
    · intro h
      exact ⟨p ++ ['"'], Text.after?_eq_some_iff.2 h, Text.before?_eq_some_iff.2 rfl⟩
  rw [← hends]
  unfold unquoted
  rw [htrim]
  cases (Text.after? ['"'] (Text.trim s)).bind (Text.before? ['"']) <;> simp

theorem integer_trim_eq_ok_iff {bound n : Nat} {role : Text} :
    integer bound role (Text.trim s) = .ok n ↔ Decimal.bounded? bound (Text.trim s) = some n := by
  have htrim : Text.trim (Text.trim s) = Text.trim s := Text.isTrimmed_trim s
  unfold integer
  rw [htrim]
  cases Decimal.bounded? bound (Text.trim s) <;> simp

/-- The arguments of a call are taken from the text in front of the last closing parenthesis. -/
theorem bind_arguments_eq_ok_iff {name : Text} {k : Text × Text → Except Fault Condition} :
    (argumentList name inner >>= fun l ↦ twoArguments l >>= k) = .ok c ↔
      ∃ body tail, inner = body ++ ')' :: tail ∧ ')' ∉ tail ∧
        ∃ a b, body = a ++ ',' :: b ∧ ',' ∉ a ∧ k (Text.trim a, Text.trim b) = .ok c := by
  simp only [bind_eq_ok_iff, argumentList_eq_ok_iff, twoArguments_eq_ok_iff]
  constructor
  · rintro ⟨body, ⟨tail, hinner, htail⟩, -, ⟨a, b, hbody, ha, rfl⟩, hk⟩
    exact ⟨body, tail, hinner, htail, a, b, hbody, ha, hk⟩
  · rintro ⟨body, tail, hinner, htail, a, b, hbody, ha, hk⟩
    exact ⟨body, ⟨tail, hinner, htail⟩, _, ⟨a, b, hbody, ha, rfl⟩, hk⟩

theorem isArguments_contains_iff :
    IsArguments "contains(" body c ↔ ∃ a b, body = a ++ ',' :: b ∧ ',' ∉ a ∧
      (unquoted (Text.trim b) >>= fun p ↦ .ok (.contains (Text.trim a) p)) = .ok c := by
  simp only [bind_eq_ok_iff, unquoted_trim_eq_ok_iff, Except.ok.injEq]
  constructor
  · intro h
    cases h with
    | contains ha hp => exact ⟨_, _, rfl, ha, _, hp, rfl⟩
  · rintro ⟨a, b, rfl, ha, p, hp, rfl⟩
    exact .contains ha hp

theorem isArguments_idle_iff :
    IsArguments "idle(" body c ↔ ∃ a b, body = a ++ ',' :: b ∧ ',' ∉ a ∧
      (integer UInt64.size "seconds in idle" (Text.trim b) >>= fun n ↦
        .ok (.idle (Text.trim a) n)) = .ok c := by
  simp only [bind_eq_ok_iff, integer_trim_eq_ok_iff, Except.ok.injEq]
  constructor
  · intro h
    cases h with
    | idle ha hn => exact ⟨_, _, rfl, ha, _, hn, rfl⟩
  · rintro ⟨a, b, rfl, ha, n, hn, rfl⟩
    exact .idle ha hn

/-- A call is read when what stands in front of its last closing parenthesis are its arguments. -/
theorem readOne_call_iff (hcall : call ∈ calls) :
    readOne (call ++ inner) = .ok c ↔
      ∃ body tail, inner = body ++ ')' :: tail ∧ ')' ∉ tail ∧ IsArguments call body c := by
  rcases List.mem_pair.1 hcall with rfl | rfl
  · simp only [isArguments_contains_iff]
    exact bind_arguments_eq_ok_iff
  · simp only [isArguments_idle_iff]
    exact bind_arguments_eq_ok_iff

/-! ## The closing parenthesis -/

/-- Inside of one parenthesis, outside of quotes. -/
def inside : Nesting := ⟨1, false⟩

/-- Cuts a text at the parenthesis that closes the outermost open one, which neither part keeps. -/
def cutClose? (n : Nesting) : Text → Option (Text × Text)
  | [] => none
  | x :: r =>
    if (n.next x).depth = 0 then some ([], r)
    else (cutClose? (n.next x) r).map fun p ↦ (x :: p.1, p.2)

/-- Behind the opening parenthesis of a call the text ends with the closing one. -/
def EndsInCall (inner : Text) : Prop := ∃ body, cutClose? inside inner = some (body, [])

/-- Does the nesting stay inside of a parenthesis all along a text? -/
def StaysOpen (n : Nesting) (s : Text) : Prop := ∀ x, x <+: s → 0 < (n.after x).depth

/-- A text that may stand between the parentheses of a call: what it opens it closes. -/
structure IsMatched (s : Text) : Prop where
  after_eq : inside.after s = inside
  staysOpen : StaysOpen inside s

theorem next_depth_eq_zero_iff {x : Char} (hn : 0 < n.depth) :
    (n.next x).depth = 0 ↔ n = inside ∧ x = ')' := by
  obtain ⟨depth, quoted⟩ := n
  change 0 < depth at hn
  simp only [next, inside, Nesting.mk.injEq]
  cases quoted with
  | true => simpa using Nat.pos_iff_ne_zero.1 hn
  | false =>
    by_cases hopen : x = '('
    · simp [hopen]
    · by_cases hclose : x = ')'
      · have hone : depth - 1 = 0 ↔ depth = 1 := by omega
        simpa [hclose] using hone
      · simpa [hopen, hclose] using Nat.pos_iff_ne_zero.1 hn

theorem staysOpen_cons_iff {x : Char} (hn : 0 < n.depth) :
    StaysOpen n (x :: s) ↔ StaysOpen (n.next x) s := by
  constructor
  · intro h y hy
    exact h (x :: y) (List.cons_prefix_cons.2 ⟨rfl, hy⟩)
  · intro h y hy
    rcases List.prefix_cons_iff.1 hy with rfl | ⟨z, rfl, hz⟩
    · exact hn
    · exact h z hz

/-- The closing parenthesis stands behind the longest text that the reader stays inside of. -/
theorem cutClose?_eq_some_iff (hn : 0 < n.depth) :
    cutClose? n s = some (a, b) ↔ s = a ++ ')' :: b ∧ n.after a = inside ∧ StaysOpen n a := by
  induction s generalizing n a with
  | nil => simp [cutClose?]
  | cons x r ih =>
    rw [cutClose?]
    by_cases hx : (n.next x).depth = 0
    · -- The text starts with the closing parenthesis, so nothing stands in front of it.
      obtain ⟨rfl, rfl⟩ := (next_depth_eq_zero_iff hn).1 hx
      rw [if_pos hx]
      constructor
      · intro h
        rw [Option.some.injEq, Prod.mk.injEq] at h
        obtain ⟨rfl, rfl⟩ := h
        refine ⟨rfl, rfl, fun y hy ↦ ?_⟩
        rw [List.prefix_nil.1 hy]
        exact hn
      · rintro ⟨h, -, hopen⟩
        cases a with
        | nil => rw [(List.cons.inj h).2]
        | cons y a =>
          obtain ⟨rfl, -⟩ := List.cons.inj h
          have hpos := hopen [')'] ⟨a, rfl⟩
          exact absurd hpos (by decide)
    · rw [if_neg hx, Option.map_eq_some_iff]
      constructor
      · rintro ⟨⟨u, v⟩, hcut, heq⟩
        obtain ⟨rfl, rfl⟩ := Prod.mk.inj heq
        obtain ⟨hr, hafter, hopen⟩ := (ih (Nat.pos_of_ne_zero hx)).1 hcut
        exact ⟨by rw [hr]; rfl, hafter, (staysOpen_cons_iff hn).2 hopen⟩
      · rintro ⟨h, hafter, hopen⟩
        cases a with
        | nil =>
          obtain ⟨rfl, -⟩ := List.cons.inj h
          exact absurd ((next_depth_eq_zero_iff hn).2 ⟨hafter, rfl⟩) hx
        | cons y a =>
          obtain ⟨rfl, hr⟩ := List.cons.inj h
          exact ⟨(a, b), (ih (Nat.pos_of_ne_zero hx)).2
            ⟨hr, hafter, (staysOpen_cons_iff hn).1 hopen⟩, rfl⟩

/-- The last parenthesis of a text ends it as the closing one when nothing is behind it and
everything in front of it is matched. -/
theorem endsInCall_iff (htail : ')' ∉ tail) :
    EndsInCall (body ++ ')' :: tail) ↔ tail = [] ∧ IsMatched body := by
  have hpos : 0 < inside.depth := Nat.one_pos
  constructor
  · rintro ⟨a, ha⟩
    obtain ⟨heq, hafter, hopen⟩ := (cutClose?_eq_some_iff hpos).1 ha
    have hnil : tail = [] := by
      rcases tail.eq_nil_or_concat' with h | ⟨t, x, rfl⟩
      · exact h
      · rw [← List.cons_append, ← List.append_assoc, List.append_singleton_inj] at heq
        rw [heq.2] at htail
        exact absurd (by simp) htail
    rw [hnil, List.append_singleton_inj] at heq
    rw [heq.1]
    exact ⟨hnil, hafter, hopen⟩
  · rintro ⟨rfl, hafter, hopen⟩
    exact ⟨body, (cutClose?_eq_some_iff hpos).2 ⟨rfl, hafter, hopen⟩⟩

theorem IsMatched.append (ha : IsMatched a) (hb : IsMatched b) : IsMatched (a ++ b) where
  after_eq := by rw [after_append, ha.after_eq, hb.after_eq]
  staysOpen := by
    rintro x ⟨y, hxy⟩
    rcases List.append_eq_append_iff.1 hxy with ⟨z, hz, -⟩ | ⟨z, rfl, hz⟩
    · exact ha.staysOpen x ⟨z, hz.symm⟩
    · rw [after_append, ha.after_eq]
      exact hb.staysOpen z ⟨y, hz.symm⟩

theorem IsPlain.isMatched (h : IsPlain a) : IsMatched a where
  after_eq := h.after_eq inside
  staysOpen := by
    rintro x ⟨y, rfl⟩
    have hx : IsPlain x := ⟨fun hc ↦ h.opening (List.mem_append_left y hc),
      fun hc ↦ h.closing (List.mem_append_left y hc), fun hc ↦ h.quote (List.mem_append_left y hc)⟩
    rw [hx.after_eq]
    exact Nat.one_pos

theorem isMatched_quoted {p : Text} (h : '"' ∉ p) : IsMatched ('"' :: p ++ ['"']) := by
  have hquoted : ∀ x, x <+: p → inside.after ('"' :: x) = ⟨1, true⟩ := by
    rintro x ⟨y, rfl⟩
    exact after_of_quoted rfl fun hc ↦ h (List.mem_append_left y hc)
  have hafter : inside.after ('"' :: p ++ ['"']) = inside := by
    rw [after_append, hquoted p List.prefix_rfl]
    rfl
  refine ⟨hafter, fun x hx ↦ ?_⟩
  rcases List.prefix_concat_iff.1 hx with rfl | hx
  · rw [hafter]
    exact Nat.one_pos
  · rcases List.prefix_cons_iff.1 hx with rfl | ⟨y, rfl, hy⟩
    · exact Nat.one_pos
    · rw [hquoted y hy]
      exact Nat.one_pos

theorem isPlain_of_blank (h : ∀ x ∈ s, Text.isBlank x) : IsPlain s where
  opening := fun hc ↦ absurd (h _ hc) (by decide)
  closing := fun hc ↦ absurd (h _ hc) (by decide)
  quote := fun hc ↦ absurd (h _ hc) (by decide)

theorem isPlain_of_trim (h : IsPlain (Text.trim a)) : IsPlain a := by
  obtain ⟨u, v, hu, hv, hsplit⟩ := Text.exists_trim a
  rw [hsplit]
  exact ((isPlain_of_blank hu).append h).append (isPlain_of_blank hv)

theorem isPlain_of_bounded? {bound k : Nat} (h : Decimal.bounded? bound s = some k) :
    IsPlain s where
  opening := Decimal.not_mem_of_bounded? (by decide) (by decide) h
  closing := Decimal.not_mem_of_bounded? (by decide) (by decide) h
  quote := Decimal.not_mem_of_bounded? (by decide) (by decide) h

theorem IsArguments.isMatched (h : IsArguments call body c) (hc : c.IsAtom) : IsMatched body := by
  have hcomma : IsPlain [','] := by decide
  cases h with
  | @contains a b p _ hb =>
    obtain ⟨u, v, hu, hv, hsplit⟩ := Text.exists_trim b
    have hagent : IsPlain a := isPlain_of_trim hc.1.toIsPlain
    have hpattern : IsMatched ('"' :: p ++ ['"']) := isMatched_quoted hc.2
    have hbody : a ++ ',' :: b = a ++ [','] ++ u ++ ('"' :: p ++ ['"']) ++ v := by
      rw [hb] at hsplit
      rw [hsplit]
      simp
    rw [hbody]
    exact ((((hagent.append hcomma).append (isPlain_of_blank hu)).isMatched.append hpattern).append
      (isPlain_of_blank hv).isMatched)
  | @idle a b n _ hb =>
    have hagent : IsPlain a := isPlain_of_trim hc.1.toIsPlain
    have hseconds : IsPlain b := isPlain_of_trim (isPlain_of_bounded? hb)
    simpa using ((hagent.append hcomma).append hseconds).isMatched

/-! ## Expressions -/

theorem forall₂_of_mapM {l : List Text} {cs : List Condition} (h : l.mapM readOne = .ok cs) :
    List.Forall₂ (fun t d ↦ readOne t = .ok d) l cs := by
  induction l generalizing cs with
  | nil =>
    rw [← Except.ok.inj h]
    exact .nil
  | cons t l ih =>
    rw [List.mapM_cons] at h
    obtain ⟨d, hd, hrest⟩ := bind_eq_ok_iff.1 h
    obtain ⟨ds, hds, heq⟩ := bind_eq_ok_iff.1 hrest
    rw [← Except.ok.inj heq]
    exact .cons hd (ih hds)

/-- An accepted expression is its conjuncts with conjunctions between them, and its condition joins
theirs.  Of a conjunct that is a call everything in front of the last closing parenthesis is read
as the arguments and nothing behind it; so the conjunct ends with the closing parenthesis of the
call exactly when the last one closes it and nothing follows. -/
theorem read_calls (h : read s = .ok c) :
    ∃ l cs, s = Text.join conjunction l ∧ conjuncts s = l.map Text.trim ∧ c = conjunctionOf cs ∧
      List.Forall₂ (fun t d ↦ readOne t = .ok d ∧ ∀ call ∈ calls, ∀ inner, t = call ++ inner →
        ∃ body tail, inner = body ++ ')' :: tail ∧ ')' ∉ tail ∧ IsArguments call body d ∧
          (∀ other, ')' ∉ other → readOne (call ++ (body ++ ')' :: other)) = .ok d) ∧
          (EndsInCall inner ↔ tail = [] ∧ IsMatched body) ∧ (d.IsAtom → IsMatched body))
        (conjuncts s) cs := by
  obtain ⟨l, hl, hconjuncts⟩ := exists_conjuncts s
  obtain ⟨cs, hcs, hc⟩ := bind_eq_ok_iff.1 h
  refine ⟨l, cs, hl, hconjuncts, (Except.ok.inj hc).symm, ?_⟩
  apply (forall₂_of_mapM hcs).imp
  intro t d hd
  refine ⟨hd, fun call hcall inner ht ↦ ?_⟩
  rw [ht] at hd
  obtain ⟨body, tail, hinner, htail, harguments⟩ := (readOne_call_iff hcall).1 hd
  have hsame : ∀ other, ')' ∉ other → readOne (call ++ (body ++ ')' :: other)) = .ok d := by
    intro other hother
    exact (readOne_call_iff hcall).2 ⟨body, other, rfl, hother, harguments⟩
  have hends : EndsInCall inner ↔ tail = [] ∧ IsMatched body := by
    rw [hinner]
    exact endsInCall_iff htail
  exact ⟨body, tail, hinner, htail, harguments, hsame, hends, harguments.isMatched⟩

/-- What stands behind `idle(` in a call that ends. -/
def ended : Text := "b, 5)"

theorem read_calls_ended :
    read ("idle(".toList ++ ended) = .ok (.idle ['b'] 5) ∧ EndsInCall ended := by
  have hread : read ("idle(".toList ++ ended) = .ok (.idle ['b'] 5) := by decide +kernel
  have hconjuncts : conjuncts ("idle(".toList ++ ended) = ["idle(".toList ++ ended] := by
    decide +kernel
  have hatom : (idle ['b'] 5).IsAtom := by decide
  obtain ⟨l, cs, -, -, hc, hall⟩ := read_calls hread
  rw [hconjuncts, List.forall₂_cons_left_iff] at hall
  obtain ⟨d, ds, ⟨-, hcall⟩, hnil, rfl⟩ := hall
  rw [List.forall₂_nil_left_iff.1 hnil] at hc
  have hd : idle ['b'] 5 = d := hc
  obtain ⟨body, tail, hinner, htail, -, -, hends, hmatched⟩ :=
    hcall "idle(" (by simp [calls]) ended rfl
  have hcut : Text.cutLast? ')' ended = some (body, tail) :=
    Text.cutLast?_eq_some_iff.2 ⟨hinner, htail⟩
  have hnothing : tail = [] := congrArg Prod.snd (Option.some.inj hcut).symm
  rw [hd] at hatom
  exact ⟨hread, hends.2 ⟨hnothing, hmatched hatom⟩⟩

/-- What stands behind `idle(` in a call with more behind it. -/
def overlong : Text := "a, 30) or heartbeat 5"

/-- The text behind the call is in no condition. -/
theorem not_endsInCall_dropped :
    conjuncts ("idle(".toList ++ overlong) = ["idle(".toList ++ overlong] ∧
      read ("idle(".toList ++ overlong) = .ok (.idle ['a'] 30) ∧ ¬ EndsInCall overlong := by
  have hconjuncts : conjuncts ("idle(".toList ++ overlong) = ["idle(".toList ++ overlong] := by
    decide +kernel
  have hread : read ("idle(".toList ++ overlong) = .ok (.idle ['a'] 30) := by decide +kernel
  have hcut : cutClose? inside overlong = some ("a, 30".toList, " or heartbeat 5".toList) := by
    decide
  refine ⟨hconjuncts, hread, ?_⟩
  rintro ⟨body, hbody⟩
  rw [hcut] at hbody
  simp at hbody

end Markbook.Trigger.Condition
