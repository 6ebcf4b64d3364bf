import Markbook.Proofs.Text.Lines
import Markbook.Proofs.Trigger.Blocks
import Markbook.Proofs.Trigger.Condition

/-!
# Reading a Listing

The listing of blocks is made for people, but it is also a text of triggers, and reading it gives
the same blocks without their names (`blocks_listing`).  A title says nothing, so nothing ends a
block except the `if` of the next one, which finds the block's own condition; hence the first
clause of a block must not be an `else`.

What the lines of a clause say is found once (`Clause.lines_say`).  Then a clause, the rest of a
block and a block are read with any builder in hand (`Builder.Reads`), and the blocks follow by
induction.
-/

namespace Markbook.Trigger

/-! ## Blocks that can be listed -/

/-- No agent and no pattern goes over a line. -/
def Condition.IsOneLine : Condition → Prop
  | .contains a p => '\n' ∉ a ∧ '\n' ∉ p
  | .status a _ => '\n' ∉ a
  | .idle a _ => '\n' ∉ a
  | .context a _ _ => '\n' ∉ a
  | .heartbeat _ => True
  | .both l r => l.IsOneLine ∧ r.IsOneLine
  | .always => True

instance Condition.decidableIsWritable : DecidablePred Condition.IsWritable
  | .both l r =>
    haveI := decidableIsWritable r
    inferInstanceAs (Decidable (l.IsAtom ∧ r.IsWritable))
  | .contains a p => inferInstanceAs (Decidable (Condition.contains a p).IsAtom)
  | .status a s => inferInstanceAs (Decidable (Condition.status a s).IsAtom)
  | .idle a n => inferInstanceAs (Decidable (Condition.idle a n).IsAtom)
  | .context a c n => inferInstanceAs (Decidable (Condition.context a c n).IsAtom)
  | .heartbeat n => inferInstanceAs (Decidable (Condition.heartbeat n).IsAtom)
  | .always => inferInstanceAs (Decidable Condition.always.IsAtom)

instance Condition.decidableIsOneLine : DecidablePred Condition.IsOneLine
  | .both l r =>
    haveI := decidableIsOneLine l
    haveI := decidableIsOneLine r
    inferInstanceAs (Decidable (l.IsOneLine ∧ r.IsOneLine))
  | .contains a p => inferInstanceAs (Decidable ('\n' ∉ a ∧ '\n' ∉ p))
  | .status a _ => inferInstanceAs (Decidable ('\n' ∉ a))
  | .idle a _ => inferInstanceAs (Decidable ('\n' ∉ a))
  | .context a _ _ => inferInstanceAs (Decidable ('\n' ∉ a))
  | .heartbeat _ => inferInstanceAs (Decidable True)
  | .always => inferInstanceAs (Decidable True)

structure Clause.IsListed (c : Clause) : Prop where
  isElse_iff : c.isElse = true ↔ c.condition = .always
  isWritable : c.isElse = false → c.condition.IsWritable
  isOneLine : c.isElse = false → c.condition.IsOneLine
  trimmed : c.command.IsTrimmed
  command_oneLine : '\n' ∉ c.command

structure Block.IsListed (b : Block) : Prop where
  name_oneLine : ∀ n ∈ b.name, '\n' ∉ n
  /-- There is a first clause, and it is no `else`. -/
  starts : b.clauses.head?.map (·.isElse) = some false
  clauses : ∀ c ∈ b.clauses, c.IsListed

instance : DecidablePred Clause.IsListed := fun c ↦
  decidable_of_iff
    ((c.isElse = true ↔ c.condition = .always) ∧
      (c.isElse = false → c.condition.IsWritable ∧ c.condition.IsOneLine) ∧
      c.command.IsTrimmed ∧ '\n' ∉ c.command)
    ⟨fun h ↦ ⟨h.1, fun he ↦ (h.2.1 he).1, fun he ↦ (h.2.1 he).2, h.2.2.1, h.2.2.2⟩,
      fun h ↦
        ⟨h.isElse_iff, fun he ↦ ⟨h.isWritable he, h.isOneLine he⟩, h.trimmed, h.command_oneLine⟩⟩

instance : DecidablePred Block.IsListed := fun b ↦
  decidable_of_iff
    ((∀ n ∈ b.name, '\n' ∉ n) ∧ b.clauses.head?.map (·.isElse) = some false ∧
      ∀ c ∈ b.clauses, c.IsListed)
    ⟨fun h ↦ ⟨h.1, h.2.1, h.2.2⟩, fun h ↦ ⟨h.name_oneLine, h.starts, h.clauses⟩⟩

/-- The block without its name. -/
def Block.unnamed (b : Block) : Block := { b with name := none }

/-! ## Lines -/

/-- What a line says to the reader. -/
def said (l : Text) : Line := Line.ofText (Text.trim l)

/-- A line with something on it. -/
structure IsInked (l : Text) : Prop where
  ne_nil : l ≠ []
  oneLine : '\n' ∉ l

/-- Such lines are read as they were written. -/
theorem rows_unlines {ls : List Text} (h : ∀ l ∈ ls, IsInked l) :
    rows (Text.unlines ls) = ls.map said := by
  rcases ls.eq_nil_or_concat' with rfl | ⟨ls, last, rfl⟩
  · rfl
  rw [List.forall_mem_append, List.forall_mem_singleton] at h
  have hchomp : (ls.map Text.chomp).map said = ls.map said := by
    rw [List.map_map]
    exact List.map_congr_left fun l _ ↦ congrArg Line.ofText (Text.trim_chomp l)
  change (Text.lines (Text.unlines (ls ++ [last]))).map said = _
  rw [Text.lines_unlines_concat (fun l hl ↦ (h.1 l hl).oneLine) h.2.oneLine, if_neg h.2.ne_nil,
    List.map_append, List.map_append, hchomp]

namespace Condition

variable {c : Condition}

theorem newline_not_mem_sign (comparison : Comparison) : '\n' ∉ comparison.sign := by
  cases comparison <;> decide

theorem newline_not_mem_digitsOf (n : Nat) : '\n' ∉ Decimal.digitsOf n :=
  Decimal.not_mem_digitsOf (by decide) n

/-- A state is a word, so only agents and patterns could bring a line feed. -/
theorem newline_not_mem_text (h : c.IsWritable) (hline : c.IsOneLine) : '\n' ∉ c.text := by
  induction c with
  | contains a p =>
    rw [text_contains]
    simpa using ⟨hline.1, hline.2⟩
  | status a s =>
    have hstate : '\n' ∉ s := fun hs ↦ by
      have hblank : Text.isBlank '\n' = true := by decide
      rw [h.2.solid _ hs] at hblank
      exact Bool.false_ne_true hblank
    rw [text_status]
    simpa using ⟨hline, hstate⟩
  | idle a n =>
    rw [text_idle]
    simpa using ⟨hline, newline_not_mem_digitsOf n⟩
  | context a comparison n =>
    rw [text_context]
    simpa using ⟨hline, newline_not_mem_sign comparison, newline_not_mem_digitsOf n⟩
  | heartbeat n =>
    rw [text_heartbeat]
    simpa using newline_not_mem_digitsOf n
  | both l r ihl ihr =>
    have hleft : l.IsWritable := by
      cases l with
      | both => exact h.1.elim
      | _ => exact h.1
    rw [text_both]
    simpa [conjunction] using ⟨ihl hleft hline.1, ihr h.2 hline.2⟩
  | always => exact h.elim

end Condition

/-- The rule of a clause as a line. -/
def Clause.ruleLine (isFirst : Bool) (c : Clause) : Line :=
  if c.isElse then .otherwise
  else if isFirst then .first c.condition.text
  else .next c.condition.text

variable {b : Block} {bs : List Block} {c : Clause}

theorem said_if {e : Text} (h : e.IsTrimmed) (hne : e ≠ []) :
    said (' ' :: ' ' :: ("if ".toList ++ e)) = .first e := by
  have htrim : Text.IsTrimmed ("if".toList ++ [' '] ++ e) :=
    Text.IsTrimmed.append (by decide) h (by simp) hne _
  have hline : Text.trim (' ' :: ' ' :: ("if ".toList ++ e)) = 'i' :: 'f' :: ' ' :: e := by
    rw [Text.trim_cons_blank Text.isBlank_space, Text.trim_cons_blank Text.isBlank_space]
    exact htrim
  rw [said, hline]
  rfl

theorem said_elif {e : Text} (h : e.IsTrimmed) (hne : e ≠ []) :
    said (' ' :: ' ' :: ("elif ".toList ++ e)) = .next e := by
  have htrim : Text.IsTrimmed ("elif".toList ++ [' '] ++ e) :=
    Text.IsTrimmed.append (by decide) h (by simp) hne _
  have hline : Text.trim (' ' :: ' ' :: ("elif ".toList ++ e)) =
      'e' :: 'l' :: 'i' :: 'f' :: ' ' :: e := by
    rw [Text.trim_cons_blank Text.isBlank_space, Text.trim_cons_blank Text.isBlank_space]
    exact htrim
  rw [said, hline]
  rfl

/-- An empty command leaves the bare word. -/
theorem exists_said_then {command : Text} (h : command.IsTrimmed) :
    ∃ line, said ("    then ".toList ++ command) = .command line command := by
  have hblanks (s : Text) : Text.trim ("    ".toList ++ s) = Text.trim s := by
    simp [Text.trim_cons_blank Text.isBlank_space]
  have hsplit : "    then ".toList ++ command = "    ".toList ++ ("then ".toList ++ command) := by
    simp
  unfold said
  rw [hsplit, hblanks]
  by_cases hnil : command = []
  · exact ⟨"then".toList, by rw [hnil]; decide⟩
  · have htrim : Text.IsTrimmed ("then".toList ++ [' '] ++ command) :=
      Text.IsTrimmed.append (by decide) h (by simp) hnil _
    have hline :
        Text.trim ("then ".toList ++ command) = 't' :: 'h' :: 'e' :: 'n' :: ' ' :: command :=
      htrim
    have hcommand : Text.trim (' ' :: command) = command := by
      rw [Text.trim_cons_blank Text.isBlank_space]
      exact h
    refine ⟨'t' :: 'h' :: 'e' :: 'n' :: ' ' :: command, ?_⟩
    rw [hline]
    change Line.command _ (Text.trim (' ' :: command)) = _
    rw [hcommand]

theorem said_emphasised (title : Text) : said (Text.emphasised title) = .other := by
  have hline :
      Text.trim (Text.emphasised title) = '\x1b' :: Text.trimEnd (Text.emphasised title).tail :=
    Text.trim_cons (by decide) _
  rw [said, hline]
  rfl

namespace Clause.IsListed

/-- A clause says its rule and its command. -/
theorem lines_say (h : c.IsListed) (isFirst : Bool) :
    ∃ line, (c.lines isFirst).map said = [c.ruleLine isFirst, .command line c.command] := by
  obtain ⟨line, hline⟩ := exists_said_then h.trimmed
  refine ⟨line, ?_⟩
  unfold Clause.lines Clause.ruleLine
  rw [List.map_cons, List.map_singleton, hline]
  cases helse : c.isElse with
  | true => rfl
  | false =>
    obtain ⟨htrim, hne⟩ := Condition.isTrimmed_text_of_isWritable (h.isWritable helse)
    cases isFirst with
    | true => exact congrArg (· :: _) (said_if htrim hne)
    | false => exact congrArg (· :: _) (said_elif htrim hne)

theorem rule?_ruleLine (h : c.IsListed) (isFirst : Bool) :
    (c.ruleLine isFirst).rule? = some (.ok c.rule) := by
  unfold Clause.ruleLine Clause.rule
  cases helse : c.isElse with
  | true => rw [h.isElse_iff.1 helse]; rfl
  | false =>
    have hwritable := h.isWritable helse
    have hread : Condition.read c.condition.text = .ok c.condition := by
      unfold Condition.read
      rw [Condition.conjuncts_text hwritable,
        Condition.mapM_readOne (Condition.isAtom_of_mem_atoms hwritable)]
      exact congrArg Except.ok (Condition.conjunctionOf_atoms _)
    cases isFirst <;> simp [Line.rule?, hread, Except.map]

theorem isInked_of_mem_lines (h : c.IsListed) (isFirst : Bool) :
    ∀ l ∈ c.lines isFirst, IsInked l := by
  have hcondition (helse : c.isElse = false) : '\n' ∉ c.condition.text :=
    Condition.newline_not_mem_text (h.isWritable helse) (h.isOneLine helse)
  intro l hl
  unfold Clause.lines at hl
  rcases List.mem_cons.1 hl with rfl | hl
  · refine ⟨by simp, ?_⟩
    cases helse : c.isElse with
    | true => simp
    | false => cases isFirst <;> simpa using hcondition helse
  · rw [List.mem_singleton.1 hl]
    exact ⟨by simp, by simpa using h.command_oneLine⟩

end Clause.IsListed

namespace Block.IsListed

theorem exists_clauses (h : b.IsListed) : ∃ c r, b.clauses = c :: r ∧ c.isElse = false := by
  obtain ⟨c, hhead, helse⟩ := Option.map_eq_some_iff.1 h.starts
  obtain ⟨r, hclauses⟩ := List.head?_eq_some_iff.1 hhead
  exact ⟨c, r, hclauses, helse⟩

/-- The lines of a block are a title, those of the first clause and those of the others. -/
theorem exists_lines (h : b.IsListed) (number : Nat) :
    ∃ title c r, b.clauses = c :: r ∧ c.isElse = false ∧ '\n' ∉ title ∧
      b.lines number =
        Text.emphasised title :: (c.lines true ++ r.flatMap (Clause.lines false)) := by
  obtain ⟨c, r, hclauses, helse⟩ := h.exists_clauses
  have hdigits := Condition.newline_not_mem_digitsOf number
  refine ⟨_, c, r, hclauses, helse, ?_, by unfold Block.lines; rw [hclauses]⟩
  cases hname : b.name with
  | none => simpa using hdigits
  | some n => simpa using ⟨hdigits, h.name_oneLine n hname⟩

theorem isInked_of_mem_lines (h : b.IsListed) (number : Nat) : ∀ l ∈ b.lines number, IsInked l := by
  obtain ⟨title, c, r, hclauses, -, htitle, hlines⟩ := h.exists_lines number
  have hlisted := h.clauses
  rw [hclauses, List.forall_mem_cons] at hlisted
  rw [hlines]
  intro l hl
  rcases List.mem_cons.1 hl with rfl | hl
  · exact ⟨by simp [Text.emphasised], by simpa [Text.emphasised] using htitle⟩
  · rcases List.mem_append.1 hl with hl | hl
    · exact hlisted.1.isInked_of_mem_lines true l hl
    · obtain ⟨d, hd, hl⟩ := List.mem_flatMap.1 hl
      exact (hlisted.2 d hd).isInked_of_mem_lines false l hl

end Block.IsListed

theorem isInked_of_mem_numberedLines (h : ∀ b ∈ bs, b.IsListed) (number : Nat) :
    ∀ l ∈ numberedLines number bs, IsInked l := by
  induction bs generalizing number with
  | nil => simp [numberedLines]
  | cons b r ih =>
    rw [List.forall_mem_cons] at h
    rw [numberedLines, List.forall_mem_append]
    exact ⟨h.1.isInked_of_mem_lines number, ih h.2 (number + 1)⟩

/-! ## Reading the lines -/

namespace Builder

/-- With a builder in hand, some lines are read and leave another one. -/
def Reads (d : Builder) (ls : List Line) (d' : Builder) : Prop := ls.foldlM Builder.step d = .ok d'

variable {d d₁ d₂ : Builder} {l : Line} {ls ls' : List Line}

theorem reads_nil (d : Builder) : d.Reads [] d := rfl

theorem Reads.append (h : d.Reads ls d₁) (h' : d₁.Reads ls' d₂) : d.Reads (ls ++ ls') d₂ := by
  unfold Reads at h
  unfold Reads
  rw [List.foldlM_append, h]
  exact h'

theorem reads_singleton (h : d.step l = .ok d₁) : d.Reads [l] d₁ := by
  unfold Reads
  rw [List.foldlM_cons, h]
  rfl

theorem Reads.cons (h : d.step l = .ok d₁) (h' : d₁.Reads ls d₂) : d.Reads (l :: ls) d₂ :=
  (reads_singleton h).append h'

/-- The clause goes to the builder that its rule finds. -/
theorem reads_clause (h : c.IsListed) (isFirst : Bool) (d : Builder) :
    d.Reads ((c.lines isFirst).map said) ((d.ready (c.ruleLine isFirst)).add c) := by
  obtain ⟨line, hlines⟩ := h.lines_say isFirst
  rw [hlines]
  refine Reads.cons (step_of_rule? (h.rule?_ruleLine isFirst) d) (reads_singleton ?_)
  simp [step, command?, add, Clause.rule]

theorem ready_of_not_isFirst (h : l.isFirst = false) (d : Builder) : d.ready l = d := by
  unfold ready
  rw [h]
  rfl

theorem reads_clauses {r : List Clause} (h : ∀ c ∈ r, c.IsListed) (d : Builder) :
    d.Reads ((r.flatMap (Clause.lines false)).map said) { d with clauses := d.clauses ++ r } := by
  induction r generalizing d with
  | nil => simpa using reads_nil d
  | cons c r ih =>
    rw [List.forall_mem_cons] at h
    have hrule : (c.ruleLine false).isFirst = false := by
      unfold Clause.ruleLine
      cases c.isElse <;> rfl
    have hclause := reads_clause h.1 false d
    rw [ready_of_not_isFirst hrule] at hclause
    have hrest := hclause.append (ih h.2 (d.add c))
    rw [List.flatMap_cons, List.map_append]
    simpa [add] using hrest

/-- What is in hand between two blocks of a listing: no name, and an open block only with a
condition. -/
structure IsBetween (d : Builder) : Prop where
  name : d.name = none
  condition : d.clauses = [] ∨ d.clauses.any (!·.isElse) = true

/-- The `if` of the next block ends the open one. -/
theorem IsBetween.ready_first (h : d.IsBetween) (e : Text) :
    d.ready (.first e) = ⟨d.blocks, none, []⟩ := by
  rcases h.condition with hnil | hany
  · obtain ⟨done, name, clauses⟩ := d
    obtain rfl : clauses = [] := hnil
    obtain rfl : name = none := h.name
    rfl
  · have hne : d.clauses ≠ [] := fun hnil ↦ by simp [hnil] at hany
    unfold ready
    rw [if_pos (by simpa [Line.isFirst] using hany), blocks_of_ne_nil hne]
    unfold close
    rw [if_neg (by simpa using hne)]

/-- A block of a listing is read whole. -/
theorem IsBetween.reads_block (hd : d.IsBetween) (hb : b.IsListed) (number : Nat) :
    d.Reads ((b.lines number).map said) ⟨d.blocks, none, b.clauses⟩ := by
  obtain ⟨title, c, r, hclauses, helse, -, hlines⟩ := hb.exists_lines number
  have hlisted := hb.clauses
  rw [hclauses, List.forall_mem_cons] at hlisted
  have hfirst := reads_clause hlisted.1 true d
  have hrule : c.ruleLine true = .first c.condition.text := by
    unfold Clause.ruleLine
    rw [helse]
    rfl
  rw [hrule, hd.ready_first] at hfirst
  have htitle : d.step (said (Text.emphasised title)) = .ok d := by
    rw [said_emphasised]
    rfl
  rw [hlines, hclauses, List.map_cons, List.map_append]
  exact (hfirst.append (reads_clauses hlisted.2 _)).cons htitle

theorem isBetween_of_isListed (hb : b.IsListed) (done : List Block) :
    IsBetween ⟨done, none, b.clauses⟩ := by
  obtain ⟨c, r, hclauses, helse⟩ := hb.exists_clauses
  exact ⟨rfl, .inr (by simp [hclauses, helse])⟩

/-- The blocks of a listing are read one after the other. -/
theorem IsBetween.reads_numberedLines (hd : d.IsBetween) (h : ∀ b ∈ bs, b.IsListed) (number : Nat) :
    ∃ d', d.Reads ((numberedLines number bs).map said) d' ∧
      d'.blocks = d.blocks ++ bs.map Block.unnamed := by
  induction bs generalizing d number with
  | nil => exact ⟨d, reads_nil d, by simp⟩
  | cons b r ih =>
    rw [List.forall_mem_cons] at h
    obtain ⟨c, cs, hclauses, -⟩ := h.1.exists_clauses
    have hopen : (⟨d.blocks, none, b.clauses⟩ : Builder).blocks = d.blocks ++ [b.unnamed] :=
      blocks_of_ne_nil (by simp [hclauses])
    have hblock := hd.reads_block h.1 number
    obtain ⟨d', hrest, heq⟩ := ih (isBetween_of_isListed h.1 d.blocks) h.2 (number + 1)
    rw [hopen, List.append_assoc] at heq
    refine ⟨d', ?_, heq⟩
    rw [numberedLines, List.map_append]
    exact hblock.append hrest

end Builder

/-- What is shown for blocks is read as the same blocks without their names. -/
theorem blocks_listing (bs : List Block) (h : ∀ b ∈ bs, b.IsListed) :
    blocks (listing bs) = .ok (bs.map Block.unnamed) := by
  by_cases hnil : bs = []
  · rw [hnil]
    decide
  · have hstart : Builder.start.IsBetween := ⟨rfl, .inl rfl⟩
    obtain ⟨d, hreads, heq⟩ := hstart.reads_numberedLines h 1
    have hlines : readLines ((numberedLines 1 bs).map said) = .ok d := hreads
    unfold listing
    rw [if_neg (by simpa using hnil), blocks_eq, rows_unlines (isInked_of_mem_numberedLines h 1),
      hlines]
    exact congrArg Except.ok heq

/-- A name that reads like a rule, a pattern with a conjunction in it, an empty command and an
`else` in front of the `if` of the next block. -/
def reviewBlocks : List Block :=
  [⟨some "if done then stop".toList,
    [⟨.both (.contains "coder".toList "tests) and (docs".toList) (.idle "coder".toList 30),
      "ask reviewer if ready".toList, false⟩,
     ⟨.status "reviewer".toList "blocked".toList, [], false⟩,
     ⟨.always, "then".toList, true⟩]⟩,
   ⟨none, [⟨.heartbeat 600, "# ping".toList, false⟩]⟩]

theorem blocks_listing_review :
    (∀ b ∈ reviewBlocks, b.IsListed) ∧
      blocks (listing reviewBlocks) = .ok (reviewBlocks.map Block.unnamed) := by
  have h : ∀ b ∈ reviewBlocks, b.IsListed := by decide
  exact ⟨h, blocks_listing _ h⟩

end Markbook.Trigger
