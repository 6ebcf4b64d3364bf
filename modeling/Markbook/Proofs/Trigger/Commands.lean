import Markbook.Proofs.Trigger.Blocks
import Mathlib.Data.List.Nodup

/-!
# Commands of Rules

A command goes to the clause of the nearest rule above it, and a later one for the same rule
replaces it.  So the command of a clause is the last one between its rule and the next
(`commands_blocks`), and commands get lost exactly when two stand below one rule.
-/

namespace Markbook.Trigger

open Line

/-- The commands of some lines, each with the number of rules above it. -/
def commandsIn (ls : List Line) : List (Nat × Text) :=
  ls.zipIdx.filterMap fun p ↦ p.1.command?.map fun c ↦ ((ls.take p.2).countP isRule, c)

/-- The commands between a rule and the next, by the number of rules in front of it. -/
def commandsOf (ls : List Line) (n : Nat) : List Text :=
  (commandsIn ls).filterMap fun p ↦ if p.1 = n + 1 then some p.2 else none

/-- Every command is in the clause of the nearest rule above it, and different commands are in
different clauses. -/
structure KeepsCommands (ls : List Line) (bs : List Block) : Prop where
  command_eq : ∀ p ∈ commandsIn ls,
    (bs.flatMap (·.clauses))[p.1 - 1]?.map (·.command) = some p.2
  nodup : ((commandsIn ls).map (·.1)).Nodup

variable {ls : List Line} {l : Line} {n : Nat}

/-! ## One line more -/

theorem commandsIn_concat (ls : List Line) (l : Line) :
    commandsIn (ls ++ [l]) =
      commandsIn ls ++ (l.command?.map fun c ↦ (ls.countP isRule, c)).toList := by
  have hsame : (ls.zipIdx.filterMap fun p ↦
      p.1.command?.map fun c ↦ (((ls ++ [l]).take p.2).countP isRule, c)) = commandsIn ls := by
    apply List.filterMap_congr
    intro p hp
    rw [List.take_append_of_le_length (Nat.le_of_lt (List.snd_lt_of_mem_zipIdx hp))]
  calc commandsIn (ls ++ [l])
      = (ls.zipIdx.filterMap fun p ↦
          p.1.command?.map fun c ↦ (((ls ++ [l]).take p.2).countP isRule, c)) ++
        [(l, ls.length)].filterMap fun p ↦
          p.1.command?.map fun c ↦ (((ls ++ [l]).take p.2).countP isRule, c) := by
        unfold commandsIn
        rw [List.zipIdx_append, List.filterMap_append, List.zipIdx_singleton, Nat.zero_add]
    _ = commandsIn ls ++ (l.command?.map fun c ↦ (ls.countP isRule, c)).toList := by
        rw [hsame]
        congr 1
        cases h : l.command? <;> simp [h]

theorem commandsOf_concat (ls : List Line) (l : Line) (n : Nat) :
    commandsOf (ls ++ [l]) n =
      commandsOf ls n ++ if ls.countP isRule = n + 1 then l.command?.toList else [] := by
  unfold commandsOf
  rw [commandsIn_concat, List.filterMap_append]
  cases l.command? with
  | none => simp
  | some c => by_cases h : ls.countP isRule = n + 1 <;> simp [h]

theorem length_commandsOf (ls : List Line) (n : Nat) :
    (commandsOf ls n).length = ((commandsIn ls).map (·.1)).count (n + 1) := by
  unfold commandsOf
  rw [List.length_filterMap_eq_countP, List.count, List.countP_map]
  apply List.countP_congr
  intro p _
  by_cases h : p.1 = n + 1 <;> simp [h]

/-- No command stands below a rule that is still to come. -/
theorem le_of_mem_commandsIn {p : Nat × Text} (h : p ∈ commandsIn ls) :
    p.1 ≤ ls.countP isRule := by
  obtain ⟨q, -, hq⟩ := List.mem_filterMap.1 h
  obtain ⟨c, -, rfl⟩ := Option.map_eq_some_iff.1 hq
  exact (List.take_sublist _ _).countP_le

theorem commandsOf_of_le (h : ls.countP isRule ≤ n) : commandsOf ls n = [] := by
  unfold commandsOf
  rw [List.filterMap_eq_nil_iff]
  intro p hp
  have hle := le_of_mem_commandsIn hp
  rw [if_neg (by omega)]

/-! ## The clauses so far -/

namespace Builder

variable {d d' : Builder}

theorem flatMap_blocks (d : Builder) :
    d.blocks.flatMap (·.clauses) = d.done.flatMap (·.clauses) ++ d.clauses := by
  by_cases h : d.clauses = []
  · rw [blocks_of_nil h, h, List.append_nil]
  · rw [blocks_of_ne_nil h, List.flatMap_append, List.flatMap_singleton]

/-- The commands of the clauses, in order. -/
def commands (d : Builder) : List Text := (d.blocks.flatMap (·.clauses)).map (·.command)

theorem commands_add (d : Builder) (l : Line) (c : Clause) :
    ((d.ready l).add c).commands = d.commands ++ [c.command] := by
  unfold commands
  rw [flatMap_blocks, ← d.blocks_ready l, (d.ready l).flatMap_blocks, ← List.map_singleton,
    ← List.map_append, List.append_assoc]
  rfl

theorem commands_eq_of_blocks (h : d'.blocks = d.blocks) : d'.commands = d.commands := by
  unfold commands
  rw [h]

/-- A rule adds a clause without a command. -/
theorem commands_step (hd : d.step l = .ok d') (hl : l.command? = none) :
    d'.commands = d.commands ++ if l.isRule then [[]] else [] := by
  cases hrule : l.rule? with
  | some x =>
    rw [step_of_rule? hrule] at hd
    cases x with
    | error f => exact absurd hd (by simp [Except.map])
    | ok x => rw [← Except.ok.inj hd, d.commands_add, if_pos (isRule_of_rule? hrule)]
  | none =>
    have hother : l.isRule = false := by
      rw [← isSome_rule?, hrule]
      rfl
    rw [hother, if_neg Bool.false_ne_true, List.append_nil]
    apply commands_eq_of_blocks
    cases l with
    | blank =>
      rw [← Except.ok.inj hd]
      exact d.blocks_close
    | name n =>
      rw [← Except.ok.inj hd]
      exact blocks_of_nil d.clauses_close
    | other => rw [← Except.ok.inj hd]
    | command line c => simp [Line.command?] at hl
    | first e => simp [rule?] at hrule
    | next e => simp [rule?] at hrule
    | otherwise => simp [rule?] at hrule

/-- A command takes the place of that of the last clause. -/
theorem commands_step_command {line c : Text} (hd : d.step (.command line c) = .ok d') :
    d.clauses ≠ [] ∧ d'.commands = d.commands.dropLast ++ [c] := by
  cases hc : d.command? c with
  | none => simp [Builder.step, hc] at hd
  | some d₁ =>
    have heq : d₁ = d' := by simpa [Builder.step, hc] using hd
    subst heq
    obtain ⟨last, hlast, rfl⟩ := Option.map_eq_some_iff.1 hc
    obtain ⟨r, hr⟩ := List.getLast?_eq_some_iff.1 hlast
    refine ⟨by simp [hr], ?_⟩
    unfold commands
    rw [flatMap_blocks, flatMap_blocks, hr]
    simp only [List.dropLast_concat, List.map_append, ← List.append_assoc]
    simp

end Builder

/-- The last command for a rule, or none. -/
def lastCommand (ls : List Line) (n : Nat) : Text := (commandsOf ls n).getLast?.getD []

theorem lastCommand_concat (h : l.command? = none ∨ ls.countP isRule ≠ n + 1) :
    lastCommand (ls ++ [l]) n = lastCommand ls n := by
  have hsame : (if ls.countP isRule = n + 1 then l.command?.toList else []) = [] := by
    rcases h with h | h
    · rw [h, Option.toList_none, ite_self]
    · rw [if_neg h]
  unfold lastCommand
  rw [commandsOf_concat, hsame, List.append_nil]

theorem lastCommand_concat_command {line c : Text} (h : ls.countP isRule = n + 1) :
    lastCommand (ls ++ [.command line c]) n = c := by
  unfold lastCommand
  rw [commandsOf_concat, if_pos h]
  change ((commandsOf ls n ++ [c]).getLast?).getD [] = c
  rw [List.getLast?_concat, Option.getD_some]

/-- What the clauses so far have for commands. -/
structure Answers (ls : List Line) (d : Builder) : Prop extends d.Follows ls where
  commands_eq : d.commands = (List.range (ls.countP isRule)).map (lastCommand ls)
  ne_zero : ∀ p ∈ commandsIn ls, p.1 ≠ 0

namespace Answers

variable {d d' : Builder}

theorem start : Answers [] .start where
  toFollows := Builder.follows_start
  commands_eq := rfl
  ne_zero := by simp [commandsIn]

/-- There is a rule above, since the open block has a clause. -/
theorem exists_countP (h : Answers ls d) (hd : d.clauses ≠ []) :
    ∃ k, ls.countP isRule = k + 1 := by
  apply Nat.exists_eq_succ_of_ne_zero
  intro hzero
  have hnil : d.commands = [] := by rw [h.commands_eq, hzero]; rfl
  rw [Builder.commands, List.map_eq_nil_iff, d.flatMap_blocks, List.append_eq_nil_iff] at hnil
  exact hd hnil.2

theorem step_other (h : Answers ls d) (hd : d.step l = .ok d') (hl : l.command? = none) :
    Answers (ls ++ [l]) d' where
  toFollows := h.toFollows.step hd
  commands_eq := by
    have hlast : lastCommand (ls ++ [l]) = lastCommand ls := by
      funext n
      exact lastCommand_concat (.inl hl)
    rw [Builder.commands_step hd hl, hlast, h.commands_eq, List.countP_append,
      List.countP_singleton]
    cases l.isRule with
    | true =>
      rw [if_pos rfl, if_pos rfl, List.range_succ, List.map_append, List.map_singleton, lastCommand,
        commandsOf_of_le (Nat.le_refl _)]
      rfl
    | false =>
      rw [if_neg Bool.false_ne_true, if_neg Bool.false_ne_true, List.append_nil, Nat.add_zero]
  ne_zero := by
    rw [commandsIn_concat, hl, Option.map_none, Option.toList_none, List.append_nil]
    exact h.ne_zero

theorem step_command (h : Answers ls d) {line c : Text}
    (hd : d.step (.command line c) = .ok d') : Answers (ls ++ [.command line c]) d' := by
  obtain ⟨hclauses, hcommands⟩ := Builder.commands_step_command hd
  obtain ⟨k, hk⟩ := h.exists_countP hclauses
  have hcount : (ls ++ [Line.command line c]).countP isRule = k + 1 := by
    rw [List.countP_append, hk]
    rfl
  refine ⟨h.toFollows.step hd, ?_, ?_⟩
  · -- Only the last rule gets the command; to the others it stands below a later one.
    have hold : (List.range k).map (lastCommand (ls ++ [.command line c])) =
        (List.range k).map (lastCommand ls) := by
      apply List.map_congr_left
      intro n hn
      have hlt := List.mem_range.1 hn
      exact lastCommand_concat (.inr (by omega))
    rw [hcommands, h.commands_eq, hcount, hk, List.range_succ, List.map_append, List.map_append,
      hold,
      List.map_singleton, List.map_singleton, List.dropLast_concat, lastCommand_concat_command hk]
  · intro p hp
    rw [commandsIn_concat, List.mem_append] at hp
    rcases hp with hp | hp
    · exact h.ne_zero p hp
    · have hp : p = (ls.countP isRule, c) := by simpa [command?] using hp
      rw [hp, hk]
      exact Nat.succ_ne_zero k

theorem step (h : Answers ls d) (hd : d.step l = .ok d') : Answers (ls ++ [l]) d' := by
  cases l with
  | command line c => exact h.step_command hd
  | _ => exact h.step_other hd rfl

end Answers

theorem answers_of_readLines {d : Builder} (h : readLines ls = .ok d) : Answers ls d := by
  induction ls using List.reverseRecOn generalizing d with
  | nil =>
    rw [← Except.ok.inj h]
    exact Answers.start
  | append_singleton ls l ih =>
    obtain ⟨d₁, hls, hstep⟩ := exists_of_readLines_concat h
    exact (ih hls).step hstep

/-! ## Whole texts -/

theorem commandsOf_eq_singleton {p : Nat × Text} (hp : p ∈ commandsIn ls) (hn : p.1 = n + 1)
    (h : (commandsOf ls n).length ≤ 1) : commandsOf ls n = [p.2] := by
  have hmem : p.2 ∈ commandsOf ls n := List.mem_filterMap.2 ⟨p, hp, if_pos hn⟩
  have hone : (commandsOf ls n).length = 1 := Nat.le_antisymm h (List.length_pos_of_mem hmem)
  obtain ⟨c, hc⟩ := List.length_eq_one_iff.1 hone
  rw [hc, List.mem_singleton] at hmem
  rw [hc, hmem]

/-- Commands are kept exactly when no rule has two of them. -/
theorem keepsCommands_iff {bs : List Block}
    (hcommands : (bs.flatMap (·.clauses)).map (·.command) =
      (List.range (ls.countP isRule)).map (lastCommand ls))
    (hzero : ∀ p ∈ commandsIn ls, p.1 ≠ 0) :
    KeepsCommands ls bs ↔ ∀ n, (commandsOf ls n).length ≤ 1 := by
  constructor
  · intro h n
    rw [length_commandsOf]
    exact List.nodup_iff_count_le_one.1 h.nodup (n + 1)
  · intro h
    constructor
    · intro p hp
      obtain ⟨n, hn⟩ := Nat.exists_eq_succ_of_ne_zero (hzero p hp)
      have hlt : n < ls.countP isRule := by
        have := le_of_mem_commandsIn hp
        omega
      rw [← List.getElem?_map, hcommands, List.getElem?_map, hn, Nat.succ_sub_one,
        List.getElem?_range hlt, Option.map_some, lastCommand, commandsOf_eq_singleton hp hn (h n)]
      rfl
    · rw [List.nodup_iff_count_le_one]
      intro m
      cases m with
      | zero =>
        have hnot : 0 ∉ (commandsIn ls).map (·.1) := by
          intro hmem
          obtain ⟨p, hp, hp0⟩ := List.mem_map.1 hmem
          exact hzero p hp hp0
        rw [List.count_eq_zero_of_not_mem hnot]
        exact Nat.zero_le 1
      | succ n =>
        rw [← length_commandsOf]
        exact h n

/-- The clauses are those of the rules, in order, and each has the last command between its rule
and the next one.  There is a rule above every command, and all commands are kept exactly when no
rule has two of them. -/
theorem commands_blocks {s : Text} {bs : List Block} (h : blocks s = .ok bs) :
    (rows s).filterMap rule? = ((bs.flatMap (·.clauses)).map fun c ↦ .ok c.rule) ∧
      (bs.flatMap (·.clauses)).map (·.command) = ((List.range ((rows s).countP isRule)).map fun n ↦
        (commandsOf (rows s) n).getLast?.getD []) ∧
      (∀ p ∈ commandsIn (rows s), p.1 ≠ 0) ∧
      (KeepsCommands (rows s) bs ↔ ∀ n, (commandsOf (rows s) n).length ≤ 1) := by
  rw [blocks_eq] at h
  cases hd : readLines (rows s) with
  | error f =>
    rw [hd] at h
    exact absurd h (by simp [Except.map])
  | ok d =>
    have hanswers := answers_of_readLines hd
    rw [hd] at h
    rw [← Except.ok.inj h]
    exact ⟨hanswers.segmented.rules_eq, hanswers.commands_eq, hanswers.ne_zero,
      keepsCommands_iff hanswers.commands_eq hanswers.ne_zero⟩

/-- A rule and its alternative, each with a command. -/
def paired : Text := "if heartbeat 5
then a

else
then b
"

theorem commands_blocks_paired :
    ∃ bs, blocks paired = .ok bs ∧ KeepsCommands (rows paired) bs := by
  have hblocks : blocks paired =
      .ok [⟨none, [⟨.heartbeat 5, ['a'], false⟩]⟩, ⟨none, [⟨.always, ['b'], true⟩]⟩] := by
    decide +kernel
  have hgiven : commandsIn (rows paired) = [(1, ['a']), (2, ['b'])] := by decide +kernel
  refine ⟨_, hblocks, (commands_blocks hblocks).2.2.2.2 fun n ↦ ?_⟩
  rw [length_commandsOf, hgiven]
  exact List.nodup_iff_count_le_one.1 (by decide) (n + 1)

/-- A rule with two commands. -/
def doubled : Text := "if heartbeat 5
then a
then b
"

/-- The second command takes the place of the first. -/
theorem not_keepsCommands_doubled :
    ∃ bs, blocks doubled = .ok bs ∧ (['a'] : Text) ∈ (commandsIn (rows doubled)).map (·.2) ∧
      (∀ c ∈ bs.flatMap (·.clauses), c.command ≠ ['a']) ∧ ¬ KeepsCommands (rows doubled) bs := by
  have hblocks : blocks doubled = .ok [⟨none, [⟨.heartbeat 5, ['b'], false⟩]⟩] := by decide +kernel
  have hgiven : commandsIn (rows doubled) = [(1, ['a']), (1, ['b'])] := by decide +kernel
  refine ⟨_, hblocks, by simp [hgiven], by simp, fun h ↦ ?_⟩
  have hnodup := h.nodup
  rw [hgiven] at hnodup
  exact absurd hnodup (by decide)

end Markbook.Trigger
