import Markbook.Proofs.Trigger.Lines

/-!
# Blocks of Rules

Reading goes line by line with the open block in hand.  Behind some lines the open block is empty
exactly when they have no rule since the last break, and the name at hand is the last one since the
last rule (`Builder.Follows`).  So the faults of a text are those of its lines
(`blocks_eq_error_iff`), and its blocks are cut where its lines say so (`blocks_segmented`).
-/

namespace Markbook.Trigger

open Line

/-! ## Rules in their blocks -/

/-- The rules of some blocks, each with the number of its block. -/
def placed (bs : List Block) : List (Nat × Rule) :=
  bs.zipIdx.flatMap fun p ↦ p.1.clauses.map fun c ↦ (p.2, c.rule)

variable {bs : List Block} {b : Block} {i n : Nat} {x : Rule}

theorem placed_concat (bs : List Block) (b : Block) :
    placed (bs ++ [b]) = placed bs ++ b.clauses.map fun c ↦ (bs.length, c.rule) := by
  unfold placed
  rw [List.zipIdx_append, List.flatMap_append]
  simp

theorem map_snd_placed (bs : List Block) :
    (placed bs).map (·.2) = (bs.flatMap (·.clauses)).map Clause.rule := by
  induction bs using List.reverseRecOn with
  | nil => rfl
  | append_singleton bs b ih =>
    rw [placed_concat, List.map_append, ih, List.flatMap_append, List.map_append]
    simp

theorem length_placed (bs : List Block) :
    (placed bs).length = (bs.flatMap (·.clauses)).length := by
  rw [← List.length_map (·.2), map_snd_placed, List.length_map]

theorem lt_of_mem_placed (h : (i, x) ∈ placed bs) : i < bs.length := by
  induction bs using List.reverseRecOn with
  | nil => exact absurd h List.not_mem_nil
  | append_singleton bs b ih =>
    rw [List.length_append, List.length_singleton]
    rw [placed_concat, List.mem_append] at h
    rcases h with h | h
    · exact Nat.lt_succ_of_lt (ih h)
    · obtain ⟨c, -, hc⟩ := List.mem_map.1 h
      rw [← (Prod.mk.inj hc).1]
      exact Nat.lt_succ_self _

theorem mem_placed_concat_iff :
    (bs.length, x) ∈ placed (bs ++ [b]) ↔ ∃ c ∈ b.clauses, c.rule = x := by
  rw [placed_concat, List.mem_append, List.mem_map]
  constructor
  · rintro (h | ⟨c, hc, heq⟩)
    · exact absurd (lt_of_mem_placed h) (Nat.lt_irrefl _)
    · exact ⟨c, hc, (Prod.mk.inj heq).2⟩
  · rintro ⟨c, hc, rfl⟩
    exact .inr ⟨c, hc, rfl⟩

/-- The last rule is in the last block. -/
theorem number_of_last (hne : ∀ b ∈ bs, b.clauses ≠ [])
    (h : (placed bs).getLast? = some (i, x)) : i + 1 = bs.length := by
  rcases bs.eq_nil_or_concat' with rfl | ⟨bs, b, rfl⟩
  · exact absurd h (by simp [placed])
  · have hb : b.clauses ≠ [] := hne b (by simp)
    rw [placed_concat, List.getLast?_append_of_ne_nil _ (by simpa using hb), List.getLast?_map] at h
    obtain ⟨c, -, hc⟩ := Option.map_eq_some_iff.1 h
    rw [List.length_append, List.length_singleton, (Prod.mk.inj hc).1]

/-! ## Segmentation -/

/-- Blocks cut from lines.  The rules are counted from 0; a rule behind some lines has the number
of the rules in them. -/
structure IsSegmented (ls : List Line) (bs : List Block) : Prop where
  /-- One clause for each rule, in order, with what the rule says. -/
  rules_eq : ls.filterMap rule? = (bs.flatMap (·.clauses)).map fun c ↦ .ok c.rule
  clauses_ne_nil : ∀ b ∈ bs, b.clauses ≠ []
  /-- Of two rules in a row the second is in another block exactly when a break stands between
  them, or when it is an `if` and the block has a condition by then. -/
  apart_iff : ∀ {a r m r' z i x j y}, ls = a ++ r :: (m ++ r' :: z) →
    r.isRule = true → (∀ l ∈ m, l.isRule = false) → r'.isRule = true →
    (placed bs)[a.countP isRule]? = some (i, x) → (placed bs)[a.countP isRule + 1]? = some (j, y) →
    (i ≠ j ↔ (∃ l ∈ m, l.isBreak = true) ∨
      (r'.isFirst = true ∧ ∃ w, (i, w) ∈ (placed bs).take (a.countP isRule + 1) ∧ w.isElse = false))
  /-- A block has the last name between the rule in front of its first one and that one. -/
  name_eq : ∀ {a r z i x}, ls = a ++ r :: z → r.isRule = true →
    (placed bs)[a.countP isRule]? = some (i, x) →
    (∀ w, (i, w) ∉ (placed bs).take (a.countP isRule)) →
    bs[i]?.map (·.name) = some (nameAhead a)

namespace Builder

variable {d : Builder} {c : Clause}

/-- The blocks, when the text ends here. -/
def blocks (d : Builder) : List Block := d.close.done

theorem blocks_of_nil (h : d.clauses = []) : d.blocks = d.done := by
  unfold blocks close
  rw [h]
  rfl

theorem blocks_of_ne_nil (h : d.clauses ≠ []) : d.blocks = d.done ++ [⟨d.name, d.clauses⟩] := by
  unfold blocks close
  rw [if_neg (by simpa using h)]

theorem blocks_add (d : Builder) (c : Clause) :
    (d.add c).blocks = d.done ++ [⟨d.name, d.clauses ++ [c]⟩] := by
  rw [blocks_of_ne_nil (by simp [add])]
  rfl

theorem placed_blocks (d : Builder) :
    placed d.blocks = placed d.done ++ d.clauses.map fun c ↦ (d.done.length, c.rule) := by
  by_cases h : d.clauses = []
  · rw [blocks_of_nil h, h, List.map_nil, List.append_nil]
  · rw [blocks_of_ne_nil h, placed_concat]

theorem placed_blocks_add (d : Builder) (c : Clause) :
    placed (d.add c).blocks = placed d.blocks ++ [(d.done.length, c.rule)] := by
  rw [blocks_add, placed_concat, placed_blocks, List.map_append, List.append_assoc]
  rfl

theorem name_blocks_add (hi : i < d.blocks.length) (c : Clause) :
    (d.add c).blocks[i]?.map (·.name) = d.blocks[i]?.map (·.name) := by
  rw [blocks_add]
  by_cases h : d.clauses = []
  · rw [blocks_of_nil h] at hi ⊢
    rw [List.getElem?_append_left hi]
  · rw [blocks_of_ne_nil h] at hi ⊢
    rw [← List.getElem?_map, ← List.getElem?_map, List.map_append, List.map_append]
    rfl

theorem length_blocks_of_nil (h : d.clauses = []) : d.blocks.length = d.done.length := by
  rw [blocks_of_nil h]

theorem length_blocks_of_ne_nil (h : d.clauses ≠ []) : d.blocks.length = d.done.length + 1 := by
  rw [blocks_of_ne_nil h, List.length_append, List.length_singleton]

theorem done_subset_blocks (d : Builder) : d.done ⊆ d.blocks := by
  by_cases h : d.clauses = []
  · rw [blocks_of_nil h]
    exact List.Subset.refl _
  · rw [blocks_of_ne_nil h]
    exact List.subset_append_left _ _

end Builder

namespace IsSegmented

variable {ls : List Line} {l : Line} {bs' : List Block} {d : Builder} {c : Clause}

theorem length_placed_eq (h : IsSegmented ls bs) : (placed bs).length = ls.countP isRule := by
  rw [← length_rules, h.rules_eq, List.length_map, length_placed]

theorem map_ok_rule (bs : List Block) :
    ((bs.flatMap (·.clauses)).map fun c ↦ (.ok c.rule : Except Fault Rule)) =
      (placed bs).map fun p ↦ .ok p.2 := by
  calc ((bs.flatMap (·.clauses)).map fun c ↦ (.ok c.rule : Except Fault Rule))
      = ((bs.flatMap (·.clauses)).map Clause.rule).map .ok := by rw [List.map_map]; rfl
    _ = ((placed bs).map (·.2)).map .ok := by rw [map_snd_placed]
    _ = (placed bs).map fun p ↦ .ok p.2 := by rw [List.map_map]; rfl

theorem nil : IsSegmented [] [] where
  rules_eq := rfl
  clauses_ne_nil := by simp
  apart_iff h := by simp at h
  name_eq h := by simp at h

/-- A line that is no rule changes nothing but commands. -/
theorem concat_other (h : IsSegmented ls bs) (hl : l.isRule = false)
    (hplaced : placed bs' = placed bs) (hnames : bs'.map (·.name) = bs.map (·.name))
    (hne : ∀ b ∈ bs', b.clauses ≠ []) : IsSegmented (ls ++ [l]) bs' where
  rules_eq := by
    have hnone : l.rule? = none := by
      rw [← Option.not_isSome_iff_eq_none, isSome_rule?, hl]
      exact Bool.false_ne_true
    rw [List.filterMap_append, List.filterMap_cons_none hnone, List.filterMap_nil, List.append_nil,
      h.rules_eq, map_ok_rule, map_ok_rule, hplaced]
  clauses_ne_nil := hne
  apart_iff {a r m r' z i x j y} hls hr hm hr' hx hy := by
    rw [hplaced] at hx hy ⊢
    rw [← List.cons_append, ← List.append_assoc] at hls
    rcases concat_eq_append_cons_iff.1 hls with ⟨-, rfl, -⟩ | ⟨z', -, hls⟩
    · rw [hl] at hr'
      exact absurd hr' Bool.false_ne_true
    · rw [List.append_assoc, List.cons_append] at hls
      exact h.apart_iff hls hr hm hr' hx hy
  name_eq {a r z i x} hls hr hx hnew := by
    rw [hplaced] at hx hnew
    rw [← List.getElem?_map, hnames, List.getElem?_map]
    rcases concat_eq_append_cons_iff.1 hls with ⟨-, rfl, -⟩ | ⟨z', -, hls⟩
    · rw [hl] at hr
      exact absurd hr Bool.false_ne_true
    · exact h.name_eq hls hr hx hnew

/-- The new rule is in another block than the one in front of it when it opens a block. -/
theorem apart_iff_last (h : IsSegmented ls d.blocks) {a m : List Line} {r : Line} {i j : Nat}
    {x y : Rule} (hls : ls = a ++ r :: m) (hr : r.isRule = true) (hm : ∀ l ∈ m, l.isRule = false)
    (hx : (placed (d.add c).blocks)[a.countP isRule]? = some (i, x))
    (hy : (placed (d.add c).blocks)[a.countP isRule + 1]? = some (j, y)) :
    i + 1 = d.blocks.length ∧ (i ≠ j ↔ d.clauses = []) ∧
      (placed (d.add c).blocks).take (a.countP isRule + 1) = placed d.blocks := by
  have hnumber : (placed d.blocks).length = a.countP isRule + 1 := by
    have hm' : m.countP isRule = 0 := by
      rw [List.countP_eq_zero]
      intro l hl
      rw [hm l hl]
      exact Bool.false_ne_true
    rw [h.length_placed_eq, hls, List.countP_append, List.countP_cons_of_pos hr, hm']
  rw [d.placed_blocks_add] at hx hy ⊢
  rw [List.getElem?_append_left (by omega)] at hx
  rw [← hnumber, List.getElem?_concat_length] at hy
  rw [← hnumber, List.take_left]
  have hlast : (placed d.blocks).getLast? = some (i, x) := by
    rw [List.getLast?_eq_getElem?, hnumber]
    exact hx
  have hi : i + 1 = d.blocks.length := number_of_last h.clauses_ne_nil hlast
  have hj : j = d.done.length := (Prod.mk.inj (Option.some.inj hy)).1.symm
  refine ⟨hi, ?_, rfl⟩
  by_cases hd : d.clauses = []
  · rw [Builder.length_blocks_of_nil hd] at hi
    exact iff_of_true (by omega) hd
  · rw [Builder.length_blocks_of_ne_nil hd] at hi
    exact iff_of_false (by omega) hd

/-- When the new rule is the first one of its block, it has the name at hand. -/
theorem name_eq_last (h : IsSegmented ls d.blocks)
    (hx : (placed (d.add c).blocks)[ls.countP isRule]? = some (i, x))
    (hnew : ∀ w, (i, w) ∉ (placed (d.add c).blocks).take (ls.countP isRule)) :
    d.clauses = [] ∧ (d.add c).blocks[i]?.map (·.name) = some d.name := by
  rw [d.placed_blocks_add, ← h.length_placed_eq, List.getElem?_concat_length] at hx
  rw [d.placed_blocks_add, ← h.length_placed_eq, List.take_left] at hnew
  have hi : i = d.done.length := (Prod.mk.inj (Option.some.inj hx)).1.symm
  constructor
  · by_contra hne
    obtain ⟨c', r, hc⟩ := List.exists_cons_of_ne_nil hne
    apply hnew c'.rule
    rw [d.placed_blocks, hc, hi]
    simp
  · rw [d.blocks_add, hi, List.getElem?_concat_length, Option.map_some]

/-- A rule goes to the open block, or to a new one when there is none. -/
theorem concat_rule (h : IsSegmented ls d.blocks) (hl : l.rule? = some (.ok c.rule))
    (hname : d.clauses = [] → d.name = nameAhead ls)
    (hcut : ∀ a r m, ls = a ++ r :: m → r.isRule = true → (∀ l ∈ m, l.isRule = false) →
      (d.clauses = [] ↔ (∃ l ∈ m, l.isBreak = true) ∨ (l.isFirst = true ∧
        ∃ w, (d.blocks.length - 1, w) ∈ placed d.blocks ∧ w.isElse = false))) :
    IsSegmented (ls ++ [l]) (d.add c).blocks where
  rules_eq := by
    rw [List.filterMap_append, List.filterMap_cons_some hl, List.filterMap_nil, h.rules_eq,
      map_ok_rule, map_ok_rule, d.placed_blocks_add, List.map_append]
    rfl
  clauses_ne_nil := by
    intro b hb
    rw [d.blocks_add, List.mem_append, List.mem_singleton] at hb
    rcases hb with hb | rfl
    · exact h.clauses_ne_nil b (d.done_subset_blocks hb)
    · simp
  apart_iff {a r m r' z i x j y} hls hr hm hr' hx hy := by
    rw [← List.cons_append, ← List.append_assoc] at hls
    -- The second rule is the new line, or both are in the lines before it.
    rcases concat_eq_append_cons_iff.1 hls with ⟨hlead, rfl, -⟩ | ⟨z', -, hls⟩
    · obtain ⟨hi, hapart, htake⟩ := h.apart_iff_last hlead hr hm hx hy
      rw [htake, hapart, hcut a r m hlead hr hm, ← hi, Nat.add_sub_cancel]
    · rw [List.append_assoc, List.cons_append] at hls
      have hlt : a.countP isRule + 1 < (placed d.blocks).length := by
        rw [h.length_placed_eq, hls, List.countP_append, List.countP_cons_of_pos hr,
          List.countP_append, List.countP_cons_of_pos hr']
        omega
      rw [d.placed_blocks_add] at hx hy ⊢
      rw [List.getElem?_append_left (by omega)] at hx
      rw [List.getElem?_append_left hlt] at hy
      rw [List.take_append_of_le_length (by omega)]
      exact h.apart_iff hls hr hm hr' hx hy
  name_eq {a r z i x} hls hr hx hnew := by
    rcases concat_eq_append_cons_iff.1 hls with ⟨rfl, rfl, -⟩ | ⟨z', -, hls⟩
    · obtain ⟨hnil, hgiven⟩ := h.name_eq_last hx hnew
      rw [hgiven, hname hnil]
    · have hlt : a.countP isRule < (placed d.blocks).length := by
        rw [h.length_placed_eq, hls, List.countP_append, List.countP_cons_of_pos hr]
        omega
      rw [d.placed_blocks_add] at hx hnew
      rw [List.getElem?_append_left hlt] at hx
      rw [List.take_append_of_le_length (Nat.le_of_lt hlt)] at hnew
      rw [d.name_blocks_add (lt_of_mem_placed (List.mem_of_getElem? hx))]
      exact h.name_eq hls hr hx hnew

end IsSegmented

namespace Builder

variable {d d' : Builder} {ls : List Line} {l : Line}

/-! ## One line more -/

theorem clauses_close (d : Builder) : d.close.clauses = [] := by
  unfold close
  split
  · next h => exact List.isEmpty_iff.1 h
  · rfl

theorem close_of_nil (h : d.clauses = []) : d.close = d := by
  unfold close
  rw [if_pos (by simpa using h)]

theorem name_close_of_ne_nil (h : d.clauses ≠ []) : d.close.name = none := by
  unfold close
  rw [if_neg (by simpa using h)]

theorem blocks_close (d : Builder) : d.close.blocks = d.blocks :=
  blocks_of_nil d.clauses_close

/-- The open block as a rule finds it: an `if` ends one with a condition. -/
def ready (d : Builder) (l : Line) : Builder :=
  if l.isFirst && d.clauses.any (!·.isElse) then d.close else d

theorem blocks_ready (d : Builder) (l : Line) : (d.ready l).blocks = d.blocks := by
  unfold ready
  split
  · exact d.blocks_close
  · rfl

theorem name_close_ready (d : Builder) (l : Line) : (d.ready l).close.name = d.close.name := by
  unfold ready
  split
  · rw [close_of_nil d.clauses_close]
  · rfl

/-- A rule adds a clause without a command. -/
theorem step_of_rule? {x : Except Fault Rule} (h : l.rule? = some x) (d : Builder) :
    d.step l = x.map fun x ↦ (d.ready l).add ⟨x.condition, [], x.isElse⟩ := by
  have hread {b : Builder} {e : Text} :
      ((Condition.read e).map fun c ↦ b.add ⟨c, [], false⟩) =
        ((Condition.read e).map fun c ↦ (⟨c, false⟩ : Rule)).map fun x ↦
          b.add ⟨x.condition, [], x.isElse⟩ := by
    cases Condition.read e <;> rfl
  cases l with
  | first e =>
    rw [← Option.some.inj h, ← hread]
    rfl
  | next e =>
    rw [← Option.some.inj h, ← hread]
    rfl
  | otherwise =>
    rw [← Option.some.inj h]
    rfl
  | _ => simp [rule?] at h

/-- What is at hand behind some lines. -/
structure Follows (ls : List Line) (d : Builder) : Prop where
  segmented : IsSegmented ls d.blocks
  clauses_eq_nil_iff : d.clauses = [] ↔ isBare ls = true
  name_close : d.close.name = nameAhead ls

theorem follows_start : Follows [] start := ⟨.nil, by decide, rfl⟩

/-- When the rule opens a block. -/
theorem Follows.clauses_ready_eq_nil_iff (h : d.Follows ls) (l : Line) {a m : List Line} {r : Line}
    (hls : ls = a ++ r :: m) (hr : r.isRule = true) (hm : ∀ l ∈ m, l.isRule = false) :
    (d.ready l).clauses = [] ↔ (∃ l ∈ m, l.isBreak = true) ∨ (l.isFirst = true ∧
      ∃ w, (d.blocks.length - 1, w) ∈ placed d.blocks ∧ w.isElse = false) := by
  have hbare : d.clauses = [] ↔ ∃ l ∈ m, l.isBreak = true := by
    rw [h.clauses_eq_nil_iff, hls, isBare_append_cons hr hm, List.any_eq_true]
  by_cases hd : d.clauses = []
  · have hready : d.ready l = d := by
      unfold ready
      rw [hd, List.any_nil, Bool.and_false]
      rfl
    rw [hready]
    exact iff_of_true hd (.inl (hbare.1 hd))
  · have hlast : (∃ w, (d.blocks.length - 1, w) ∈ placed d.blocks ∧ w.isElse = false) ↔
        d.clauses.any (!·.isElse) = true := by
      rw [blocks_of_ne_nil hd, List.length_append, List.length_singleton, Nat.add_sub_cancel]
      simp only [mem_placed_concat_iff, List.any_eq_true, Bool.not_eq_true']
      constructor
      · rintro ⟨w, ⟨c, hc, rfl⟩, hw⟩
        exact ⟨c, hc, hw⟩
      · rintro ⟨c, hc, hw⟩
        exact ⟨c.rule, ⟨c, hc, rfl⟩, hw⟩
    rw [hlast, ← hbare, or_iff_right hd, ← Bool.and_eq_true]
    unfold ready
    split
    · next hcut => exact iff_of_true d.clauses_close hcut
    · next hcut => exact iff_of_false hd hcut

theorem Follows.rule (h : d.Follows ls) {x : Rule} (hl : l.rule? = some (.ok x)) :
    ((d.ready l).add ⟨x.condition, [], x.isElse⟩).Follows (ls ++ [l]) := by
  have hrule : l.isRule = true := isRule_of_rule? hl
  have hne : ((d.ready l).add ⟨x.condition, [], x.isElse⟩).clauses ≠ [] := by simp [add]
  refine ⟨?_, ?_, ?_⟩
  · refine IsSegmented.concat_rule ?_ hl ?_ ?_
    · rw [d.blocks_ready]
      exact h.segmented
    · intro hnil
      rw [← h.name_close, ← d.name_close_ready l, close_of_nil hnil]
    · intro a r m hls hr hm
      rw [d.blocks_ready]
      exact h.clauses_ready_eq_nil_iff l hls hr hm
  · have hbreak : l.isBreak = false := by
      rw [← Bool.not_eq_true]
      intro hbreak
      rw [isRule_of_isBreak hbreak] at hrule
      exact Bool.false_ne_true hrule
    rw [isBare_concat, hrule, hbreak]
    exact iff_of_false hne Bool.false_ne_true
  · rw [name_close_of_ne_nil hne, nameAhead_concat, if_pos hrule]

/-- A break leaves no open block. -/
theorem Follows.pause (h : d.Follows ls) (hl : l.isBreak = true) {name : Option Text}
    (hname : name = l.name?.or d.close.name) :
    ({ d.close with name } : Builder).Follows (ls ++ [l]) := by
  have hrule : l.isRule = false := isRule_of_isBreak hl
  have hnil : ({ d.close with name } : Builder).clauses = [] := d.clauses_close
  refine ⟨?_, ?_, ?_⟩
  · rw [blocks_of_nil hnil]
    exact h.segmented.concat_other hrule rfl rfl h.segmented.clauses_ne_nil
  · rw [isBare_concat, hl]
    exact iff_of_true hnil rfl
  · rw [close_of_nil hnil, nameAhead_concat, if_neg (by simp [hrule]), ← h.name_close]
    exact hname

theorem map_name_blocks_congr (hdone : d'.done = d.done) (hname : d'.name = d.name)
    (hnil : d'.clauses = [] ↔ d.clauses = []) :
    d'.blocks.map (·.name) = d.blocks.map (·.name) := by
  by_cases hd : d.clauses = []
  · rw [blocks_of_nil hd, blocks_of_nil (hnil.2 hd), hdone]
  · rw [blocks_of_ne_nil hd, blocks_of_ne_nil (mt hnil.1 hd), hdone, List.map_append,
      List.map_append, List.map_singleton, List.map_singleton, hname]

theorem placed_blocks_congr (hdone : d'.done = d.done)
    (hrules : d'.clauses.map Clause.rule = d.clauses.map Clause.rule) :
    placed d'.blocks = placed d.blocks := by
  have hmap (cs : List Clause) : (cs.map fun c ↦ (d.done.length, c.rule)) =
      (cs.map Clause.rule).map fun x ↦ (d.done.length, x) := by
    rw [List.map_map]
    rfl
  rw [placed_blocks, placed_blocks, hdone, hmap, hmap, hrules]

theorem clauses_ne_nil_of_mem_blocks (h : ∀ b ∈ d.done, b.clauses ≠ []) :
    ∀ b ∈ d.blocks, b.clauses ≠ [] := by
  intro b hb
  by_cases hd : d.clauses = []
  · rw [blocks_of_nil hd] at hb
    exact h b hb
  · rw [blocks_of_ne_nil hd, List.mem_append, List.mem_singleton] at hb
    rcases hb with hb | rfl
    · exact h b hb
    · exact hd

theorem name_close_congr (hname : d'.name = d.name) (hnil : d'.clauses = [] ↔ d.clauses = []) :
    d'.close.name = d.close.name := by
  by_cases hd : d.clauses = []
  · rw [close_of_nil hd, close_of_nil (hnil.2 hd), hname]
  · rw [name_close_of_ne_nil hd, name_close_of_ne_nil (mt hnil.1 hd)]

/-- Any other line changes nothing that a rule says. -/
theorem Follows.idle (h : d.Follows ls) (hrule : l.isRule = false) (hbreak : l.isBreak = false)
    (hdone : d'.done = d.done) (hname : d'.name = d.name)
    (hrules : d'.clauses.map Clause.rule = d.clauses.map Clause.rule) : d'.Follows (ls ++ [l]) := by
  have hnil : d'.clauses = [] ↔ d.clauses = [] := by
    rw [← List.map_eq_nil_iff (f := Clause.rule), hrules, List.map_eq_nil_iff]
  have hnone : l.name? = none := by
    cases l with
    | name n => exact absurd hbreak (by simp [isBreak])
    | _ => rfl
  have hne : ∀ b ∈ d'.blocks, b.clauses ≠ [] := by
    apply clauses_ne_nil_of_mem_blocks
    intro b hb
    rw [hdone] at hb
    exact h.segmented.clauses_ne_nil b (d.done_subset_blocks hb)
  constructor
  · exact h.segmented.concat_other hrule (placed_blocks_congr hdone hrules)
      (map_name_blocks_congr hdone hname hnil) hne
  · rw [hnil, isBare_concat, hrule, hbreak]
    exact h.clauses_eq_nil_iff
  · rw [name_close_congr hname hnil, nameAhead_concat, if_neg (by simp [hrule]), hnone,
      h.name_close]
    rfl

theorem map_rule_of_command? {c : Text} (h : d.command? c = some d') :
    d'.done = d.done ∧ d'.name = d.name ∧
      d'.clauses.map Clause.rule = d.clauses.map Clause.rule := by
  obtain ⟨last, hlast, rfl⟩ := Option.map_eq_some_iff.1 h
  obtain ⟨r, hr⟩ := List.getLast?_eq_some_iff.1 hlast
  refine ⟨rfl, rfl, ?_⟩
  simp only [hr, List.dropLast_concat, List.map_append]
  rfl

theorem Follows.step (h : d.Follows ls) (hd : d.step l = .ok d') : d'.Follows (ls ++ [l]) := by
  cases hl : l.rule? with
  | some x =>
    rw [step_of_rule? hl] at hd
    cases x with
    | error f => exact absurd hd (by simp [Except.map])
    | ok x =>
      rw [← Except.ok.inj hd]
      exact h.rule hl
  | none =>
    cases l with
    | blank =>
      rw [← Except.ok.inj hd]
      exact h.pause rfl rfl
    | name n =>
      rw [← Except.ok.inj hd]
      exact h.pause rfl rfl
    | command line c =>
      cases hc : d.command? c with
      | none => simp [Builder.step, hc] at hd
      | some d₁ =>
        have heq : d₁ = d' := by simpa [Builder.step, hc] using hd
        subst heq
        obtain ⟨hdone, hname, hrules⟩ := map_rule_of_command? hc
        exact h.idle rfl rfl hdone hname hrules
    | other =>
      rw [← Except.ok.inj hd]
      exact h.idle rfl rfl rfl rfl rfl
    | _ => simp [rule?] at hl

/-- A line fails where it is wrong behind the lines so far. -/
theorem Follows.step_eq_error_iff (h : d.Follows ls) {f : Fault} :
    d.step l = .error f ↔ IsFault ls l f := by
  cases hl : l.rule? with
  | some x =>
    have hcommand : ¬ ∃ line c, l = .command line c ∧ isBare ls = true ∧ f = .strayThen line := by
      rintro ⟨line, c, rfl, -⟩
      simp [rule?] at hl
    rw [IsFault, or_iff_left hcommand, hl, step_of_rule? hl]
    cases x <;> simp [Except.map]
  | none =>
    rw [IsFault, hl, or_iff_right (by simp)]
    cases l with
    | command line c =>
      have hbare : isBare ls = true ↔ d.command? c = none := by
        rw [← h.clauses_eq_nil_iff, command?, Option.map_eq_none_iff, List.getLast?_eq_none_iff]
      have hstep : d.step (.command line c) = .error f ↔
          d.command? c = none ∧ f = .strayThen line := by
        cases hc : d.command? c with
        | none => simp [Builder.step, hc, eq_comm]
        | some d₁ => simp [Builder.step, hc]
      rw [hstep, ← hbare]
      constructor
      · rintro ⟨hnone, rfl⟩
        exact ⟨line, c, rfl, hnone, rfl⟩
      · rintro ⟨line', c', heq, hnone, rfl⟩
        rw [(Line.command.inj heq).1]
        exact ⟨hnone, rfl⟩
    | first e => simp [rule?] at hl
    | next e => simp [rule?] at hl
    | otherwise => simp [rule?] at hl
    | _ => simp [Builder.step]

end Builder

/-! ## Whole texts -/

section Reading

variable {ls : List Line} {d : Builder} {f : Fault} {s : Text}

/-- Reads lines. -/
def readLines (ls : List Line) : Except Fault Builder := ls.foldlM Builder.step Builder.start

theorem readLines_concat (ls : List Line) (l : Line) :
    readLines (ls ++ [l]) = (readLines ls).bind fun d ↦ d.step l := by
  unfold readLines
  rw [List.foldlM_append]
  cases ls.foldlM Builder.step Builder.start with
  | error f => rfl
  | ok d =>
    change ([l].foldlM Builder.step d : Except Fault Builder) = d.step l
    rw [List.foldlM_cons]
    cases d.step l <;> rfl

theorem exists_of_readLines_concat {l : Line} (h : readLines (ls ++ [l]) = .ok d) :
    ∃ d₁, readLines ls = .ok d₁ ∧ d₁.step l = .ok d := by
  rw [readLines_concat] at h
  cases hls : readLines ls with
  | error f =>
    rw [hls] at h
    exact absurd h (by simp [Except.bind])
  | ok d₁ =>
    rw [hls] at h
    exact ⟨d₁, rfl, h⟩

theorem follows_of_readLines (h : readLines ls = .ok d) : d.Follows ls := by
  induction ls using List.reverseRecOn generalizing d with
  | nil =>
    rw [← Except.ok.inj h]
    exact Builder.follows_start
  | append_singleton ls l ih =>
    obtain ⟨d₁, hls, hstep⟩ := exists_of_readLines_concat h
    exact (ih hls).step hstep

/-- Lines are read when none is at fault, and else fail with the first fault. -/
theorem readLines_iff (ls : List Line) :
    ((∃ d, readLines ls = .ok d) ↔ IsFaultless ls) ∧
      ∀ f, readLines ls = .error f ↔ IsFirstFault ls f := by
  induction ls using List.reverseRecOn with
  | nil => exact ⟨iff_of_true ⟨_, rfl⟩ isFaultless_nil,
      fun f ↦ iff_of_false (by simp [readLines, pure, Except.pure]) not_isFirstFault_nil⟩
  | append_singleton ls l ih =>
    rw [readLines_concat, isFaultless_concat, ← ih.1]
    simp only [isFirstFault_concat, ← ih.1, ← ih.2]
    cases hls : readLines ls with
    | error f => simp [Except.bind]
    | ok d =>
      have hfault : ∀ f, d.step l = .error f ↔ IsFault ls l f :=
        fun f ↦ (follows_of_readLines hls).step_eq_error_iff
      simp only [← hfault]
      cases hl : d.step l <;> simp [Except.bind, hl]

theorem blocks_eq (s : Text) : blocks s = (readLines (rows s)).map Builder.blocks := by
  unfold blocks readLines rows
  rw [List.foldlM_map]
  cases (Text.lines s).foldlM (fun d l ↦ d.step (Line.ofText (Text.trim l))) Builder.start <;> rfl

/-- A text is read when none of its lines is at fault, and else reading fails with the first fault.
The blocks are those the lines are cut into. -/
theorem blocks_segmented (s : Text) :
    ((∃ bs, blocks s = .ok bs) ↔ IsFaultless (rows s)) ∧
      (∀ f, blocks s = .error f ↔ IsFirstFault (rows s) f) ∧
      ∀ bs, blocks s = .ok bs → IsSegmented (rows s) bs := by
  obtain ⟨hfaultless, hfirst⟩ := readLines_iff (rows s)
  rw [blocks_eq, ← hfaultless]
  simp only [← hfirst]
  cases h : readLines (rows s) with
  | error f => simp [Except.map]
  | ok d =>
    have hsegmented : IsSegmented (rows s) d.blocks := (follows_of_readLines h).segmented
    refine ⟨iff_of_true ⟨d.blocks, rfl⟩ ⟨d, rfl⟩, fun f ↦ by simp [Except.map], fun bs hbs ↦ ?_⟩
    rw [← Except.ok.inj hbs]
    exact hsegmented

end Reading

end Markbook.Trigger
