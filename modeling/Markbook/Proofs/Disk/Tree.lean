import Markbook.Proofs.Disk.Overwritten
import Markbook.Proofs.Text.Cut
import Markbook.TextMap
import Mathlib.Data.List.Nodup

/-!
# Disks without Links

A disk is a tree when it has no links, no place twice, and each item lies in a folder under a proper
name (`Disk.IsTree`).  There a name behind the path of a folder leads to the item of the name
(`Disk.IsTree.place?_join`), and the listing of a folder has each of its items once, in the order of
their names.
-/

namespace Markbook

/-! ## Names behind paths -/

/-- Can the text be the name of an item of a folder? -/
structure Disk.IsName (s : Text) : Prop where
  ne_nil : s ≠ []
  slash_not_mem : '/' ∉ s
  ne_here : s ≠ ['.']
  ne_up : s ≠ ['.', '.']

namespace Text

theorem pieces_append_sep (sep : Char) (a b : Text) :
    pieces sep (a ++ sep :: b) = pieces sep a ++ pieces sep b := by
  induction a with
  | nil => simp [pieces]
  | cons c r ih =>
    rw [List.cons_append, pieces, pieces]
    split
    · rw [ih, List.cons_append]
    · rw [ih]
      cases h : pieces sep r with
      | nil => exact absurd h (pieces_ne_nil sep r)
      | cons p ps => rfl

theorem le_iff {a b : Text} : le a b = true ↔ ¬ b < a := by
  unfold le
  rw [Bool.not_eq_true', decide_eq_false_iff_not]

end Text

namespace Path

variable {base : Path} {s : Text}

/-- The text of a path and a name behind it, with one slash in between. -/
theorem exists_text_join (hbase : base.text ≠ []) (hs : Disk.IsName s) :
    ∃ a, (base.join ⟨s⟩).text = a ++ '/' :: s ∧ (base.text = a ∨ base.text = a ++ ['/']) := by
  have hrelative : isAbsolute ⟨s⟩ = false := by
    unfold isAbsolute
    cases s with
    | nil => rfl
    | cons c r =>
      have hc : c ≠ '/' := fun h ↦ hs.slash_not_mem (h ▸ List.mem_cons_self)
      simpa using hc
  have hempty : base.text.isEmpty = false := List.isEmpty_eq_false_iff.2 hbase
  unfold join
  rw [hrelative, hempty]
  simp only [Bool.or_self, Bool.false_eq_true, if_false]
  split
  · next hslash =>
    obtain ⟨a, ha⟩ := List.getLast?_eq_some_iff.1 hslash
    exact ⟨a, by simp [ha], .inr ha⟩
  · exact ⟨base.text, rfl, .inl rfl⟩

/-- What the pieces of a path are as parts, the empty ones and the dots left out. -/
def inner (l : List Text) : List PathPart := (l.filter fun p ↦ !p.isEmpty && p ≠ ['.']).map ofPiece

theorem parts_eq (p : Path) :
    p.parts =
      if p.text.head? = some '/' then .root :: inner (Text.pieces '/' p.text)
      else if (Text.pieces '/' p.text).head? = some ['.'] then
        .here :: inner (Text.pieces '/' p.text)
      else inner (Text.pieces '/' p.text) := rfl

theorem inner_append (a b : List Text) : inner (a ++ b) = inner a ++ inner b := by simp [inner]

theorem inner_singleton (hs : Disk.IsName s) : inner [s] = [.name s] := by
  simp [inner, hs.ne_nil, hs.ne_here, ofPiece, hs.ne_up]

/-- The parts of a path with a name behind it. -/
theorem parts_join (hbase : base.text ≠ []) (hs : Disk.IsName s) :
    (base.join ⟨s⟩).parts = base.parts ++ [.name s] := by
  obtain ⟨a, hjoin, ha⟩ := exists_text_join hbase hs
  have hpieces : Text.pieces '/' (base.join ⟨s⟩).text = Text.pieces '/' a ++ [s] := by
    rw [hjoin, Text.pieces_append_sep, Text.pieces_of_not_mem hs.slash_not_mem]
  -- A slash at the end of the path only adds an empty piece.
  obtain ⟨b, hb, hbasePieces⟩ : ∃ b, inner b = [] ∧
      Text.pieces '/' base.text = Text.pieces '/' a ++ b := by
    rcases ha with ha | ha
    · exact ⟨[], rfl, by rw [ha, List.append_nil]⟩
    · exact ⟨[[]], rfl, by rw [ha, Text.pieces_append_sep]; rfl⟩
  have hinner : inner (Text.pieces '/' a ++ [s]) = inner (Text.pieces '/' a ++ b) ++ [.name s] := by
    rw [inner_append, inner_append, inner_singleton hs, hb, List.append_nil]
  have hhead : (base.join ⟨s⟩).text.head? = base.text.head? := by
    rw [hjoin]
    cases a with
    | nil =>
      rcases ha with ha | ha
      · exact absurd ha hbase
      · rw [ha]
        rfl
    | cons c r => rcases ha with ha | ha <;> rw [ha] <;> rfl
  have hfirst : (Text.pieces '/' a ++ [s]).head? = (Text.pieces '/' a ++ b).head? := by
    obtain ⟨p, ps, hp⟩ := List.exists_cons_of_ne_nil (Text.pieces_ne_nil '/' a)
    rw [hp]
    rfl
  rw [parts_eq, parts_eq, hpieces, hbasePieces, hhead, hfirst, hinner]
  split
  · rfl
  · split <;> rfl

end Path

namespace Disk

variable {d : Disk} {dir : Path} {q : Place} {s : Text}

/-- Only a name behind the last slash of a path that is empty or a dot demands a folder. -/
theorem demandsFolder_join (hbase : dir.text ≠ []) (hs : IsName s) :
    demandsFolder (dir.join ⟨s⟩) = false := by
  obtain ⟨a, hjoin, -⟩ := Path.exists_text_join hbase hs
  have hlast {r : Text} (hr : '/' ∉ r) (hne : s ≠ r) :
      (Text.before? ('/' :: r) (dir.join ⟨s⟩).text).isSome = false := by
    rw [Bool.eq_false_iff, Ne, Option.isSome_iff_exists]
    rintro ⟨start, hstart⟩
    have hcut := Text.cutLast?_eq_some_iff.2 ⟨Text.before?_eq_some_iff.1 hstart, hr⟩
    rw [Text.cutLast?_eq_some_iff.2 ⟨hjoin, hs.slash_not_mem⟩] at hcut
    exact hne (congrArg Prod.snd (Option.some.inj hcut))
  unfold demandsFolder
  rw [hlast List.not_mem_nil hs.ne_nil, hlast (by decide) hs.ne_here]
  rfl

theorem le_depth_of_mem {e : Place × Item} (he : e ∈ d.items) : e.1.length ≤ d.depth := by
  have hfold (l : List (Place × Item)) (n : Nat) :
      n ≤ l.foldl (fun n e ↦ max n e.1.length) n ∧
        ∀ e ∈ l, e.1.length ≤ l.foldl (fun n e ↦ max n e.1.length) n := by
    induction l generalizing n with
    | nil => simp
    | cons a r ih =>
      obtain ⟨hle, hall⟩ := ih (max n a.1.length)
      rw [List.foldl_cons, List.forall_mem_cons]
      exact ⟨le_trans (le_max_left _ _) hle, le_trans (le_max_right _ _) hle, hall⟩
  exact (hfold d.items 0).2 e he

/-- A disk without links, in which each place is taken once and lies in a folder. -/
structure IsTree (d : Disk) : Prop where
  places_nodup : (d.items.map (·.1)).Nodup
  housed : ∀ e ∈ d.items, ∃ folder s, e.1 = folder ++ [s] ∧ IsName s ∧ d.item? folder = some .folder
  unlinked : ∀ e ∈ d.items, ∀ target, e.2 ≠ .link target

namespace IsTree

/-! ## Items -/

theorem item?_eq_some_iff (h : d.IsTree) (hq : q ≠ []) {i : Item} :
    d.item? q = some i ↔ (q, i) ∈ d.items := by
  unfold item?
  rw [List.isEmpty_eq_false_iff.2 hq]
  simp only [Bool.false_eq_true, if_false, Option.map_eq_some_iff]
  constructor
  · rintro ⟨e, he, rfl⟩
    obtain rfl : e.1 = q := by simpa using List.find?_some he
    exact List.mem_of_find?_eq_some he
  · intro hmem
    obtain ⟨e, he⟩ : ∃ e, d.items.find? (fun e ↦ decide (e.1 = q)) = some e := by
      rw [← Option.isSome_iff_exists, List.find?_isSome]
      exact ⟨_, hmem, decide_eq_true rfl⟩
    have heq : e.1 = q := by simpa using List.find?_some he
    have hsame := List.inj_on_of_nodup_map h.places_nodup (List.mem_of_find?_eq_some he) hmem heq
    exact ⟨e, he, by rw [hsame]⟩

theorem item?_ne_link (h : d.IsTree) (q : Place) (target : Path) :
    d.item? q ≠ some (.link target) := by
  intro hitem
  have hq : q ≠ [] := ne_nil_of_item? hitem (by simp)
  exact h.unlinked _ ((h.item?_eq_some_iff hq).1 hitem) target rfl

/-- What lies around an item is a folder. -/
theorem item?_of_append (h : d.IsTree) {r : Place} {i : Item} (hr : r ≠ [])
    (hitem : d.item? (q ++ r) = some i) : d.item? q = some .folder := by
  induction r using List.reverseRecOn generalizing i with
  | nil => exact absurd rfl hr
  | append_singleton r s ih =>
    have hne : q ++ (r ++ [s]) ≠ [] := by simp
    obtain ⟨folder, s', heq, -, hfolder⟩ := h.housed _ ((h.item?_eq_some_iff hne).1 hitem)
    rw [← List.append_assoc] at heq
    obtain ⟨rfl, -⟩ := List.append_inj' heq rfl
    by_cases hnil : r = []
    · rw [hnil, List.append_nil] at hfolder
      exact hfolder
    · exact ih hnil hfolder

theorem isName (h : d.IsTree) {i : Item} (hitem : d.item? (q ++ [s]) = some i) : IsName s := by
  have hne : q ++ [s] ≠ [] := by simp
  obtain ⟨folder, s', heq, hs, -⟩ := h.housed _ ((h.item?_eq_some_iff hne).1 hitem)
  obtain ⟨-, hsame⟩ := List.append_inj' heq rfl
  rw [List.singleton_inj.1 hsame]
  exact hs

theorem length_le_depth (h : d.IsTree) {i : Item} (hitem : d.item? q = some i) :
    q.length ≤ d.depth := by
  by_cases hq : q = []
  · rw [hq]
    exact Nat.zero_le _
  · have hmem := (h.item?_eq_some_iff hq).1 hitem
    exact le_depth_of_mem hmem

/-! ## Paths -/

/-- A way to a folder goes on behind it. -/
theorem walk_append (h : d.IsTree) {links : Nat} {at_ : Place} {parts r : List PathPart}
    (hwalk : d.walk links at_ parts = .ok q) (hq : d.item? q = some .folder) :
    d.walk links at_ (parts ++ r) = d.walk links q r := by
  fun_induction walk d links at_ parts with
  | case1 =>
    rw [← Except.ok.inj hwalk]
    rfl
  | case2 => simp at hwalk
  | case3 links at_ r' ih =>
    rw [List.cons_append, walk]
    exact ih hwalk
  | case4 => simp at hwalk
  | case5 links at_ r' hne ih =>
    rw [List.cons_append, walk, if_neg hne]
    exact ih hwalk
  | case6 links at_ s r' hitem hr =>
    rw [Except.ok.inj hwalk, hq] at hitem
    simp at hitem
  | case7 => simp at hwalk
  | case8 links at_ s r' hitem ih =>
    rw [List.cons_append, walk, hitem]
    exact ih hwalk
  | case9 links at_ s r' c t hitem hr =>
    rw [Except.ok.inj hwalk, hq] at hitem
    simp at hitem
  | case10 => simp at hwalk
  | case11 => simp at hwalk
  | case12 at_ s r' target hitem n ih => exact absurd hitem (h.item?_ne_link _ target)

/-- A name behind the path of a folder leads to the place of the name, taken or free. -/
theorem place?_join (h : d.IsTree) (hdir : d.place? dir = .ok q) (hq : d.item? q = some .folder)
    (hs : IsName s) : d.place? (dir.join ⟨s⟩) = .ok (q ++ [s]) := by
  have hne : dir.text ≠ [] := by
    intro hnil
    simp [place?, hnil] at hdir
  have hwalk : d.walk linkLimit [] dir.parts = .ok q := by
    simpa [place?, List.isEmpty_eq_false_iff.2 hne] using hdir
  rw [place?_eq_ok_iff (by simp), Path.parts_join hne hs, h.walk_append hwalk hq, walk]
  cases hitem : d.item? (q ++ [s]) with
  | none => rfl
  | some i =>
    cases i with
    | folder => exact walk.eq_1 d linkLimit (q ++ [s])
    | file c t => rfl
    | link target => exact absurd hitem (h.item?_ne_link _ target)

theorem find_join (h : d.IsTree) (hdir : d.place? dir = .ok q) (hq : d.item? q = some .folder)
    (hs : IsName s) :
    d.find (dir.join ⟨s⟩) =
      match d.item? (q ++ [s]) with
      | some i => .ok i
      | none => .error .missing := by
  have hne : dir.text ≠ [] := by
    intro hnil
    simp [place?, hnil] at hdir
  unfold find
  rw [h.place?_join hdir hq hs]
  simp only [bind, Except.bind]
  cases hitem : d.item? (q ++ [s]) with
  | none => rfl
  | some i => cases i <;> simp [demandsFolder_join hne hs]

theorem read_join (h : d.IsTree) (hdir : d.place? dir = .ok q) (hq : d.item? q = some .folder)
    (hs : IsName s) {c : Contents} {t : Int} (hitem : d.item? (q ++ [s]) = some (.file c t)) :
    d.read (dir.join ⟨s⟩) =
      match d.textAt? (q ++ [s]) with
      | some content => .ok content
      | none => .error .notText := by
  have hnull : isNullDevice (dir.join ⟨s⟩) = false := by
    by_contra hnull
    have hplace := h.place?_join hdir hq hs
    rw [place?_of_isNullDevice d (by simpa using hnull)] at hplace
    simp at hplace
  unfold read textAt?
  rw [hnull, h.find_join hdir hq hs, hitem]
  cases c <;> rfl

/-! ## Listings -/

theorem nameIn?_eq_some_iff {folder at_ : Place} :
    nameIn? folder at_ = some s ↔ at_ = folder ++ [s] := by
  unfold nameIn?
  rcases List.eq_nil_or_concat at_ with rfl | ⟨r, s', rfl⟩
  · simp
  · simp only [List.concat_eq_append, List.getLast?_concat, List.dropLast_concat]
    constructor
    · intro h
      split at h
      · next hr => rw [hr, Option.some.inj h]
      · simp at h
    · intro h
      obtain ⟨rfl, hsame⟩ := List.append_inj' h rfl
      rw [if_pos rfl, List.singleton_inj.1 hsame]

theorem mem_list_iff (h : d.IsTree) {i : Item} :
    (s, i) ∈ d.list q ↔ d.item? (q ++ [s]) = some i := by
  rw [h.item?_eq_some_iff (by simp)]
  unfold list
  simp only [List.mem_mergeSort, List.mem_filterMap, Option.map_eq_some_iff, Prod.mk.injEq,
    nameIn?_eq_some_iff]
  constructor
  · rintro ⟨⟨at_, i'⟩, hmem, s', hat, rfl, rfl⟩
    simp only at hat
    rwa [hat] at hmem
  · intro hmem
    exact ⟨_, hmem, s, rfl, rfl, rfl⟩

/-- The items of a folder come in the order of their names. -/
theorem list_ascending (h : d.IsTree) (q : Place) : (d.list q).Pairwise fun a b ↦ a.1 < b.1 := by
  have hle : (d.list q).Pairwise fun a b ↦ Text.le a.1 b.1 = true := by
    apply List.pairwise_mergeSort
    · intro a b c
      simp only [Text.le_iff]
      exact fun hab hbc ↦ List.not_lt.2 (List.le_trans (List.not_lt.1 hab) (List.not_lt.1 hbc))
    · intro a b
      rw [Bool.or_eq_true, Text.le_iff, Text.le_iff]
      exact (List.le_total a.1 b.1).imp List.not_lt.2 List.not_lt.2
  have hne : (d.list q).Pairwise fun a b ↦ a.1 ≠ b.1 := by
    unfold list
    rw [(List.mergeSort_perm _ _).pairwise_iff Ne.symm, List.pairwise_filterMap]
    refine (List.pairwise_map.1 h.places_nodup).imp ?_
    intro e e' hplaces p hp p' hp' hname
    obtain ⟨s, hs, rfl⟩ := Option.map_eq_some_iff.1 hp
    obtain ⟨s', hs', rfl⟩ := Option.map_eq_some_iff.1 hp'
    obtain rfl : s = s' := hname
    exact hplaces ((nameIn?_eq_some_iff.1 hs).trans (nameIn?_eq_some_iff.1 hs').symm)
  refine hle.imp₂ (fun a b hab hne ↦ ?_) hne
  exact Text.lt_of_not_lt_of_ne (Text.le_iff.1 hab) (Ne.symm hne)

end IsTree

end Disk

end Markbook
