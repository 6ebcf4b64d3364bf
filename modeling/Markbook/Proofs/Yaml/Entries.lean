import Markbook.Proofs.Yaml.Lines
import Markbook.Yaml.Resolve

/-!
# Mappings of Plain Scalars

The tokens of a mapping written one entry a line are read as that mapping, and each of its scalars
by the rules of plain scalars alone.  So every value comes back as what its own line says, unless
one line cannot be read: then there is no mapping at all (`Yaml.readEntries?_lines`).
-/

namespace Markbook.Yaml

/-! ## Nodes -/

/-- A plain scalar without a tag or an anchor. -/
def Node.plain (t : Text) : Node := .scalar ⟨none, none⟩ t true

/-- An entry of plain scalars. -/
def plainEntry (e : Text × Text) : Node × Node := (.plain e.1, .plain e.2)

namespace Reader

variable {n : Nat} {r : List Token} {h : List (Text × Text)} {a : List (Text × Nat)}

/-- Behind an entry stands a key, or the end of the mapping. -/
def EndsEntry (r : List Token) : Prop := ∃ r', r = .key :: r' ∨ r = .blockEnd :: r'

theorem blockEntries_cons (e : Text × Text) (hr : EndsEntry r) :
    blockEntries (n + 3) ⟨Scan.entryTokens e ++ r, h, a⟩ =
      (blockEntries (n + 2) ⟨r, h, a⟩).map fun q ↦ (plainEntry e :: q.1, q.2) := by
  obtain ⟨k, v⟩ := e
  rw [Option.map_eq_bind]
  by_cases hv : v = []
  · subst hv
    obtain ⟨r', rfl | rfl⟩ := hr
    · rfl
    · rfl
  · have htokens : Scan.entryTokens (k, v) = [.key, .scalar k true, .value, .scalar v true] := by
      simp [Scan.entryTokens, Scan.keyTokens, Scan.valueTokens, hv]
    rw [htokens]
    rfl

theorem endsEntry_entries (x : List (Text × Text)) :
    EndsEntry (x.flatMap Scan.entryTokens ++ .blockEnd :: r) := by
  cases x with
  | nil => exact ⟨r, .inr rfl⟩
  | cons e x => exact ⟨_, .inl rfl⟩

/-- A mapping of plain scalars is read up to its end. -/
theorem blockEntries_entries (x : List (Text × Text)) (hn : x.length + 3 ≤ n) :
    blockEntries n ⟨x.flatMap Scan.entryTokens ++ .blockEnd :: r, h, a⟩ =
      some (x.map plainEntry, ⟨r, h, a⟩) := by
  induction x generalizing n with
  | nil =>
    obtain ⟨m, rfl⟩ := Nat.exists_eq_add_of_le hn
    rw [Nat.add_comm]
    rfl
  | cons e x ih =>
    obtain ⟨m, rfl⟩ : ∃ m, n = m + 3 := ⟨n - 3, by omega⟩
    rw [List.length_cons] at hn
    rw [List.flatMap_cons, List.append_assoc, blockEntries_cons e (endsEntry_entries x),
      ih (by omega)]
    rfl

theorem node_mapping (flush : Bool) :
    node true flush (n + 1) ⟨.mappingStart :: r, h, a⟩ =
      (blockEntries n ⟨r, h, a⟩).map fun q ↦ (.map ⟨none, none⟩ q.1, q.2) := by
  rw [Option.map_eq_bind]
  rfl

/-- A document that begins with a block mapping is that mapping, if nothing stands behind it. -/
theorem document_mapping {root : Node} (hn : 8 * ((Token.mappingStart :: r).length + 4) = n + 1)
    (hnode : node true false (n + 1) ⟨.mappingStart :: r, builtInHandles, []⟩ =
      some (root, ⟨[], h, a⟩)) :
    document ⟨.mappingStart :: r, [], []⟩ = some (some root, ⟨[], h, a⟩) := by
  rw [document]
  change ((node true false (8 * ((Token.mappingStart :: r).length + 4))
    ⟨.mappingStart :: r, builtInHandles, []⟩).bind _) = _
  rw [hn, hnode]
  rfl

theorem length_le_flatMap_entryTokens (x : List (Text × Text)) :
    x.length ≤ (x.flatMap Scan.entryTokens).length := by
  induction x with
  | nil => rfl
  | cons e x ih =>
    have hpos : 0 < (Scan.entryTokens e).length := by simp [Scan.entryTokens, Scan.keyTokens]
    rw [List.flatMap_cons, List.length_append, List.length_cons]
    omega

/-- The document of a mapping of plain scalars. -/
theorem document_entries (x : List (Text × Text)) :
    document ⟨.mappingStart :: x.flatMap Scan.entryTokens ++ [.blockEnd], [], []⟩ =
      some (some (.map ⟨none, none⟩ (x.map plainEntry)), ⟨[], builtInHandles, []⟩) := by
  have hlen := length_le_flatMap_entryTokens x
  obtain ⟨n, hn⟩ : ∃ n, 8 * ((Token.mappingStart :: (x.flatMap Scan.entryTokens ++
      [Token.blockEnd])).length + 4) = n + 1 := ⟨_, rfl⟩
  have hfuel : x.length + 3 ≤ n := by
    simp only [List.length_append, List.length_cons, List.length_nil] at hn
    omega
  apply document_mapping hn
  rw [node_mapping, blockEntries_entries x hfuel]
  rfl

end Reader

/-! ## Values -/

/-- The values of an entry of plain scalars. -/
def entryValue? (e : Text × Text) : Option (Value × Value) :=
  (plainValue? e.1).bind fun k ↦ (plainValue? e.2).map fun v ↦ (k, v)

section Values

variable {A : List (Nat × Node)} {n d m : Nat}

theorem valueOf_plain (t : Text) :
    valueOf A (n + 1) d (.plain t) m = (plainValue? t).map fun v ↦ (v, m) := by
  unfold Node.plain valueOf
  simp only [keptTag?, scalarValue?]
  cases plainValue? t with
  | none => rfl
  | some v => rfl

theorem valueOf_plainEntry (e : Text × Text) :
    (do
        let k ← valueOf A (n + 1) d (plainEntry e).1
        let v ← valueOf A (n + 1) d (plainEntry e).2
        return (k, v) : Follow (Value × Value)) m = (entryValue? e).map fun v ↦ (v, m) := by
  simp only [bind, StateT.bind, plainEntry, valueOf_plain, entryValue?]
  cases plainValue? e.1 with
  | none => rfl
  | some k =>
    cases plainValue? e.2 with
    | none => rfl
    | some v => rfl

theorem mapM_valueOf (x : List (Text × Text)) :
    ((x.map plainEntry).mapM fun e ↦ (do
        let k ← valueOf A (n + 1) d e.1
        let v ← valueOf A (n + 1) d e.2
        return (k, v) : Follow (Value × Value))) m =
      (x.mapM entryValue?).map fun l ↦ (l, m) := by
  induction x with
  | nil => rfl
  | cons e x ih =>
    have hone := valueOf_plainEntry (A := A) (n := n) (d := d) (m := m) e
    rw [List.map_cons, List.mapM_cons, List.mapM_cons]
    simp only [bind, StateT.bind] at hone ih ⊢
    rw [hone]
    cases entryValue? e with
    | none => rfl
    | some v =>
      simp only [Option.map_some, Option.bind_some, ih]
      cases x.mapM entryValue? with
      | none => rfl
      | some l => rfl

/-- A mapping of plain scalars has a value if no key stands twice. -/
theorem valueOf_entries (x : List (Text × Text)) :
    valueOf A (n + 2) (d + 1) (.map ⟨none, none⟩ (x.map plainEntry)) m =
      (x.mapM entryValue?).bind fun l ↦ if distinct? l then some (.map l, m) else none := by
  have hentries := mapM_valueOf (A := A) (n := n) (d := d) (m := m) x
  rw [valueOf]
  simp only [bind, StateT.bind, pure, Nat.add_one_ne_zero, if_false,
    Nat.add_sub_cancel] at hentries ⊢
  rw [hentries]
  cases x.mapM entryValue? with
  | none => rfl
  | some l =>
    simp only [Option.map_some, Option.bind_some]
    split
    · rfl
    · rfl

end Values

/-! ## Lines -/

/-- The value of the plain scalar that a line holds behind a key. -/
def lineValue? (v : Text) : Option Value := (lineText? v).bind plainValue?

/-- The values of the line of an entry. -/
def lineEntry? (e : Text × Text) : Option (Value × Value) :=
  (plainValue? e.1).bind fun k ↦ (lineValue? e.2).map fun v ↦ (k, v)

theorem mapM_lineEntry? (l : List (Text × Text)) :
    (lineTexts? l).bind (List.mapM entryValue?) = l.mapM lineEntry? := by
  induction l with
  | nil => rfl
  | cons e l ih =>
    rw [lineTexts?_cons, List.mapM_cons, ← ih]
    unfold lineEntry? lineValue?
    cases lineText? e.2 with
    | none => cases plainValue? e.1 <;> rfl
    | some t =>
      cases lineTexts? l with
      | none =>
        cases plainValue? e.1 with
        | none => rfl
        | some k => cases plainValue? t <;> simp
      | some x =>
        simp only [Option.bind_some, Option.map_some, List.mapM_cons, entryValue?]

/-- A text that holds one entry a line has the values of its lines, if no key stands twice. -/
theorem read?_lines {L : List (Text × Text)} (hL : L ≠ []) (hk : ∀ e ∈ L, IsPlainKey e.1)
    (hv : ∀ e ∈ L, IsPlainValue e.2) :
    read? (Text.unlines (L.map entryLine)) =
      (L.mapM lineEntry?).bind fun l ↦ if distinct? l then some (.map l) else none := by
  unfold read?
  rw [tokens?_lines hL hk hv, ← mapM_lineEntry?]
  cases lineTexts? L with
  | none => rfl
  | some x =>
    simp only [Option.map_some, Option.bind_eq_bind, Option.bind_some, StateT.run]
    rw [Reader.document_entries x]
    simp only [Option.bind_some]
    rw [valueOf_entries (n := 398) (d := 127) x]
    cases x.mapM entryValue? with
    | none => rfl
    | some l =>
      simp only [Option.bind_some]
      split <;> rfl

/-- Values that are the same only when they are equal. -/
def Value.isExact : Value → Bool
  | .bool _ | .int _ | .str _ => true
  | _ => false

theorem Value.eq_of_same {a b : Value} (ha : a.isExact = true) (h : a.same b = true) : a = b := by
  cases a with
  | bool x => cases b <;> simp_all [Value.same]
  | int x => cases b <;> simp_all [Value.same]
  | str x => cases b <;> simp_all [Value.same]
  | _ => exact absurd ha (by simp [Value.isExact])

/-- Keys with distinct texts are distinct. -/
theorem distinct?_of_nodup {l : List (Value × Value)} (hexact : ∀ e ∈ l, e.1.isExact = true)
    (h : (l.map fun e ↦ e.1.text).Nodup) : distinct? l = true := by
  induction l with
  | nil => rfl
  | cons e l ih =>
    rw [List.map_cons, List.nodup_cons] at h
    obtain ⟨he, hl⟩ := List.forall_mem_cons.1 hexact
    rw [distinct?, ih hl h.2, Bool.and_true, Bool.not_eq_true', List.any_eq_false]
    intro d hd hsame
    apply h.1
    rw [Value.eq_of_same he hsame]
    exact List.mem_map.2 ⟨d, hd, rfl⟩

/-- A plain key that its value keeps. -/
structure IsKeptKey (k : Text) : Prop extends IsPlainKey k where
  stays : ((plainValue? k).any fun v ↦ v.isExact && v.text = k) = true

instance (k : Text) : Decidable (IsKeptKey k) :=
  decidable_of_iff
    (IsPlainKey k ∧ ((plainValue? k).any fun v ↦ v.isExact && v.text = k) = true)
    ⟨fun ⟨hplain, hstays⟩ ↦ ⟨hplain, hstays⟩, fun h ↦ ⟨h.toIsPlainKey, h.stays⟩⟩

/-- The text that a value is read back as from its line. -/
def reread? (v : Text) : Option Text := (lineValue? v).map Value.text

theorem IsKeptKey.lineEntry?_eq {e : Text × Text} (h : IsKeptKey e.1) :
    ∃ k : Value, k.isExact = true ∧ k.text = e.1 ∧
      lineEntry? e = (lineValue? e.2).map fun v ↦ (k, v) := by
  obtain ⟨k, hplain, hkey⟩ := (Option.any_eq_true _ _).1 h.stays
  rw [Bool.and_eq_true, decide_eq_true_iff] at hkey
  refine ⟨k, hkey.1, hkey.2, ?_⟩
  unfold lineEntry?
  rw [hplain, Option.bind_some]

/-- The values of the lines are none, or such that keep the keys and are read back with them. -/
theorem mapM_lineEntry?_cases {L : List (Text × Text)} (hk : ∀ e ∈ L, IsKeptKey e.1) :
    (L.mapM lineEntry? = none ∧ (L.mapM fun e ↦ (reread? e.2).map fun t ↦ (e.1, t)) = none) ∨
      ∃ l, L.mapM lineEntry? = some l ∧ (∀ e ∈ l, e.1.isExact = true) ∧
        (l.map fun e ↦ e.1.text) = L.map (·.1) ∧
        (L.mapM fun e ↦ (reread? e.2).map fun t ↦ (e.1, t)) =
          some (l.map fun e ↦ (e.1.text, e.2.text)) := by
  induction L with
  | nil => exact .inr ⟨[], rfl, by simp, rfl, rfl⟩
  | cons e L ih =>
    obtain ⟨he, hL⟩ := List.forall_mem_cons.1 hk
    obtain ⟨k, hexact, htext, hentry⟩ := he.lineEntry?_eq
    rw [List.mapM_cons, List.mapM_cons, hentry, reread?]
    cases lineValue? e.2 with
    | none => exact .inl ⟨rfl, rfl⟩
    | some v =>
      rcases ih hL with ⟨hnone, hnone'⟩ | ⟨l, hl, hexacts, htexts, hread⟩
      · rw [hnone, hnone']
        exact .inl ⟨rfl, rfl⟩
      · rw [hl, hread]
        refine .inr ⟨(k, v) :: l, rfl, List.forall_mem_cons.2 ⟨hexact, hexacts⟩, ?_, ?_⟩
        · rw [List.map_cons, List.map_cons, htexts, htext]
        · rw [List.map_cons, htext]
          rfl

/-- The texts of a mapping written one entry a line: the keys, and what their values are read back
as. One value that its line cannot hold makes the text unreadable. -/
theorem readEntries?_lines {L : List (Text × Text)} (hL : L ≠ []) (hk : ∀ e ∈ L, IsKeptKey e.1)
    (hd : (L.map (·.1)).Nodup) (hv : ∀ e ∈ L, IsPlainValue e.2) :
    (readEntries? (Text.unlines (L.map entryLine))).map (List.map fun e ↦ (e.1.text, e.2.text)) =
      L.mapM fun e ↦ (reread? e.2).map fun t ↦ (e.1, t) := by
  unfold readEntries?
  rw [read?_lines hL (fun e he ↦ (hk e he).toIsPlainKey) hv]
  rcases mapM_lineEntry?_cases hk with ⟨hnone, hnone'⟩ | ⟨l, hl, hexacts, htexts, hread⟩
  · rw [hnone, hnone']
    rfl
  · have hdistinct : distinct? l = true := distinct?_of_nodup hexacts (by rw [htexts]; exact hd)
    rw [hl, hread, Option.bind_some, if_pos hdistinct]
    rfl

end Markbook.Yaml
