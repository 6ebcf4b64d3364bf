import Markbook.Proofs.Disk.Tree
import Markbook.Proofs.Scan
import Mathlib.Data.List.Infix

/-!
# What a Scan Finds of a Tree

On a disk without links a scan of a folder finds each file in reach exactly once: the markdown
files in folders that are neither hidden nor ignored nor too deep, as far as they have markers of
their own or lie under the marker of a folder (`Scan.IsFound`).  The files of a folder come by
name, then those of the folders in it, by name again (`Scan.Precedes`).  As no file precedes
itself, the order and the condition determine the list of findings (`Scan.run?_found`).
-/

namespace Markbook

/-- A path with names behind it. -/
def Path.under (dir : Path) (names : Place) : Path := names.foldl (fun p s ↦ p.join ⟨s⟩) dir

namespace Scan

/-- The order of the files below a folder, each given by the names of the folders on its way and its
own: the files of a folder by name, then the folders in it by name. -/
inductive Precedes : Place → Place → Prop
  | files {a b : Text} (h : a < b) : Precedes [a] [b]
  | file {a b c : Text} {r : Place} : Precedes [a] (b :: c :: r)
  | folders {a b c e : Text} {r t : Place} (h : a < b) : Precedes (a :: c :: r) (b :: e :: t)
  | inside {a : Text} {r t : Place} (h : Precedes r t) : Precedes (a :: r) (a :: t)

/-- The markers that the marker of a folder declares. -/
def markersIn (d : Disk) (q : Place) : Option Markers :=
  (d.textAt? (q ++ [markerName])).bind fun s ↦ (markedPreamble? s).map (·.1)

/-- The markers of the nearest folder that declares some, on the way from the first folder down. -/
def markersOn (d : Disk) (first way : Place) : Option Markers :=
  (way.inits.filterMap fun w ↦ markersIn d (first ++ w)).getLast?

/-- A file in reach of a scan of the folder `first` with the path `dir`, and the document it is.
The scan comes to the folder at the depth `depth` and with inherited markers. -/
structure IsFound (d : Disk) (rules : Rules) (inherited : Option Markers) (depth : Nat)
    (first : Place) (dir : Path) (way : Place) (name content : Text) (doc : Document) : Prop where
  text : d.textAt? (first ++ (way ++ [name])) = some content
  markdown : (".md" : Text) <:+ name
  not_marker : name ≠ markerName
  entered : ∀ f ∈ way, f.head? ≠ some '.' ∧ f ∉ rules.ignored
  shallow : ∀ n, rules.maxDepth = some n → depth + way.length ≤ n
  path_eq : doc.path = dir.under (way ++ [name])
  /-- Its own markers, else the nearest ones. -/
  markers_eq : ((markedPreamble? content).map (·.1)).or ((markersOn d first way).or inherited) =
    some doc.markers
  body_eq : content = Preamble.leadOf content ++ doc.body
  offset_eq : doc.offset = (Preamble.leadOf content).octets

/-- A file in reach of a scan, by the names below the first folder. -/
def IsFoundAt (d : Disk) (rules : Rules) (inherited : Option Markers) (depth : Nat) (first : Place)
    (dir : Path) (rel : Place) (doc : Document) : Prop :=
  ∃ way name content, rel = way ++ [name] ∧
    IsFound d rules inherited depth first dir way name content doc

variable {d : Disk} {rules : Rules} {dir : Path} {q : Place} {inherited : Option Markers}
  {depth : Nat} {s : Text}

theorem Precedes.irrefl (a : Place) : ¬ Precedes a a := by
  induction a with
  | nil => rintro ⟨⟩
  | cons s r ih =>
    rintro (h | _ | h | h)
    · exact List.lt_irrefl _ h
    · exact List.lt_irrefl _ h
    · exact ih h

theorem documents_append (a b : List Finding) : documents (a ++ b) = documents a ++ documents b :=
  List.filterMap_append

theorem documents_flatMap {α : Type} (l : List α) (f : α → List Finding) :
    documents (l.flatMap f) = l.flatMap fun a ↦ documents (f a) :=
  List.filterMap_flatMap

/-! ## Markers -/

theorem isName_markerName : Disk.IsName markerName := ⟨by decide, by decide, by decide, by decide⟩

theorem folderMarkers_eq (h : d.IsTree) (hdir : d.place? dir = .ok q)
    (hq : d.item? q = some .folder) : (folderMarkers d dir).1 = markersIn d q := by
  have hfind := h.find_join hdir hq isName_markerName
  unfold folderMarkers Disk.isFile markersIn
  simp only [hfind]
  cases hitem : d.item? (q ++ [markerName]) with
  | none => simp [Disk.textAt?, hitem]
  | some i =>
    cases i with
    | file c t =>
      have hread := h.read_join hdir hq isName_markerName hitem
      simp only [if_true, hread]
      cases d.textAt? (q ++ [markerName]) <;> rfl
    | folder => simp [Disk.textAt?, hitem]
    | link target => simp [Disk.textAt?, hitem]

theorem documents_folderMarkers (d : Disk) (dir : Path) : documents (folderMarkers d dir).2 = [] :=
  List.filterMap_eq_nil_iff.2 fun _ hf ↦ document?_of_mem_folderMarkers hf

theorem markersOn_nil (d : Disk) (q : Place) : markersOn d q [] = markersIn d q := by
  unfold markersOn
  rw [show ([] : Place).inits = [[]] from rfl, List.filterMap_cons, List.append_nil]
  cases markersIn d q <;> rfl

theorem markersOn_cons (d : Disk) (q way : Place) (s : Text) :
    markersOn d q (s :: way) = (markersOn d (q ++ [s]) way).or (markersIn d q) := by
  unfold markersOn
  have hbelow : (way.inits.map fun w ↦ s :: w).filterMap (fun w ↦ markersIn d (q ++ w)) =
      way.inits.filterMap fun w ↦ markersIn d (q ++ [s] ++ w) := by
    rw [List.filterMap_map]
    congr 1
    funext w
    simp
  rw [List.inits_cons, List.filterMap_cons, hbelow, List.append_nil]
  cases markersIn d q with
  | none => rw [Option.or_none]
  | some m => rw [List.getLast?_cons, Option.or_some]

/-! ## One folder -/

/-- The document that a file is under these markers, if any. -/
def documentOf? (path : Path) (content : Text) (inherited : Option Markers) : Option Document :=
  (((markedPreamble? content).map (·.1)).or inherited).map fun m ↦
    ⟨path, m, Preamble.bodyOf content, (Preamble.leadOf content).octets⟩

theorem documentOf?_eq_some_iff {path : Path} {content : Text} {doc : Document} :
    documentOf? path content inherited = some doc ↔
      doc.path = path ∧ ((markedPreamble? content).map (·.1)).or inherited = some doc.markers ∧
        content = Preamble.leadOf content ++ doc.body ∧
        doc.offset = (Preamble.leadOf content).octets := by
  have hcontent := Preamble.leadOf_append_bodyOf content
  unfold documentOf?
  rw [Option.map_eq_some_iff]
  constructor
  · rintro ⟨m, hm, rfl⟩
    exact ⟨rfl, hm, hcontent.symm, rfl⟩
  · rintro ⟨rfl, hm, hbody, hoffset⟩
    refine ⟨doc.markers, hm, ?_⟩
    rw [← hoffset, List.append_cancel_left (hcontent.trans hbody)]

/-- The document of a file in a folder, as far as the scan looks into the file. -/
def fileDocument? (d : Disk) (dir : Path) (q : Place) (inherited : Option Markers) (s : Text) :
    Option Document :=
  if isMarkdown s then
    (d.textAt? (q ++ [s])).bind fun content ↦ documentOf? (dir.join ⟨s⟩) content inherited
  else none

/-- What an item of a folder is without links. -/
def plainEntry (e : Text × Item) : Entry :=
  match e.2 with
  | .folder => .folder e.1
  | _ => .file e.1

theorem entries_eq (h : d.IsTree) (hdir : d.place? dir = .ok q) (rules : Rules) :
    entries d rules dir = (d.list q).map plainEntry := by
  unfold entries
  rw [hdir]
  refine List.map_congr_left fun e he ↦ ?_
  obtain ⟨s, i⟩ := e
  cases i with
  | folder => rfl
  | file c t => rfl
  | link target => exact absurd (h.mem_list_iff.1 he) (h.item?_ne_link _ target)

theorem documents_fileFindings (h : d.IsTree) (hdir : d.place? dir = .ok q)
    (hq : d.item? q = some .folder) {c : Contents} {t : Int}
    (hitem : d.item? (q ++ [s]) = some (.file c t)) :
    documents (fileFindings d dir inherited s) =
      ((d.textAt? (q ++ [s])).bind fun content ↦
        documentOf? (dir.join ⟨s⟩) content inherited).toList := by
  have hread := h.read_join hdir hq (h.isName hitem) hitem
  unfold fileFindings
  simp only [hread]
  cases d.textAt? (q ++ [s]) with
  | none => rfl
  | some content =>
    unfold documentOf? Document.read? inheritedDocument Preamble.bodyOf Preamble.leadOf
      markedPreamble?
    simp only [Option.bind_some, bind, pure]
    cases Preamble.split? content with
    | none => cases inherited <;> rfl
    | some p =>
      simp only [Option.bind_some]
      cases Markers.read? p.text <;> cases inherited <;> rfl

theorem documents_entryFindings (h : d.IsTree) (hdir : d.place? dir = .ok q)
    (hq : d.item? q = some .folder) {e : Text × Item} (he : e ∈ d.list q) :
    documents (entryFindings d dir inherited (plainEntry e)) =
      (fileDocument? d dir q inherited e.1).toList := by
  obtain ⟨s, i⟩ := e
  have hitem := h.mem_list_iff.1 he
  cases i with
  | folder =>
    have htext : d.textAt? (q ++ [s]) = none := by simp [Disk.textAt?, hitem]
    simp [plainEntry, entryFindings, fileDocument?, htext, documents]
  | file c t =>
    unfold plainEntry entryFindings fileDocument?
    simp only
    split
    · exact documents_fileFindings h hdir hq hitem
    · rfl
  | link target => exact absurd hitem (h.item?_ne_link _ target)

/-- The folders in a folder that the scan goes down to. -/
def foldersBelow (d : Disk) (rules : Rules) (depth : Nat) (q : Place) : List Text :=
  if rules.maxDepth.any (· ≤ depth) then []
  else subfolders rules ((d.list q).map plainEntry)

/-- The name of an item, if it is a folder that the scan goes down to. -/
def entered? (rules : Rules) : Text × Item → Option Text
  | (s, .folder) => if enters rules s then some s else none
  | _ => none

theorem entered?_eq_some_iff {e : Text × Item} :
    entered? rules e = some s ↔ e = (s, .folder) ∧ s.head? ≠ some '.' ∧ s ∉ rules.ignored := by
  obtain ⟨s', i⟩ := e
  cases i with
  | folder =>
    have henters : enters rules s' = true ↔ s'.head? ≠ some '.' ∧ s' ∉ rules.ignored := by
      simp [enters]
    rw [entered?, Option.ite_none_right_eq_some, henters, Option.some.injEq]
    constructor
    · rintro ⟨henters, rfl⟩
      exact ⟨rfl, henters⟩
    · rintro ⟨heq, henters⟩
      obtain rfl : s' = s := congrArg Prod.fst heq
      exact ⟨henters, rfl⟩
  | file c t => simp [entered?]
  | link target => simp [entered?]

theorem subfolders_plainEntry (rules : Rules) (l : List (Text × Item)) :
    subfolders rules (l.map plainEntry) = l.filterMap (entered? rules) := by
  unfold subfolders
  rw [List.filterMap_map]
  congr 1
  funext ⟨s, i⟩
  cases i <;> rfl

theorem mem_foldersBelow (h : d.IsTree) :
    s ∈ foldersBelow d rules depth q ↔
      d.item? (q ++ [s]) = some .folder ∧ (s.head? ≠ some '.' ∧ s ∉ rules.ignored) ∧
        ∀ n, rules.maxDepth = some n → depth < n := by
  have hsub : s ∈ subfolders rules ((d.list q).map plainEntry) ↔
      d.item? (q ++ [s]) = some .folder ∧ s.head? ≠ some '.' ∧ s ∉ rules.ignored := by
    rw [subfolders_plainEntry, List.mem_filterMap, ← h.mem_list_iff]
    constructor
    · rintro ⟨e, hmem, hs⟩
      obtain ⟨rfl, henters⟩ := entered?_eq_some_iff.1 hs
      exact ⟨hmem, henters⟩
    · rintro ⟨hmem, henters⟩
      exact ⟨_, hmem, entered?_eq_some_iff.2 ⟨rfl, henters⟩⟩
  have hdeep :
      rules.maxDepth.any (· ≤ depth) = true ↔ ∃ n, rules.maxDepth = some n ∧ n ≤ depth := by
    simp [Option.any_eq_true]
  unfold foldersBelow
  split
  · next hany =>
    obtain ⟨n, hn, hle⟩ := hdeep.1 hany
    constructor
    · intro hs
      exact absurd hs List.not_mem_nil
    · rintro ⟨-, -, hlt⟩
      exact absurd (hlt n hn) (Nat.not_lt.2 hle)
  · next hany =>
    have hlt : ∀ n, rules.maxDepth = some n → depth < n := fun n hn ↦
      Nat.lt_of_not_le fun hle ↦ hany (hdeep.2 ⟨n, hn, hle⟩)
    rw [hsub]
    exact ⟨fun ⟨hitem, henters⟩ ↦ ⟨hitem, henters, hlt⟩, fun ⟨hitem, henters, _⟩ ↦ ⟨hitem, henters⟩⟩

theorem foldersBelow_ascending (h : d.IsTree) (rules : Rules) (depth : Nat) (q : Place) :
    (foldersBelow d rules depth q).Pairwise (· < ·) := by
  unfold foldersBelow
  split
  · exact .nil
  · rw [subfolders_plainEntry, List.pairwise_filterMap]
    refine (h.list_ascending q).imp fun {e e'} hlt a ha b hb ↦ ?_
    obtain ⟨rfl, -⟩ := entered?_eq_some_iff.1 ha
    obtain ⟨rfl, -⟩ := entered?_eq_some_iff.1 hb
    exact hlt

theorem documents_walk (h : d.IsTree) (hdir : d.place? dir = .ok q)
    (hq : d.item? q = some .folder) (rules : Rules) (fuel : Nat) (inherited : Option Markers)
    (depth : Nat) :
    documents (walk d rules (fuel + 1) dir inherited depth) =
      ((d.list q).filterMap fun e ↦ fileDocument? d dir q ((markersIn d q).or inherited) e.1) ++
        (foldersBelow d rules depth q).flatMap fun s ↦
          documents
            (walk d rules fuel (dir.join ⟨s⟩) ((markersIn d q).or inherited) (depth + 1)) := by
  have hfiles : documents (((d.list q).map plainEntry).flatMap
      (entryFindings d dir ((markersIn d q).or inherited))) =
      (d.list q).filterMap fun e ↦ fileDocument? d dir q ((markersIn d q).or inherited) e.1 := by
    rw [documents_flatMap, List.flatMap_map, List.filterMap_eq_flatMap_toList]
    exact List.flatMap_congr fun e he ↦ documents_entryFindings h hdir hq he
  rw [walk]
  simp only [folderMarkers_eq h hdir hq, entries_eq h hdir rules]
  rw [documents_append, documents_append, documents_folderMarkers, List.nil_append, hfiles]
  unfold foldersBelow
  split
  · rfl
  · rw [documents_flatMap]

/-! ## All folders below -/

theorem isMarkdown_iff : isMarkdown s = true ↔ (".md" : Text) <:+ s ∧ s ≠ markerName := by
  have hsuffix : (Text.before? ".md" s).isSome = true ↔ (".md" : Text) <:+ s := by
    simp only [Option.isSome_iff_exists, Text.before?_eq_some_iff]
    exact ⟨fun ⟨a, ha⟩ ↦ ⟨a, ha.symm⟩, fun ⟨a, ha⟩ ↦ ⟨a, ha.symm⟩⟩
  unfold isMarkdown
  rw [Bool.and_eq_true, hsuffix, decide_eq_true_iff]

theorem isFound_nil_iff (hdepth : ∀ n, rules.maxDepth = some n → depth ≤ n) {content : Text}
    {doc : Document} :
    IsFound d rules inherited depth q dir [] s content doc ↔
      d.textAt? (q ++ [s]) = some content ∧ isMarkdown s = true ∧
        documentOf? (dir.join ⟨s⟩) content ((markersIn d q).or inherited) = some doc := by
  rw [documentOf?_eq_some_iff, isMarkdown_iff]
  constructor
  · intro hf
    have hmarkers := hf.markers_eq
    rw [markersOn_nil] at hmarkers
    exact ⟨hf.text, ⟨hf.markdown, hf.not_marker⟩, hf.path_eq, hmarkers, hf.body_eq, hf.offset_eq⟩
  · rintro ⟨htext, ⟨hmarkdown, hname⟩, hpath, hmarkers, hbody, hoffset⟩
    rw [← markersOn_nil] at hmarkers
    exact ⟨htext, hmarkdown, hname, by simp, hdepth, hpath, hmarkers, hbody, hoffset⟩

theorem isFound_cons_iff (h : d.IsTree) {way : Place} {name content : Text} {doc : Document} :
    IsFound d rules inherited depth q dir (s :: way) name content doc ↔
      s ∈ foldersBelow d rules depth q ∧
        IsFound d rules ((markersIn d q).or inherited) (depth + 1) (q ++ [s]) (dir.join ⟨s⟩) way
          name content doc := by
  have hplace : q ++ (s :: way ++ [name]) = q ++ [s] ++ (way ++ [name]) := by simp
  have hlength : depth + (s :: way).length = depth + 1 + way.length := by
    rw [List.length_cons]
    omega
  have hmarkers : (markersOn d q (s :: way)).or inherited =
      (markersOn d (q ++ [s]) way).or ((markersIn d q).or inherited) := by
    rw [markersOn_cons, Option.or_assoc]
  rw [mem_foldersBelow h]
  constructor
  · intro hf
    have htext := hf.text
    have hown := hf.markers_eq
    have hshallow := hf.shallow
    rw [hplace] at htext
    rw [hmarkers] at hown
    rw [hlength] at hshallow
    obtain ⟨hs, hentered⟩ := List.forall_mem_cons.1 hf.entered
    obtain ⟨t, hitem⟩ := Disk.textAt?_eq_some_iff.1 htext
    refine ⟨⟨h.item?_of_append (by simp) hitem, hs, fun n hn ↦ ?_⟩, htext, hf.markdown,
      hf.not_marker, hentered, hshallow, hf.path_eq, hown, hf.body_eq, hf.offset_eq⟩
    have := hshallow n hn
    omega
  · rintro ⟨⟨-, hs, -⟩, hf⟩
    refine ⟨?_, hf.markdown, hf.not_marker, List.forall_mem_cons.2 ⟨hs, hf.entered⟩, ?_, hf.path_eq,
      ?_, hf.body_eq, hf.offset_eq⟩
    · rw [hplace]
      exact hf.text
    · rw [hlength]
      exact hf.shallow
    · rw [hmarkers]
      exact hf.markers_eq

/-- A file in reach is one of the folder itself, or in reach from a folder in it. -/
theorem isFoundAt_iff (h : d.IsTree) (hdepth : ∀ n, rules.maxDepth = some n → depth ≤ n)
    {rel : Place} {doc : Document} :
    IsFoundAt d rules inherited depth q dir rel doc ↔
      (∃ s, rel = [s] ∧ fileDocument? d dir q ((markersIn d q).or inherited) s = some doc) ∨
      ∃ s r, rel = s :: r ∧ s ∈ foldersBelow d rules depth q ∧
        IsFoundAt d rules ((markersIn d q).or inherited) (depth + 1) (q ++ [s]) (dir.join ⟨s⟩) r
          doc := by
  have hfile (s : Text) : fileDocument? d dir q ((markersIn d q).or inherited) s = some doc ↔
      ∃ content, IsFound d rules inherited depth q dir [] s content doc := by
    unfold fileDocument?
    simp only [isFound_nil_iff hdepth, Option.ite_none_right_eq_some, Option.bind_eq_some_iff]
    exact ⟨fun ⟨hs, c, hc, hd⟩ ↦ ⟨c, hc, hs, hd⟩, fun ⟨c, hc, hs, hd⟩ ↦ ⟨hs, c, hc, hd⟩⟩
  constructor
  · rintro ⟨way, name, content, rfl, hf⟩
    cases way with
    | nil => exact .inl ⟨name, rfl, (hfile name).2 ⟨content, hf⟩⟩
    | cons s way =>
      obtain ⟨hs, hf⟩ := (isFound_cons_iff h).1 hf
      exact .inr ⟨s, way ++ [name], rfl, hs, way, name, content, rfl, hf⟩
  · rintro (⟨s, rfl, hs⟩ | ⟨s, -, rfl, hs, way, name, content, rfl, hf⟩)
    · obtain ⟨content, hf⟩ := (hfile s).1 hs
      exact ⟨[], s, content, rfl, hf⟩
    · exact ⟨s :: way, name, content, rfl, (isFound_cons_iff h).2 ⟨hs, hf⟩⟩

theorem IsFoundAt.ne_nil {rel : Place} {doc : Document}
    (h : IsFoundAt d rules inherited depth q dir rel doc) : rel ≠ [] := by
  obtain ⟨way, name, -, rfl, -⟩ := h
  simp

/-- What a scan finds in a folder itself, each file with its name. -/
def foundHere (d : Disk) (dir : Path) (q : Place) (inherited : Option Markers) :
    List (Place × Document) :=
  (d.list q).filterMap fun e ↦ (fileDocument? d dir q inherited e.1).map fun doc ↦ ([e.1], doc)

/-- What is found in some folders, with the names of the folders in front. -/
def foundBelow (found : Text → List (Place × Document)) (folders : List Text) :
    List (Place × Document) :=
  folders.flatMap fun s ↦ (found s).map fun f ↦ (s :: f.1, f.2)

theorem mem_foundHere (h : d.IsTree) {rel : Place} {doc : Document} :
    (rel, doc) ∈ foundHere d dir q inherited ↔
      ∃ s, rel = [s] ∧ fileDocument? d dir q inherited s = some doc := by
  simp only [foundHere, List.mem_filterMap, Option.map_eq_some_iff, Prod.mk.injEq]
  constructor
  · rintro ⟨e, -, _, hs, rfl, rfl⟩
    exact ⟨e.1, rfl, hs⟩
  · rintro ⟨s, rfl, hs⟩
    obtain ⟨content, hcontent⟩ : ∃ content, d.textAt? (q ++ [s]) = some content := by
      unfold fileDocument? at hs
      rw [Option.ite_none_right_eq_some, Option.bind_eq_some_iff] at hs
      obtain ⟨-, content, hcontent, -⟩ := hs
      exact ⟨content, hcontent⟩
    obtain ⟨t, hitem⟩ := Disk.textAt?_eq_some_iff.1 hcontent
    exact ⟨(s, _), h.mem_list_iff.2 hitem, doc, hs, rfl, rfl⟩

theorem foundHere_ordered (h : d.IsTree) (dir : Path) (q : Place) (inherited : Option Markers) :
    ((foundHere d dir q inherited).map (·.1)).Pairwise Precedes := by
  unfold foundHere
  rw [List.pairwise_map, List.pairwise_filterMap]
  refine (h.list_ascending q).imp fun {e e'} hlt f hf f' hf' ↦ ?_
  obtain ⟨_, -, rfl⟩ := Option.map_eq_some_iff.1 hf
  obtain ⟨_, -, rfl⟩ := Option.map_eq_some_iff.1 hf'
  exact .files hlt

theorem mem_foundBelow {found : Text → List (Place × Document)} {folders : List Text} {rel : Place}
    {doc : Document} :
    (rel, doc) ∈ foundBelow found folders ↔ ∃ s r, rel = s :: r ∧ s ∈ folders ∧
      (r, doc) ∈ found s := by
  simp only [foundBelow, List.mem_flatMap, List.mem_map, Prod.mk.injEq]
  constructor
  · rintro ⟨s, hs, ⟨r, _⟩, hf, rfl, rfl⟩
    exact ⟨s, r, rfl, hs, hf⟩
  · rintro ⟨s, r, rfl, hs, hf⟩
    exact ⟨s, hs, (r, doc), hf, rfl, rfl⟩

theorem foundBelow_ordered {found : Text → List (Place × Document)} {folders : List Text}
    (hfolders : folders.Pairwise (· < ·))
    (hfound : ∀ s ∈ folders, ((found s).map (·.1)).Pairwise Precedes)
    (hne : ∀ s ∈ folders, ∀ f ∈ found s, f.1 ≠ []) :
    ((foundBelow found folders).map (·.1)).Pairwise Precedes := by
  unfold foundBelow
  rw [List.pairwise_map, List.pairwise_flatMap]
  constructor
  · intro s hs
    rw [List.pairwise_map]
    exact (List.pairwise_map.1 (hfound s hs)).imp .inside
  · refine hfolders.imp_of_mem fun {s s'} hs hs' hlt ↦ ?_
    simp only [List.mem_map]
    rintro _ ⟨f, hf, rfl⟩ _ ⟨f', hf', rfl⟩
    obtain ⟨a, r, hr⟩ := List.exists_cons_of_ne_nil (hne s hs f hf)
    obtain ⟨b, r', hr'⟩ := List.exists_cons_of_ne_nil (hne s' hs' f' hf')
    simp only [hr, hr']
    exact .folders hlt

/-- A scan of a folder finds each file in reach of it, in their order. -/
theorem exists_found (h : d.IsTree) {fuel : Nat} (hdir : d.place? dir = .ok q)
    (hq : d.item? q = some .folder) (hfuel : d.depth < q.length + fuel)
    (hdepth : ∀ n, rules.maxDepth = some n → depth ≤ n) :
    ∃ found : List (Place × Document),
      documents (walk d rules fuel dir inherited depth) = found.map (·.2) ∧
      (found.map (·.1)).Pairwise Precedes ∧
      ∀ rel doc, (rel, doc) ∈ found ↔ IsFoundAt d rules inherited depth q dir rel doc := by
  induction fuel generalizing dir q inherited depth with
  | zero =>
    -- A folder lies no deeper than the disk, so the walk is not at its end there.
    have := h.length_le_depth hq
    omega
  | succ fuel ih =>
    have hbelow (s : Text) : ∃ found : List (Place × Document), s ∈ foldersBelow d rules depth q →
        documents (walk d rules fuel (dir.join ⟨s⟩) ((markersIn d q).or inherited) (depth + 1)) =
          found.map (·.2) ∧
        (found.map (·.1)).Pairwise Precedes ∧
        ∀ rel doc, (rel, doc) ∈ found ↔ IsFoundAt d rules ((markersIn d q).or inherited) (depth + 1)
          (q ++ [s]) (dir.join ⟨s⟩) rel doc := by
      by_cases hs : s ∈ foldersBelow d rules depth q
      · obtain ⟨hitem, -, hdeeper⟩ := (mem_foldersBelow h).1 hs
        have hplace := h.place?_join hdir hq (h.isName hitem)
        have hlength : (q ++ [s]).length = q.length + 1 := List.length_append
        obtain ⟨found, hfound⟩ := ih hplace hitem (by omega) hdeeper
        exact ⟨found, fun _ ↦ hfound⟩
      · exact ⟨[], fun h ↦ absurd h hs⟩
    choose found hfound using hbelow
    refine ⟨foundHere d dir q ((markersIn d q).or inherited) ++
      foundBelow found (foldersBelow d rules depth q), ?_, ?_, fun rel doc ↦ ?_⟩
    · have hhere : (foundHere d dir q ((markersIn d q).or inherited)).map (·.2) =
          (d.list q).filterMap fun e ↦
            fileDocument? d dir q ((markersIn d q).or inherited) e.1 := by
        simp [foundHere, List.map_filterMap, Function.comp_def]
      rw [documents_walk h hdir hq, List.map_append, hhere]
      congr 1
      unfold foundBelow
      rw [List.map_flatMap]
      refine List.flatMap_congr fun s hs ↦ ?_
      rw [(hfound s hs).1, List.map_map]
      rfl
    · rw [List.map_append, List.pairwise_append]
      have hne (s : Text) (hs : s ∈ foldersBelow d rules depth q) (f) (hf : f ∈ found s) :
          f.1 ≠ [] :=
        (((hfound s hs).2.2 f.1 f.2).1 hf).ne_nil
      refine ⟨foundHere_ordered h dir q _,
        foundBelow_ordered (foldersBelow_ascending h rules depth q)
          (fun s hs ↦ (hfound s hs).2.1) hne, ?_⟩
      simp only [List.mem_map]
      rintro _ ⟨⟨rel, doc⟩, hmem, rfl⟩ _ ⟨⟨rel', doc'⟩, hmem', rfl⟩
      obtain ⟨s, rfl, -⟩ := (mem_foundHere h).1 hmem
      obtain ⟨s', r, rfl, hs', hf⟩ := mem_foundBelow.1 hmem'
      obtain ⟨a, r', rfl⟩ := List.exists_cons_of_ne_nil (hne s' hs' _ hf)
      exact .file
    · rw [isFoundAt_iff h hdepth, List.mem_append, mem_foundHere h, mem_foundBelow]
      refine or_congr_right (exists₂_congr fun s r ↦ and_congr_right fun _ ↦ ?_)
      exact and_congr_right fun hs ↦ (hfound s hs).2.2 r doc

theorem exists_place_of_isFolder (hdir : d.isFolder dir = true) :
    ∃ q, d.place? dir = .ok q ∧ d.item? q = some .folder := by
  unfold Disk.isFolder Disk.find at hdir
  cases hplace : d.place? dir with
  | error e => simp [hplace, bind, Except.bind] at hdir
  | ok q =>
    refine ⟨q, rfl, ?_⟩
    simp only [hplace, bind, Except.bind] at hdir
    cases hitem : d.item? q with
    | none => simp [hitem] at hdir
    | some i =>
      cases i with
      | folder => rfl
      | file c t => cases hdemands : Disk.demandsFolder dir <;> simp [hitem, hdemands] at hdir
      | link target => simp [hitem] at hdir

/-- A scan of a folder of a tree finds each file in reach exactly once: the files of a folder by
name, and then those of the folders in it, by name. -/
theorem run?_found (h : d.IsTree) (hdir : d.isFolder dir = true) (rules : Rules) :
    ∃ first l, ∃ found : List (Place × Document),
      d.place? dir = .ok first ∧ run? d rules dir = some l ∧
      documents l = found.map (·.2) ∧
      (found.map (·.1)).Pairwise Precedes ∧ (found.map (·.1)).Nodup ∧
      ∀ rel doc, (rel, doc) ∈ found ↔ IsFoundAt d rules none 0 first dir rel doc := by
  obtain ⟨q, hplace, hq⟩ := exists_place_of_isFolder hdir
  have hbound : d.depth < q.length + bound d := by
    unfold bound Disk.linkLimit
    omega
  have hdepth : ∀ n, rules.maxDepth = some n → 0 ≤ n := fun n _ ↦ Nat.zero_le n
  obtain ⟨found, hdocuments, hordered, hmem⟩ := exists_found h hplace hq hbound hdepth
  refine ⟨q, _, found, hplace, if_pos hdir, hdocuments, hordered, ?_, hmem⟩
  refine hordered.imp fun {a b} hab heq ↦ ?_
  rw [heq] at hab
  exact Precedes.irrefl b hab

/-- A folder with a marker around one whose marker says nothing. -/
def nested : Disk :=
  ⟨[([".docket-folder.md"], .file (.text "---\ndocket-type: task\n---\n") 0), (["b"], .folder),
    (["b", ".docket-folder.md"], .file (.text "Nothing\n") 0),
    (["b", "c.md"], .file (.text "# C\n") 0)]⟩

/-- The file in the inner folder is found, with the markers of the outer one. -/
theorem run?_found_nested :
    nested.IsTree ∧ nested.isFolder "." = true ∧
      ∃ l, run? nested .plain "." = some l ∧
        ⟨"./b/c.md", ⟨some "task", none, none, none, none⟩, "# C\n", 0⟩ ∈ documents l := by
  have htree : nested.IsTree := by
    refine ⟨by decide, ?_, ?_⟩
    · have hname (s : Text) (h : s ≠ [] ∧ '/' ∉ s ∧ s ≠ ['.'] ∧ s ≠ ['.', '.']) : Disk.IsName s :=
        ⟨h.1, h.2.1, h.2.2.1, h.2.2.2⟩
      simp only [nested, List.forall_mem_cons]
      exact ⟨⟨[], _, rfl, hname _ (by decide), rfl⟩, ⟨[], _, rfl, hname _ (by decide), rfl⟩,
        ⟨["b"], _, rfl, hname _ (by decide), rfl⟩, ⟨["b"], _, rfl, hname _ (by decide), rfl⟩,
        by simp⟩
    · simp [nested]
  have hplace : nested.place? "." = .ok [] := by
    have hparts : Path.parts "." = [.here] := by decide
    unfold Disk.place?
    rw [hparts, Disk.walk, Disk.walk]
    rfl
  have hfolder : nested.isFolder "." = true := by
    unfold Disk.isFolder Disk.find
    rw [hplace]
    rfl
  obtain ⟨first, l, found, hfirst, hrun, hdocuments, -, -, hmem⟩ := run?_found htree hfolder .plain
  obtain rfl : [] = first := Except.ok.inj (hplace.symm.trans hfirst)
  refine ⟨htree, hfolder, l, hrun, ?_⟩
  have hdoc := (hmem ["b", "c.md"]
    ⟨"./b/c.md", ⟨some "task", none, none, none, none⟩, "# C\n", 0⟩).2
    ⟨["b"], "c.md", "# C\n", rfl, rfl, by decide, by decide, by decide, by simp [Rules.plain], rfl,
      by decide +kernel, by decide +kernel, by decide +kernel⟩
  rw [hdocuments]
  exact List.mem_map_of_mem hdoc

end Scan

end Markbook
