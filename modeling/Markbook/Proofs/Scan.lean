import Markbook.Proofs.WriteBack.Reread
import Markbook.Scan

/-!
# What a Scan Finds

Every document that a scan finds was read from a file of the disk, either as it is or under the
markers of a folder (`Scan.exists_read_of_mem_walk`).  The body of the document is the end of the
text of the file, and rewriting the text rewrites this body (`Scan.Finding.IsOf.exists_lead`).
-/

namespace Markbook

namespace Scan

variable {d : Disk} {dir path : Path} {inherited : Option Markers} {f : Finding} {doc : Document}
  {content : Text}

/-- Is this what a scan finds in the text of a file? -/
def Finding.IsOf (content : Text) : Finding → Prop
  | .marked doc => Document.read? doc.path content = some doc
  | .inherited doc =>
    Document.read? doc.path content = none ∧ ∃ m, doc = inheritedDocument doc.path m content
  | _ => False

theorem path_inheritedDocument (path : Path) (m : Markers) (content : Text) :
    (inheritedDocument path m content).path = path := by
  unfold inheritedDocument
  split <;> rfl

theorem exists_read_of_mem_fileFindings {name : Text} (hf : f ∈ fileFindings d dir inherited name)
    (hdoc : f.document? = some doc) :
    ∃ content, d.read doc.path = .ok content ∧ f.IsOf content := by
  unfold fileFindings at hf
  simp only at hf
  split at hf
  · rw [List.mem_singleton] at hf
    subst hf
    simp [Finding.document?] at hdoc
  · next content hread =>
    split at hf
    · next doc' hread? =>
      rw [List.mem_singleton] at hf
      subst hf
      obtain rfl : doc' = doc := Option.some.inj hdoc
      have hpath := Document.path_of_read? hread?
      rw [← hpath] at hread hread?
      exact ⟨content, hread, hread?⟩
    · next m hread? =>
      rw [List.mem_singleton] at hf
      subst hf
      obtain rfl := Option.some.inj hdoc
      have hpath := path_inheritedDocument (dir.join ⟨name⟩) m content
      rw [← hpath] at hread hread?
      refine ⟨content, hread, hread?, m, ?_⟩
      rw [hpath]
    · simp at hf

/-- Looking for the marker of a folder finds no document. -/
theorem document?_of_mem_folderMarkers (hf : f ∈ (folderMarkers d dir).2) : f.document? = none := by
  unfold folderMarkers at hf
  simp only at hf
  split at hf
  · split at hf
    · simp at hf
    · rw [List.mem_singleton] at hf
      rw [hf]
      rfl
  · simp at hf

theorem exists_read_of_mem_entryFindings {entry : Entry}
    (hf : f ∈ entryFindings d dir inherited entry) (hdoc : f.document? = some doc) :
    ∃ content, d.read doc.path = .ok content ∧ f.IsOf content := by
  unfold entryFindings at hf
  split at hf
  · simp at hf
  · split at hf
    · exact exists_read_of_mem_fileFindings hf hdoc
    · simp at hf
  · rw [List.mem_singleton] at hf
    subst hf
    simp [Finding.document?] at hdoc

/-- The induction is on the bound of the scan: what is found below was found in some folder. -/
theorem exists_read_of_mem_walk {rules : Rules} {fuel depth : Nat}
    (hf : f ∈ walk d rules fuel dir inherited depth) (hdoc : f.document? = some doc) :
    ∃ content, d.read doc.path = .ok content ∧ f.IsOf content := by
  induction fuel generalizing dir inherited depth with
  | zero => simp [walk] at hf
  | succ fuel ih =>
    unfold walk at hf
    simp only [List.mem_append, List.mem_flatMap] at hf
    rcases hf with (hf | ⟨entry, -, hf⟩) | hf
    · rw [document?_of_mem_folderMarkers hf] at hdoc
      simp at hdoc
    · exact exists_read_of_mem_entryFindings hf hdoc
    · split at hf
      · simp at hf
      · obtain ⟨name, -, hf⟩ := List.mem_flatMap.1 hf
        exact ih hf

/-- The document of a finding lies at the end of its file, and is rewritten in place. -/
theorem Finding.IsOf.exists_lead (h : f.IsOf content) (hdoc : f.document? = some doc) :
    ∃ lead, content = lead ++ doc.body ∧
      ∀ t records, rewrite t records content = lead ++ rewriteBody t records doc.body := by
  have hsplit {p : Preamble} (hp : Preamble.split? content = some p) (hbody : doc.body = p.body) :
      ∃ lead, content = lead ++ doc.body ∧
        ∀ t records, rewrite t records content = lead ++ rewriteBody t records doc.body := by
    rw [hbody]
    exact ⟨p.lead, Preamble.lead_append_body hp, rewrite_eq hp⟩
  cases f with
  | marked doc' =>
    obtain rfl : doc' = doc := Option.some.inj hdoc
    obtain ⟨p, m, hp, -, hread⟩ := Document.read?_eq_some_iff.1 h
    exact hsplit hp (congrArg Document.body hread)
  | inherited doc' =>
    obtain rfl : doc' = doc := Option.some.inj hdoc
    obtain ⟨-, m, hread⟩ := h
    unfold inheritedDocument at hread
    split at hread
    · next p hp => exact hsplit hp (congrArg Document.body hread)
    · next hp =>
      have hbody : doc'.body = content := congrArg Document.body hread
      refine ⟨[], hbody.symm, fun t records ↦ ?_⟩
      unfold rewrite
      rw [hp, hbody]
      rfl
  | unreadable path => simp [Finding.document?] at hdoc
  | unreadableMarker path => simp [Finding.document?] at hdoc
  | lost folder => simp [Finding.document?] at hdoc

end Scan

end Markbook
