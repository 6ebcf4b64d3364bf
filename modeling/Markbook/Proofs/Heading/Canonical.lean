import Markbook.Proofs.Heading.Marked

/-!
# Headings of Any Status Form

A status may be given in any of its forms, or by its name, when a heading is written.  The table
sees only the canonical name (`Heading.write_map_canonical`), so with the built-in table the
heading is read back as the canonical status, the name and the title (`Heading.reads_builtIn`).
-/

namespace Markbook

namespace StatusTable

variable {s n : Text}

theorem canonical_of_canonical?_eq_some {t : StatusTable} (h : t.canonical? s = some n) :
    t.canonical s = n := by
  unfold canonical
  rw [h]
  rfl

/-- The statuses of the built-in table are those that it writes a form for. -/
theorem written?_canonical_builtIn_eq_none_iff :
    builtIn.written? (builtIn.canonical s) = none ↔ builtIn.canonical? s = none := by
  refine ⟨fun h ↦ ?_, written?_eq_none⟩
  rw [Option.eq_none_iff_forall_ne_some]
  intro n hn
  obtain ⟨row, hrow, rfl⟩ := exists_declared_of_canonical? hn
  obtain ⟨c, hc⟩ := exists_glyph_of_declared hrow
  obtain ⟨hwritten, heq⟩ := written?_builtIn hc
  rw [canonical_of_canonical?_eq_some hn, ← heq, hwritten] at h
  exact Option.some_ne_none _ h

end StatusTable

namespace Heading

variable {status : Option Text} {name title : Text}

theorem marker?_builtIn_eq_none_iff :
    marker? .builtIn status = none ↔ status.bind StatusTable.builtIn.canonical? = none := by
  cases status with
  | none => exact Iff.rfl
  | some s => exact StatusTable.written?_canonical_builtIn_eq_none_iff

/-! ## Canonical statuses -/

theorem marker?_map_canonical (status : Option Text) :
    marker? .builtIn (status.map StatusTable.builtIn.canonical) = marker? .builtIn status := by
  cases status with
  | none => rfl
  | some s =>
    exact congrArg StatusTable.builtIn.written? (StatusTable.canonical_canonical_builtIn s)

theorem writtenText_map_canonical (status : Option Text) (name title : Text) :
    writtenText .builtIn (status.map StatusTable.builtIn.canonical) name title =
      writtenText .builtIn status name title := by
  unfold writtenText
  rw [marker?_map_canonical]

theorem write_map_canonical (level : Nat) (status : Option Text) (name title : Text) :
    write .builtIn level (status.map StatusTable.builtIn.canonical) name title =
      write .builtIn level status name title := by
  rw [write_eq, write_eq, writtenText_map_canonical]

/-- The status of a heading, as far as it is written. -/
theorem written_status_eq (status : Option Text) :
    (if (marker? .builtIn status).isSome then status.map StatusTable.builtIn.canonical else none) =
      status.bind StatusTable.builtIn.canonical? := by
  split
  · next h =>
    have hknown : status.bind StatusTable.builtIn.canonical? ≠ none := fun hnone ↦ by
      rw [marker?_builtIn_eq_none_iff.2 hnone] at h
      exact Bool.false_ne_true h
    obtain ⟨n, hn⟩ := Option.ne_none_iff_exists'.1 hknown
    obtain ⟨s, rfl, hs⟩ := Option.bind_eq_some_iff.1 hn
    rw [hn, Option.map_some, StatusTable.canonical_of_canonical?_eq_some hs]
  · next h =>
    rw [Option.not_isSome_iff_eq_none] at h
    exact (marker?_builtIn_eq_none_iff.1 h).symm

/-- With the built-in table a heading says the canonical status, the name and the title. -/
theorem readsBack_map_canonical (h : IsWritable name title)
    (hform : marker? .builtIn status = none →
      ∀ e ∈ StatusTable.builtIn.allForms, ¬ e.2 <+: name) :
    ReadsBack .builtIn (status.map StatusTable.builtIn.canonical) name title := by
  refine (isApart_builtIn h.toIsPlain ?_ ?_).readsBack h
  · intro s hs
    obtain ⟨r, -, rfl⟩ := Option.map_eq_some_iff.1 hs
    exact StatusTable.canonical_canonical_builtIn r
  · intro hmarker e he _
    rw [marker?_map_canonical] at hmarker
    exact hform hmarker e he

/-- A heading that is written with the built-in table is read back: its level is the nearest one of
1 to 6, and its text says the name, the title and the canonical name of the status, if the status
has a written form. -/
theorem reads_builtIn (h : IsWritable name title)
    (hform : marker? .builtIn status = none →
      ∀ e ∈ StatusTable.builtIn.allForms, ¬ e.2 <+: name) (level : Nat) :
    named? .builtIn (write .builtIn level status name title) = some (max 1 (min level 6), name) ∧
      (∃ text,
        split? (Text.trim (write .builtIn level status name title)) =
          some (max 1 (min level 6), text) ∧
        (ofText .builtIn text).name = name ∧ (ofText .builtIn text).title = title ∧
        (ofText .builtIn text).status = status.bind StatusTable.builtIn.canonical?) ∧
      (marker? .builtIn status = none ↔ status.bind StatusTable.builtIn.canonical? = none) := by
  have hback := readsBack_map_canonical h hform
  have hline : IsLine .builtIn status name title := h.toIsPlain.isLine StatusTable.hasLines_builtIn
  have hsplit : split? (Text.trim (write .builtIn level status name title)) =
      some (max 1 (min level 6), Text.trim (writtenText .builtIn status name title)) := by
    rw [write_eq]
    exact split?_replicate (by omega) (by omega) hline.text_ne
  obtain ⟨hname, htitle, hstatus⟩ := hback
  rw [marker?_map_canonical, written_status_eq] at hstatus
  rw [writtenText_map_canonical] at hname htitle hstatus
  refine ⟨?_, ⟨_, hsplit, hname, htitle, hstatus⟩, marker?_builtIn_eq_none_iff⟩
  rw [named?_eq, hsplit, Option.map_some, hname]

/-- The word for a status in progress, a name that starts with the form of another status, and a
title with marks of the format, below more than six hashes. -/
theorem reads_builtIn_wip :
    named? .builtIn (write .builtIn 9 (some "WIP".toList) "[x] DONE -- or".toList
        "— a -- b".toList) = some (6, "[x] DONE -- or".toList) ∧
      ∃ text, split? (Text.trim (write .builtIn 9 (some "WIP".toList) "[x] DONE -- or".toList
          "— a -- b".toList)) = some (6, text) ∧
        (ofText .builtIn text).status = some "in_progress".toList := by
  have hwritable : IsWritable "[x] DONE -- or".toList "— a -- b".toList := by
    refine ⟨⟨?_, ?_, ?_, ?_, ?_, ?_⟩, ?_⟩ <;> decide
  have hmarked : marker? .builtIn (some "WIP".toList) = some ['🔄'] := by decide
  have hform : marker? .builtIn (some "WIP".toList) = none →
      ∀ e ∈ StatusTable.builtIn.allForms, ¬ e.2 <+: "[x] DONE -- or".toList := by
    rw [hmarked]
    exact fun h ↦ absurd h (Option.some_ne_none _)
  obtain ⟨hnamed, ⟨text, hsplit, -, -, hstatus⟩, -⟩ := reads_builtIn hwritable hform 9
  have hcanonical : (some "WIP".toList).bind StatusTable.builtIn.canonical? =
      some "in_progress".toList := by decide
  exact ⟨hnamed, text, hsplit, hstatus.trans hcanonical⟩

end Heading

end Markbook
