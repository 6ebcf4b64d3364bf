import Markbook.Text.Basic

/-!
# Maps Keyed by Text

A finite map is the list of its entries in strictly ascending order of keys.  The order is part of
the type, so two maps with the same entries are equal, whatever the history of their construction.
-/

namespace Markbook

theorem Text.lt_of_not_lt_of_ne {a b : Text} (h : ¬ a < b) (hne : a ≠ b) : b < a := by
  rcases Classical.em (b < a) with hlt | hge
  · exact hlt
  · exact absurd (List.le_antisymm (List.not_lt.1 hge) (List.not_lt.1 h)) hne

/-- A finite map from texts to values, its entries in ascending order of keys. -/
structure TextMap (β : Type) where
  entries : List (Text × β)
  ascending : entries.Pairwise fun a b ↦ a.1 < b.1
deriving DecidableEq

namespace TextMap

variable {β γ : Type}

/-- Puts one entry into an ascending list of entries, in place of an entry with the same key. -/
def place (k : Text) (v : β) : List (Text × β) → List (Text × β)
  | [] => [(k, v)]
  | e :: r =>
    if k < e.1 then (k, v) :: e :: r
    else if k = e.1 then (k, v) :: r
    else e :: place k v r

theorem mem_place {k : Text} {v : β} {l : List (Text × β)} {e : Text × β} (h : e ∈ place k v l) :
    e = (k, v) ∨ e ∈ l := by
  induction l with
  | nil => simp_all [place]
  | cons a r ih =>
    simp only [place] at h
    split at h
    · simp_all
    · split at h
      · rcases List.mem_cons.1 h with h | h <;> simp_all
      · rcases List.mem_cons.1 h with h | h
        · simp [h]
        · rcases ih h with h | h <;> simp [h]

theorem place_ascending {k : Text} {v : β} {l : List (Text × β)}
    (h : l.Pairwise fun a b ↦ a.1 < b.1) : (place k v l).Pairwise fun a b ↦ a.1 < b.1 := by
  induction l with
  | nil => simp [place]
  | cons a r ih =>
    obtain ⟨ha, hr⟩ := List.pairwise_cons.1 h
    simp only [place]
    split
    · next hlt =>
      refine List.pairwise_cons.2 ⟨fun e he ↦ ?_, h⟩
      rcases List.mem_cons.1 he with rfl | he
      · exact hlt
      · exact List.lt_trans hlt (ha e he)
    · next hge =>
      split
      · next heq => exact List.pairwise_cons.2 ⟨fun e he ↦ heq ▸ ha e he, hr⟩
      · next hne =>
        refine List.pairwise_cons.2 ⟨fun e he ↦ ?_, ih hr⟩
        rcases mem_place he with rfl | he
        · exact Text.lt_of_not_lt_of_ne hge hne
        · exact ha e he

def empty : TextMap β := ⟨[], List.Pairwise.nil⟩

instance : Inhabited (TextMap β) := ⟨empty⟩

def get? (m : TextMap β) (k : Text) : Option β :=
  (m.entries.find? fun e ↦ e.1 = k).map (·.2)

def has (m : TextMap β) (k : Text) : Bool := (m.get? k).isSome

def insert (m : TextMap β) (k : Text) (v : β) : TextMap β :=
  ⟨place k v m.entries, place_ascending m.ascending⟩

/-- Keeps the entries that pass a test. -/
def filter (m : TextMap β) (keep : Text → β → Bool) : TextMap β :=
  ⟨m.entries.filter fun e ↦ keep e.1 e.2, m.ascending.filter _⟩

def erase (m : TextMap β) (k : Text) : TextMap β := m.filter fun k' _ ↦ k' ≠ k

/-- Applies a function to every value. -/
def map (m : TextMap β) (f : Text → β → γ) : TextMap γ :=
  ⟨m.entries.map fun e ↦ (e.1, f e.1 e.2), by simpa [List.pairwise_map] using m.ascending⟩

def keys (m : TextMap β) : List Text := m.entries.map (·.1)

def size (m : TextMap β) : Nat := m.entries.length

def isEmpty (m : TextMap β) : Bool := m.entries.isEmpty

/-- Collects entries in order; a later entry replaces an earlier one with the same key. -/
def ofList (l : List (Text × β)) : TextMap β :=
  l.foldl (fun m e ↦ m.insert e.1 e.2) empty

end TextMap

/-- The fields of an entity: values by key. -/
abbrev Fields := TextMap Text

end Markbook
