/-!
# Finite maps

`Keyed κ α` is a finite map from keys to values, held as a list of entries in which no key occurs
twice. `get?` is its view: `get?_insert` and `get?_erase` say what the two changes do to it.
-/

namespace Profiler

/-- A finite map from `κ` to `α`. -/
structure Keyed (κ : Type) (α : Type) where
  entries : List (κ × α)
  nodup : (entries.map Prod.fst).Nodup

namespace Keyed

variable {κ α : Type}

/-- The map without entries. -/
def empty : Keyed κ α := ⟨[], List.nodup_nil⟩

instance : Inhabited (Keyed κ α) := ⟨empty⟩

/-- The keys that have a value. -/
def keys (m : Keyed κ α) : List κ := m.entries.map Prod.fst

/-- The number of entries. -/
def size (m : Keyed κ α) : Nat := m.entries.length

variable [DecidableEq κ]

/-- The value of `k`, if there is one. -/
def get? (m : Keyed κ α) (k : κ) : Option α :=
  (m.entries.find? fun entry => entry.1 = k).map Prod.snd

/-- The map without the entry of `k`. -/
def erase (m : Keyed κ α) (k : κ) : Keyed κ α where
  entries := m.entries.filter fun entry => entry.1 ≠ k
  nodup := m.nodup.sublist (List.filter_sublist.map _)

/-- The map in which `k` has the value `a`. -/
def insert (m : Keyed κ α) (k : κ) (a : α) : Keyed κ α where
  entries := (k, a) :: (m.erase k).entries
  nodup := by
    rw [List.map_cons, List.nodup_cons]
    refine ⟨?_, (m.erase k).nodup⟩
    simp only [erase, List.mem_map, List.mem_filter, not_exists, not_and]
    rintro entry ⟨-, h⟩ rfl
    simp at h

@[simp] theorem get?_empty (k : κ) : (empty : Keyed κ α).get? k = none := rfl

@[simp] theorem get?_erase (m : Keyed κ α) (k l : κ) :
    (m.erase k).get? l = if l = k then none else m.get? l := by
  simp only [get?, erase, List.find?_filter]
  split
  · next h =>
    subst h
    rw [Option.map_eq_none_iff, List.find?_eq_none]
    simp
  · next h =>
    congr 2
    funext entry
    by_cases he : entry.1 = l
    · subst he; simp [h]
    · simp [he]

@[simp] theorem get?_insert (m : Keyed κ α) (k l : κ) (a : α) :
    (m.insert k a).get? l = if l = k then some a else m.get? l := by
  by_cases h : l = k
  · subst h; simp [get?, insert]
  · have h' : ¬k = l := fun e => h e.symm
    have he := get?_erase m k l
    rw [if_neg h] at he ⊢
    rw [← he]
    simp [get?, insert, h']

/-- The keys that have a value. -/
theorem mem_keys_iff (m : Keyed κ α) (k : κ) : k ∈ m.keys ↔ ∃ a, m.get? k = some a := by
  rw [keys, List.mem_map]
  constructor
  · rintro ⟨entry, hentry, rfl⟩
    cases hfind : m.entries.find? fun other => other.1 = entry.1 with
    | none => exact absurd (List.find?_eq_none.mp hfind entry hentry) (by simp)
    | some other => exact ⟨other.2, by rw [get?, hfind]; rfl⟩
  · rintro ⟨a, h⟩
    rw [get?, Option.map_eq_some_iff] at h
    obtain ⟨entry, hfind, -⟩ := h
    exact ⟨entry, List.mem_of_find?_eq_some hfind, by simpa using List.find?_some hfind⟩

theorem mem_keys_insert (m : Keyed κ α) (k l : κ) (a : α) :
    l ∈ (m.insert k a).keys ↔ l = k ∨ l ∈ m.keys := by
  rw [mem_keys_iff, mem_keys_iff, get?_insert]
  by_cases h : l = k
  · simp [h]
  · simp [h]

end Keyed

end Profiler
