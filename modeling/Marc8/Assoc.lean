/-
Marc8.Assoc — finite maps as lists of pairs with distinct keys.

A table is filled by insertions, and a later insertion under the same key wins.
The pairs stand in some order (the newest in front), which is of no account:
two maps with the same pairs in another order are the same map, and whoever
needs an order sorts the keys (`Marc8.Ascending`). Nothing but the order
distinguishes maps with equal `find?`:

  `mem_entries_iff` — the pairs are exactly what `find?` finds;
  `find?_insert`, `find?_erase` — what an insertion and a removal change.
-/

namespace Marc8

/-- A finite map: pairs with pairwise distinct keys. -/
structure Assoc (κ α : Type) where
  /-- The pairs, in some order. -/
  entries : List (κ × α)
  /-- No key occurs twice. -/
  nodup : (entries.map Prod.fst).Nodup := by simp

namespace Assoc

variable {κ α : Type}

/-- The map without pairs. -/
def empty : Assoc κ α where
  entries := []

instance : Inhabited (Assoc κ α) := ⟨empty⟩

/-- The keys, in some order. -/
def keys (m : Assoc κ α) : List κ := m.entries.map Prod.fst

/-- The number of pairs. -/
def size (m : Assoc κ α) : Nat := m.entries.length

variable [DecidableEq κ]

/-- The value under a key. -/
def find? (m : Assoc κ α) (k : κ) : Option α :=
  (m.entries.find? fun e => e.1 = k).map Prod.snd

/-- Is there a value under the key? -/
def contains (m : Assoc κ α) (k : κ) : Bool := (m.find? k).isSome

/-- The map without the key. -/
def erase (m : Assoc κ α) (k : κ) : Assoc κ α where
  entries := m.entries.filter fun e => e.1 ≠ k
  nodup := List.Nodup.sublist (List.Sublist.map _ List.filter_sublist) m.nodup

/-- The map with `v` under `k`, whatever stood there before. -/
def insert (m : Assoc κ α) (k : κ) (v : α) : Assoc κ α where
  entries := (k, v) :: (m.erase k).entries
  nodup := by
    rw [List.map_cons, List.nodup_cons]
    exact ⟨by simp [erase], (m.erase k).nodup⟩

/-- The map of a list of pairs; of two pairs with one key the later counts. -/
def ofList (pairs : List (κ × α)) : Assoc κ α :=
  pairs.foldl (fun m e => m.insert e.1 e.2) empty

/-! ## What the operations do to the view `find?` -/

@[simp] theorem find?_empty (k : κ) : (empty : Assoc κ α).find? k = none := rfl

/-- The pairs of a map are exactly the keys and values that `find?` finds. -/
theorem mem_entries_iff {m : Assoc κ α} {k : κ} {v : α} :
    (k, v) ∈ m.entries ↔ m.find? k = some v := by
  obtain ⟨entries, nodup⟩ := m
  unfold find?
  induction entries with
  | nil => simp
  | cons e r ih =>
    rw [List.map_cons, List.nodup_cons] at nodup
    by_cases h : e.1 = k
    · have hr : (k, v) ∉ r := fun hm => nodup.1 (h ▸ List.mem_map_of_mem (f := Prod.fst) hm)
      obtain ⟨a, b⟩ := e
      simp only at h
      subst h
      simp [hr, eq_comm]
    · have he : (k, v) ≠ e := fun he => h (by rw [← he])
      simp [h, he, ih nodup.2]

/-- A removal empties the key and leaves the others alone. -/
theorem find?_erase (m : Assoc κ α) (k k' : κ) :
    (m.erase k).find? k' = if k' = k then none else m.find? k' := by
  apply Option.ext
  intro v
  rw [← mem_entries_iff]
  by_cases h : k' = k
  · simp [erase, h]
  · simp [erase, h, mem_entries_iff]

/-- An insertion writes the key and leaves the others alone. -/
theorem find?_insert (m : Assoc κ α) (k k' : κ) (v : α) :
    (m.insert k v).find? k' = if k' = k then some v else m.find? k' := by
  have hcons : (m.insert k v).find? k' = if k' = k then some v else (m.erase k).find? k' := by
    unfold find? insert
    by_cases h : k' = k
    · simp [h]
    · have h' : ¬ k = k' := fun e => h e.symm
      simp [h, h']
  rw [hcons, find?_erase]
  by_cases h : k' = k <;> simp [h]

/-- Behind an insertion the new key is there, and those that were there before. -/
theorem contains_insert (m : Assoc κ α) (k k' : κ) (v : α) :
    (m.insert k v).contains k' = true ↔ k' = k ∨ m.contains k' = true := by
  rw [contains, find?_insert, contains]
  split <;> simp [*]

/-- A key is among the keys when something is found under it. -/
theorem mem_keys_iff {m : Assoc κ α} {k : κ} : k ∈ m.keys ↔ m.contains k = true := by
  unfold keys contains
  constructor
  · intro h
    obtain ⟨⟨a, v⟩, hm, rfl⟩ := List.mem_map.mp h
    rw [mem_entries_iff.mp hm]
    rfl
  · intro h
    obtain ⟨v, hv⟩ := Option.isSome_iff_exists.mp h
    exact List.mem_map.mpr ⟨(k, v), mem_entries_iff.mpr hv, rfl⟩

end Assoc

end Marc8
