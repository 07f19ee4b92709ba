/-
Marc8.Proofs.Sorting — the sorters leave one list only.

An ascending list is told by its elements (`Ascends.eq_iff`). So there is one
ascending list of the keys of a map, one of its pairs and one of the codes of a
list, and the sorters leave it:

  `Assoc.eq_ascendingKeys_iff`, `Assoc.eq_ascending_iff`,
  `eq_ascendingDistinct_iff` — these lists, by what is in them.

How the sorting is done is of no account either. `Arranges` is all that is
promised by a sorting procedure which may exchange elements of equal keys. The
keys of a map do not repeat, so the promise is enough for them and for the pairs
(`eq_ascendingKeys_iff_arranges`, `eq_ascending_iff_arranges`); of codes that
repeat, equal ones become neighbours, and one of them is kept
(`Arranges.dropRepeats_eq`).

  `sorters_are_canonical`    — for every map and every list, in any order.
-/
import Marc8.Proofs.Ascending

namespace Marc8

variable {α κ : Type} {key : α → κ} {xs ys arranged : List α}

/-! ## Arrangements -/

section Arrangements

variable [LE κ]

/-- The elements of a list in an order in which no key is above a later one. Which of two elements
of equal keys comes first is left open. -/
structure Arranges (key : α → κ) (arranged xs : List α) : Prop where
  perm : arranged.Perm xs
  order : arranged.Pairwise fun a b => key a ≤ key b

variable [Std.IsLinearOrder κ]

theorem arranges_mergeSort [DecidableLE κ] (key : α → κ) (xs : List α) :
    Arranges key (xs.mergeSort fun a b => decide (key a ≤ key b)) xs :=
  ⟨List.mergeSort_perm xs _, le_mergeSort key xs⟩

variable [LT κ] [Std.LawfulOrderLT κ]

/-- Elements without a repeated key are arranged in an ascending list. -/
theorem Arranges.ascends (h : Arranges key arranged xs) (nodup : (xs.map key).Nodup) :
    Ascends key arranged :=
  ascends_of_nodup h.order ((h.perm.map key).nodup_iff.mpr nodup)

/-- There is no other ascending list of the same elements. -/
theorem Ascends.eq_iff (h : Ascends key ys) :
    xs = ys ↔ Ascends key xs ∧ ∀ x, x ∈ xs ↔ x ∈ ys := by
  constructor
  · rintro rfl
    exact ⟨h, fun _ => Iff.rfl⟩
  · rintro ⟨ascends, mem⟩
    exact ascends.eq_of_mem_iff h mem

end Arrangements

/-! ## What the sorters leave -/

section Canonical

variable [LE κ] [DecidableLE κ] [LT κ] [Std.IsLinearOrder κ] [Std.LawfulOrderLT κ]

/-- The keys of a map, sorted, ascend. -/
theorem Assoc.ascends_ascendingKeys (m : Assoc κ α) : Ascends id m.ascendingKeys := by
  refine (arranges_mergeSort id m.keys).ascends ?_
  rw [List.map_id]
  exact m.nodup

variable [DecidableEq κ] {m m' : Assoc κ α} {keys : List κ} {pairs : List (κ × α)}
  {codes codes' sorted : List κ}

/-- The sorted keys of a map are the ascending list of what something is found under. -/
theorem Assoc.eq_ascendingKeys_iff :
    keys = m.ascendingKeys ↔ Ascends id keys ∧ ∀ k, k ∈ keys ↔ m.contains k = true := by
  rw [m.ascends_ascendingKeys.eq_iff]
  simp only [m.ascendingKeys_perm.mem_iff, Assoc.mem_keys_iff]

/-- The sorted pairs of a map are the ascending list of what is found, each under its key. -/
theorem Assoc.eq_ascending_iff :
    pairs = m.ascending ↔
      Ascends Prod.fst pairs ∧ ∀ k v, (k, v) ∈ pairs ↔ m.find? k = some v := by
  rw [m.ascends_ascending.eq_iff]
  simp only [Prod.forall, Assoc.mem_ascending]

/-- Codes, sorted without repeats, are the ascending list of the same codes. -/
theorem eq_ascendingDistinct_iff :
    sorted = ascendingDistinct codes ↔ Ascends id sorted ∧ ∀ x, x ∈ sorted ↔ x ∈ codes := by
  rw [(ascends_ascendingDistinct codes).eq_iff]
  simp only [mem_ascendingDistinct]

/-- The sorted pairs of a map are told by what it finds. -/
theorem Assoc.ascending_eq_of_find?_eq (h : ∀ k, m.find? k = m'.find? k) :
    m.ascending = m'.ascending :=
  Assoc.eq_ascending_iff.mpr ⟨m.ascends_ascending, fun k v => by rw [Assoc.mem_ascending, h]⟩

/-- The sorted keys are those of the sorted pairs. -/
theorem Assoc.map_fst_ascending (m : Assoc κ α) : m.ascending.map Prod.fst = m.ascendingKeys := by
  refine Assoc.eq_ascendingKeys_iff.mpr ⟨List.pairwise_map.mpr m.ascends_ascending, fun k => ?_⟩
  rw [← Assoc.mem_keys_iff, Assoc.keys, (m.ascending_perm.map Prod.fst).mem_iff]

/-- Codes are sorted to the same list when they are the same as a set. -/
theorem ascendingDistinct_eq_iff :
    ascendingDistinct codes = ascendingDistinct codes' ↔ ∀ x, x ∈ codes ↔ x ∈ codes' := by
  rw [eq_ascendingDistinct_iff]
  simp only [ascends_ascendingDistinct codes, true_and, mem_ascendingDistinct]

/-! ## Any sorting procedure -/

/-- The keys of a map have one arrangement. -/
theorem eq_ascendingKeys_iff_arranges :
    keys = m.ascendingKeys ↔ Arranges id keys m.keys := by
  constructor
  · rintro rfl
    exact arranges_mergeSort id m.keys
  · intro h
    refine Assoc.eq_ascendingKeys_iff.mpr ⟨h.ascends ?_, fun k => ?_⟩
    · rw [List.map_id]
      exact m.nodup
    · rw [h.perm.mem_iff, Assoc.mem_keys_iff]

/-- The pairs of a map have one arrangement. -/
theorem eq_ascending_iff_arranges :
    pairs = m.ascending ↔ Arranges Prod.fst pairs m.entries := by
  constructor
  · rintro rfl
    exact arranges_mergeSort Prod.fst m.entries
  · intro h
    refine Assoc.eq_ascending_iff.mpr ⟨h.ascends m.nodup, fun k v => ?_⟩
    rw [h.perm.mem_iff, Assoc.mem_entries_iff]

/-- However codes are arranged, equal ones are neighbours, and one of them is kept. -/
theorem Arranges.dropRepeats_eq (h : Arranges id sorted codes) :
    dropRepeats sorted = ascendingDistinct codes := by
  refine eq_ascendingDistinct_iff.mpr ⟨ascends_dropRepeats h.order, fun x => ?_⟩
  rw [mem_dropRepeats, h.perm.mem_iff]

end Canonical

/-- The three sorters leave the one ascending list there is: of the keys of a map, of its pairs, and
of the codes of a list, each once. It depends neither on the order in which the map is enumerated
or the codes are listed, nor on the procedure that sorts them. -/
theorem sorters_are_canonical {κ α : Type} [LE κ] [LT κ] [DecidableLE κ] [DecidableEq κ]
    [Std.IsLinearOrder κ] [Std.LawfulOrderLT κ] :
    (∀ (m : Assoc κ α) (keys : List κ),
      (keys = m.ascendingKeys ↔ Ascends id keys ∧ ∀ k, k ∈ keys ↔ m.contains k = true) ∧
      (keys = m.ascendingKeys ↔ Arranges id keys m.keys)) ∧
    (∀ (m : Assoc κ α) (pairs : List (κ × α)),
      (pairs = m.ascending ↔
        Ascends Prod.fst pairs ∧ ∀ k v, (k, v) ∈ pairs ↔ m.find? k = some v) ∧
      (pairs = m.ascending ↔ Arranges Prod.fst pairs m.entries)) ∧
    (∀ m : Assoc κ α, m.ascending.map Prod.fst = m.ascendingKeys) ∧
    (∀ m m' : Assoc κ α, m.ascending = m'.ascending ↔ m.entries.Perm m'.entries) ∧
    (∀ codes sorted : List κ,
      (sorted = ascendingDistinct codes ↔ Ascends id sorted ∧ ∀ x, x ∈ sorted ↔ x ∈ codes) ∧
      (sorted = ascendingDistinct codes ↔
        ∃ arranged, Arranges id arranged codes ∧ dropRepeats arranged = sorted)) ∧
    (∀ codes : List κ, ascendingDistinct (ascendingDistinct codes) = ascendingDistinct codes) ∧
    ∀ codes codes' : List κ,
      ascendingDistinct codes = ascendingDistinct codes' ↔ ∀ x, x ∈ codes ↔ x ∈ codes' := by
  refine ⟨fun m keys => ⟨Assoc.eq_ascendingKeys_iff, eq_ascendingKeys_iff_arranges⟩,
    fun m pairs => ⟨Assoc.eq_ascending_iff, eq_ascending_iff_arranges⟩, Assoc.map_fst_ascending,
    fun m m' => ⟨fun h => ?_, fun h => ?_⟩,
    fun codes sorted => ⟨eq_ascendingDistinct_iff, ?_⟩,
    fun codes => ascendingDistinct_eq_iff.mpr fun _ => mem_ascendingDistinct,
    fun _ _ => ascendingDistinct_eq_iff⟩
  · -- Both maps are enumerated as the one sorted list is.
    have perm := m.ascending_perm.symm
    rw [h] at perm
    exact perm.trans m'.ascending_perm
  · rw [eq_ascending_iff_arranges]
    exact ⟨m.ascending_perm.trans h, m.ascends_ascending.le⟩
  · constructor
    · rintro rfl
      exact ⟨_, arranges_mergeSort id codes, rfl⟩
    · rintro ⟨arranged, arranges, rfl⟩
      exact arranges.dropRepeats_eq

/-- One map with numbers below and above zero for its keys, enumerated in two orders, and one set of
codes, listed with repeats. -/
theorem sorters_are_canonical_two_orders :
    let m : Assoc Int String := ⟨[(7, "seven"), (-3, "three"), (0, "none")], by decide⟩
    let m' : Assoc Int String := ⟨[(0, "none"), (7, "seven"), (-3, "three")], by decide⟩
    let codes : List Code := [0xE2, 0xE1, 0xE2, 0xE0]
    m.ascending = m'.ascending ∧ m.ascending = [(-3, "three"), (0, "none"), (7, "seven")] ∧
      m.ascendingKeys = [-3, 0, 7] ∧ ascendingDistinct codes = [0xE0, 0xE1, 0xE2] ∧
      ascendingDistinct codes = ascendingDistinct [0xE0, 0xE1, 0xE1, 0xE0, 0xE2] := by
  intro m m' codes
  obtain ⟨keys, pairs, -, orders, -⟩ := @sorters_are_canonical Int String _ _ _ _ _ _
  obtain ⟨-, -, -, -, sorted, -, sets⟩ := @sorters_are_canonical Code String _ _ _ _ _ _
  refine ⟨(orders m m').mpr (by decide), ((pairs m _).2.mpr ⟨by decide, by simp⟩).symm,
    ((keys m _).2.mpr ⟨by decide, by simp⟩).symm, ((sorted codes _).2.mpr ?_).symm,
    (sets codes _).mpr ?_⟩
  · exact ⟨[0xE0, 0xE1, 0xE2, 0xE2], ⟨by decide, by simp⟩, by decide⟩
  · intro x
    simp only [codes, List.mem_cons, List.not_mem_nil]
    grind

end Marc8
