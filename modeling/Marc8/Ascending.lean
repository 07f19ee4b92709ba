/-
Marc8.Ascending — the one place where order is created.

The pairs of a map and the combining codes of a charset come in an order that
says nothing. Whatever reaches the compiled table goes through one of the three
sorters below, so the compiled table cannot depend on it:

  `Assoc.ascendingKeys` — the keys of a map, smallest first;
  `Assoc.ascending`     — its pairs, by ascending key;
  `ascendingDistinct`   — the elements of a list, smallest first, each once.
-/
import Marc8.Assoc

namespace Marc8

variable {κ α : Type}

/-- Of equal neighbours keep one. -/
def dropRepeats [DecidableEq κ] : List κ → List κ
  | a :: b :: rest => if a = b then dropRepeats (b :: rest) else a :: dropRepeats (b :: rest)
  | short => short

/-- Dropping repeats loses no element and adds none. -/
theorem mem_dropRepeats [DecidableEq κ] {x : κ} {xs : List κ} : x ∈ dropRepeats xs ↔ x ∈ xs := by
  fun_induction dropRepeats xs with
  | case1 b rest ih => simp [ih]
  | case2 a b rest _ ih => simp [ih]
  | case3 => rfl

variable [LE κ] [DecidableLE κ]

/-- The keys of a map in ascending order. -/
def Assoc.ascendingKeys (m : Assoc κ α) : List κ :=
  m.keys.mergeSort fun a b => decide (a ≤ b)

/-- The pairs of a map by ascending key. -/
def Assoc.ascending (m : Assoc κ α) : List (κ × α) :=
  m.entries.mergeSort fun a b => decide (a.1 ≤ b.1)

/-- The elements of a list in ascending order, each once: equal ones are neighbours after sorting. -/
def ascendingDistinct [DecidableEq κ] (xs : List κ) : List κ :=
  dropRepeats (xs.mergeSort fun a b => decide (a ≤ b))

/-- Sorting without repeats keeps the set of elements. -/
theorem mem_ascendingDistinct [DecidableEq κ] {x : κ} {xs : List κ} :
    x ∈ ascendingDistinct xs ↔ x ∈ xs := by
  rw [ascendingDistinct, mem_dropRepeats, (List.mergeSort_perm xs _).mem_iff]

/-- Sorting the pairs of a map keeps the pairs. -/
theorem Assoc.ascending_perm (m : Assoc κ α) : m.ascending.Perm m.entries :=
  List.mergeSort_perm ..

/-- Sorting the keys of a map keeps the keys. -/
theorem Assoc.ascendingKeys_perm (m : Assoc κ α) : m.ascendingKeys.Perm m.keys :=
  List.mergeSort_perm ..

end Marc8
