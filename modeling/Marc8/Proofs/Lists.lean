/-
Marc8.Proofs.Lists — lists that are related element by element.

  `exists_right_of_forall₂`, `exists_left_of_forall₂` — every element of one list has
                             its partner in the other;
  `forall₂_append_left_iff` — what is related to appended lists is appended;
  `mapM_eq_some_iff`       — a list of options that are all there, as such a relation.
-/
import Mathlib.Data.List.Forall2
import Mathlib.Data.List.Permutation

namespace Marc8

variable {α β : Type} {R : α → β → Prop} {f : α → Option β}

/-! ## Partners -/

/-- Every element on the left has a partner on the right. -/
theorem exists_right_of_forall₂ {xs : List α} {ys : List β}
    (h : List.Forall₂ R xs ys) {x : α} (hx : x ∈ xs) : ∃ y ∈ ys, R x y := by
  induction h with
  | nil => cases hx
  | cons hxy _ ih =>
    rcases List.mem_cons.mp hx with rfl | hx
    · exact ⟨_, by simp, hxy⟩
    · obtain ⟨y, hy, hR⟩ := ih hx
      exact ⟨y, List.mem_cons_of_mem _ hy, hR⟩

/-- Every element on the right has a partner on the left. -/
theorem exists_left_of_forall₂ {xs : List α} {ys : List β}
    (h : List.Forall₂ R xs ys) {y : β} (hy : y ∈ ys) : ∃ x ∈ xs, R x y :=
  exists_right_of_forall₂ (List.Forall₂.flip (R := fun y x => R x y) h) hy

/-- What is related to appended lists is appended from what is related to each. -/
theorem forall₂_append_left_iff : ∀ {front back : List α} {ys : List β},
    List.Forall₂ R (front ++ back) ys ↔
      ∃ ys₁ ys₂, List.Forall₂ R front ys₁ ∧ List.Forall₂ R back ys₂ ∧ ys = ys₁ ++ ys₂
  | [], back, ys => by simp
  | x :: front, back, ys => by
    rw [List.cons_append, List.forall₂_cons_left_iff]
    constructor
    · rintro ⟨y, _, hxy, hrest, rfl⟩
      obtain ⟨ys₁, ys₂, hfront, hback, rfl⟩ := forall₂_append_left_iff.mp hrest
      exact ⟨y :: ys₁, ys₂, .cons hxy hfront, hback, rfl⟩
    · rintro ⟨_, ys₂, hcons, hback, rfl⟩
      obtain ⟨y, ys₁, hxy, hfront, rfl⟩ := List.forall₂_cons_left_iff.mp hcons
      exact ⟨y, ys₁ ++ ys₂, hxy, forall₂_append_left_iff.mpr ⟨ys₁, ys₂, hfront, hback, rfl⟩, rfl⟩

/-! ## Lists of options -/

/-- The options of a list are all there when each is what a second list says. -/
theorem mapM_eq_some_iff : ∀ {xs : List α} {ys : List β},
    xs.mapM f = some ys ↔ List.Forall₂ (fun a b => f a = some b) xs ys
  | [], ys => by simp [List.forall₂_nil_left_iff, eq_comm]
  | a :: xs, ys => by
    rw [List.mapM_cons, List.forall₂_cons_left_iff]
    simp only [Option.bind_eq_bind, Option.bind_eq_some_iff, Option.pure_def, Option.some.injEq,
      @mapM_eq_some_iff xs]
    constructor
    · rintro ⟨b, hb, more, hmore, rfl⟩
      exact ⟨b, more, hb, hmore, rfl⟩
    · rintro ⟨b, more, hb, hmore, rfl⟩
      exact ⟨b, hb, more, hmore, rfl⟩

/-- What is read item by item is known when each item is. -/
theorem mapM_eq_some_iff_eq_map {g : β → α} (h : ∀ a b, f a = some b ↔ a = g b) {xs : List α}
    {ys : List β} : xs.mapM f = some ys ↔ xs = ys.map g := by
  simp only [mapM_eq_some_iff, h]
  rw [← List.forall₂_map_right_iff, List.forall₂_eq_eq_eq]

/-- Items that are each read back are read back in a list. -/
theorem mapM_map_eq_some {g : β → α} {xs : List β} (h : ∀ b ∈ xs, f (g b) = some b) :
    (xs.map g).mapM f = some xs := by
  rw [mapM_eq_some_iff, List.forall₂_map_left_iff, List.forall₂_same]
  exact h

end Marc8
