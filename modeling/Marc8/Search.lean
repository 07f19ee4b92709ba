/-
Marc8.Search — halving search in an array.

`Search.boundary p xs` looks for the place where `p` stops to hold, on the
assumption that it holds up to some place and nowhere behind it. `Search.find?`
looks an element up by its key, on the assumption that keys ascend.

The loop keeps an interval [lo, hi) with `p` true below `lo` and false from
`hi` on, and halves it by a look at its middle (`boundary_spec`).
-/

namespace Marc8.Search

variable {α : Type}

/-- Narrow [lo, hi) down to the place where `p` stops to hold. -/
def narrow (p : α → Bool) (xs : Array α) (lo hi : Nat) : Nat :=
  if h : lo < hi ∧ hi ≤ xs.size then
    if p xs[lo + (hi - lo) / 2] then narrow p xs (lo + (hi - lo) / 2 + 1) hi
    else narrow p xs lo (lo + (hi - lo) / 2)
  else lo
termination_by hi - lo

/-- The number of elements in front of the first one that `p` refuses. -/
def boundary (p : α → Bool) (xs : Array α) : Nat := narrow p xs 0 xs.size

/-- The element with a given key. -/
def find? (key : α → UInt32) (xs : Array α) (k : UInt32) : Option α :=
  match xs[boundary (fun x => key x < k) xs]? with
  | some x => if key x = k then some x else none
  | none => none

/-- The test `p` holds up to some place and nowhere behind it. -/
def Falls (p : α → Bool) (xs : Array α) : Prop :=
  ∀ i j (hi : i < xs.size) (hj : j < xs.size), i ≤ j → p xs[j] = true → p xs[i] = true

/-- The loop ends inside its interval, at the place where `p` stops to hold. -/
theorem narrow_spec {p : α → Bool} {xs : Array α} (falls : Falls p xs) (lo hi : Nat)
    (le : lo ≤ hi) (size : hi ≤ xs.size)
    (below : ∀ i (h : i < xs.size), i < lo → p xs[i] = true)
    (above : ∀ i (h : i < xs.size), hi ≤ i → p xs[i] = false) :
    narrow p xs lo hi ≤ xs.size ∧
      ∀ i (h : i < xs.size), p xs[i] = true ↔ i < narrow p xs lo hi := by
  fun_induction narrow p xs lo hi with
  | case1 lo hi h hp ih =>
    refine ih (by omega) size (fun i hi' hlt => ?_) above
    exact falls i (lo + (hi - lo) / 2) hi' (by omega) (by omega) hp
  | case2 lo hi h hp ih =>
    refine ih (by omega) (by omega) below (fun i hi' hle => ?_)
    cases hv : p xs[i] with
    | false => rfl
    | true => exact absurd (falls (lo + (hi - lo) / 2) i (by omega) hi' hle hv) hp
  | case3 lo hi h =>
    have heq : hi = lo := by omega
    subst heq
    refine ⟨size, fun i hi' => ⟨fun hv => ?_, below i hi'⟩⟩
    refine Nat.lt_of_not_le fun hle => ?_
    rw [above i hi' hle] at hv
    exact absurd hv (by simp)

/-- The boundary is where `p` stops to hold. -/
theorem boundary_spec {p : α → Bool} {xs : Array α} (falls : Falls p xs) :
    boundary p xs ≤ xs.size ∧ ∀ i (h : i < xs.size), p xs[i] = true ↔ i < boundary p xs :=
  narrow_spec falls 0 xs.size (Nat.zero_le _) (Nat.le_refl _)
    (fun _ _ h => absurd h (Nat.not_lt_zero _)) fun _ h hle => absurd h (by omega)

end Marc8.Search
