/-
Marc8.Policy — how a table is to be compiled.

  the bands     — spans in which the multi-byte charset has its codes; each
                  becomes one block at least;
  the budget    — the most entries a block may hold (a budget of zero counts
                  as one);
  the form      — how a block is written in the emitted fragment.
-/
import Marc8.Span

namespace Marc8

/-- The most entries a block may hold. -/
structure Budget where
  maxEntries : Nat
  deriving DecidableEq, Repr

namespace Budget

/-- A budget of at least one entry. -/
def atLeastOne (n : Nat) : Budget := ⟨max n 1⟩

/-- The number of entries that a block of this budget takes: a block without room is not made. -/
def room (b : Budget) : Nat := max b.maxEntries 1

theorem room_pos (b : Budget) : 0 < b.room := by unfold room; omega

/-- The budget when nothing else is said. -/
def standard : Nat := 4000

end Budget

/-- How a block is written in the emitted fragment. -/
inductive BlockForm
  /-- A match with an arm for every code. -/
  | matchTree
  /-- A sorted array that is searched by halving. -/
  | sortedArray
  deriving DecidableEq, Repr, Inhabited

/-- How a table is to be compiled. -/
structure Policy where
  bands : List Span
  budget : Budget
  form : BlockForm
  deriving DecidableEq, Repr

/-- The bands of the East Asian charset: dense below, ever wider and sparser above. -/
def standardBands : List Span :=
  [⟨0x210000, 0x214FFF⟩, ⟨0x215000, 0x21FFFF⟩, ⟨0x220000, 0x22FFFF⟩, ⟨0x230000, 0x27FFFF⟩,
   ⟨0x280000, 0x7F7FFF⟩]

/-- The policy when nothing else is said. -/
def Policy.standard : Policy := ⟨standardBands, .atLeastOne Budget.standard, .matchTree⟩

instance : Inhabited Policy := ⟨.standard⟩

end Marc8
