/-
Marc8.Span — closed ranges of codes.

The bands of a policy and the ranges of blocks are spans. A span given in a
policy may have its ends the wrong way round; it is then empty.
-/
import Marc8.Code
import Marc8.Text.Hex

namespace Marc8

/-- The codes from `first` to `last`, both included. -/
structure Span where
  first : Code
  last : Code
  deriving DecidableEq, Repr, Inhabited

namespace Span

/-- Does the code lie in the span? -/
def contains (s : Span) (code : Code) : Bool := s.first ≤ code && code ≤ s.last

/-- A span whose ends are the wrong way round holds no code. -/
def isEmpty (s : Span) : Bool := s.last < s.first

/-- Every code there is. -/
def full : Span := ⟨0, 0xFFFFFFFF⟩

/-- The span as messages and comments write it. -/
def text (s : Span) : String := Text.Hex.literal s.first ++ "..=" ++ Text.Hex.literal s.last

/-- Membership, on the numbers. -/
theorem contains_iff {s : Span} {code : Code} :
    s.contains code = true ↔ s.first.toNat ≤ code.toNat ∧ code.toNat ≤ s.last.toNat := by
  simp [contains, UInt32.le_iff_toNat_le]

/-- Every code lies in the full span. -/
@[simp] theorem contains_full (code : Code) : full.contains code = true := by
  have h := code.toNat_lt
  rw [contains_iff]
  refine ⟨?_, ?_⟩
  · simp [full]
  · show code.toNat ≤ 4294967295
    omega

end Span

end Marc8
