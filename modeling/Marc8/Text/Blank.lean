/-
Marc8.Text.Blank — the characters that separate the fields of a line.

They are the 25 characters with the Unicode property White_Space (the set has
been the same since Unicode 6.3), given as closed ranges of code points.
-/

namespace Marc8.Text

/-- The code points of the property, as ascending ranges that do not touch. -/
def blankRanges : List (Nat × Nat) :=
  [(0x0009, 0x000D), (0x0020, 0x0020), (0x0085, 0x0085), (0x00A0, 0x00A0), (0x1680, 0x1680),
   (0x2000, 0x200A), (0x2028, 0x2029), (0x202F, 0x202F), (0x205F, 0x205F), (0x3000, 0x3000)]

/-- Does the character separate fields? -/
def isBlank (c : Char) : Bool :=
  blankRanges.any fun range => range.1 ≤ c.toNat && c.toNat ≤ range.2

example : (blankRanges.map fun range => range.2 + 1 - range.1).sum = 25 := by decide
example : isBlank '\u00a0' ∧ isBlank '\u3000' ∧ ¬ isBlank '\u200b' ∧ ¬ isBlank '\ufeff' := by decide

end Marc8.Text
