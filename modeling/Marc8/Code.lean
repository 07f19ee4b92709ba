/-
Marc8.Code — the codes and selectors of MARC-8, and the three numbers every
charset shares.

A *code* is what the decoder reads from a record: one byte, or the three bytes
of a multi-byte charset put together. A *selector* is the final byte of the
escape sequence that designates a charset. Both are 32-bit words.

  `space`       — the one code that means the same in every charset;
  `g0Last`      — the last code that belongs to the graphic set G0;
  `twinBit` — the bit in which the two halves of a charset differ.
-/

namespace Marc8

/-- A code as read from a record. -/
abbrev Code := UInt32

/-- The selector under which a charset is designated. -/
abbrev Selector := UInt32

/-- The space: it stands for itself in every charset. -/
def space : Code := 0x20

/-- Codes up to this one belong to the set G0, the others to G1. -/
def g0Last : Code := 0x7E

/-- Flipping this bit leads from a code to its twin in the other half (0x21 and 0xA1). -/
def twinBit : Code := 0x80

/-- The selector in force for a code, when `g0` and `g1` are designated. -/
def selectorInForce (code : Code) (g0 g1 : Selector) : Selector :=
  if code ≤ g0Last then g0 else g1

/-- The twin of a code: the same code with the twin bit flipped. -/
def twin (code : Code) : Code := code ^^^ twinBit

/-- The twin of the twin is the code itself. -/
@[simp] theorem twin_twin (code : Code) : twin (twin code) = code := by
  rw [twin, twin, UInt32.xor_assoc, UInt32.xor_self, UInt32.xor_zero]

example : selectorInForce 0x7E 1 2 = 1 ∧ selectorInForce 0x7F 1 2 = 2 := by decide
example : twin 0x21 = 0xA1 ∧ twin 0xA1 = 0x21 := by decide

end Marc8
