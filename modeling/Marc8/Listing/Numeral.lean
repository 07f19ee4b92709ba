/-
Marc8.Listing.Numeral — the numbers of a listing.

A numeral is `0x`, then at most one `+`, then hexadecimal digits of either
case, as many as one likes as long as the number fits 32 bits. The reader goes
from left to right and stops at the first thing that is wrong: a character that
is no digit, or the digit that makes the number too large. A sign with nothing
behind it counts as a wrong digit.

  `Numeral.Fault` — what can be wrong with a numeral;
  `Numeral.read`  — the number of a field.
-/
import Marc8.Text.Hex

namespace Marc8.Listing.Numeral

open Marc8.Text

/-- What can be wrong with a numeral. -/
inductive Fault
  /-- The field does not start with `0x`. -/
  | noMark
  /-- Nothing follows the mark. -/
  | empty
  /-- A character is no hexadecimal digit, or a sign stands alone. -/
  | invalidDigit
  /-- The number does not fit 32 bits. -/
  | tooLarge
  deriving DecidableEq, Repr

/-- Read digits behind a number below 2^32 that has been read already. -/
def readDigits (read : Nat) : List Char → Except Fault UInt32
  | [] => .ok (UInt32.ofNat read)
  | c :: rest =>
    match Hex.digitValue? c with
    | none => .error .invalidDigit
    | some d =>
      if read * 16 + d < UInt32.size then readDigits (read * 16 + d) rest else .error .tooLarge

/-- Read what follows the mark. -/
def readMagnitude : List Char → Except Fault UInt32
  | [] => .error .empty
  | ['+'] => .error .invalidDigit
  | '+' :: digits => readDigits 0 digits
  | digits => readDigits 0 digits

/-- The number of a field. -/
def read : List Char → Except Fault UInt32
  | '0' :: 'x' :: magnitude => readMagnitude magnitude
  | _ => .error .noMark

example : read "0x+0000000FfFfFfFf".toList = .ok 0xFFFFFFFF := rfl
example : read "0x100000000g".toList = .error .tooLarge := rfl
example : read "0x10000000g0".toList = .error .invalidDigit := rfl
example : read "0x+".toList = .error .invalidDigit := rfl

end Marc8.Listing.Numeral
