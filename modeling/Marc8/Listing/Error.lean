/-
Marc8.Listing.Error — why a listing is refused, and where.

A fault is a cause; `Fault.message` is its wording. An error is a fault with
the number of its line, counted from one; the fault that belongs to no line,
the missing multi-byte selector, has the number zero.
-/
import Marc8.Code
import Marc8.Listing.Numeral

namespace Marc8.Listing

open Marc8.Text

/-- A word of a line. -/
abbrev Field := List Char

/-- Why a listing is refused. -/
inductive Fault
  /-- No line names the multi-byte charset. -/
  | noMultibyte
  /-- A second line names the multi-byte charset. -/
  | multibyteAgain
  /-- A charset is opened that was opened before. -/
  | charsetAgain (selector : Selector)
  /-- A line of combining codes without a selector. -/
  | noSelector
  /-- A line with too few or too many fields. -/
  | fieldCount (expected found : Nat)
  /-- An entry before the first charset. -/
  | outsideCharset
  /-- A second entry for a code of one charset. -/
  | codeAgain (code : Code) (selector : Selector)
  /-- A field that should be a number and is none. -/
  | numeral (field : Field) (cause : Numeral.Fault)
  /-- A number that is no character: a surrogate, or beyond the last plane. -/
  | notCharacter (number : UInt32)
  deriving DecidableEq, Repr

/-- The wording of what is wrong with a field that should be a number. -/
def Numeral.Fault.message (field : Field) : Numeral.Fault → String
  | .noMark => "ожидалось число вида 0x..: " ++ String.ofList field
  | .empty => digits "cannot parse integer from empty string"
  | .invalidDigit => digits "invalid digit found in string"
  | .tooLarge => digits "number too large to fit in target type"
where
  /-- The common frame of the faults behind the mark. -/
  digits (cause : String) : String := "некорректное число " ++ String.ofList field ++ ": " ++ cause

/-- The wording of a fault. -/
def Fault.message : Fault → String
  | .noMultibyte => "не указана многобайтовая страница"
  | .multibyteAgain => "многобайтовая страница указана повторно"
  | .charsetAgain selector => "кодовая страница " ++ Hex.literal selector ++ " указана повторно"
  | .noSelector => "не указан селектор"
  | .fieldCount expected found =>
    "ожидалось полей: " ++ toString expected ++ ", получено: " ++ toString found
  | .outsideCharset => "запись вне кодовой страницы"
  | .codeAgain code selector =>
    "код " ++ Hex.literal code ++ " повторяется в странице " ++ Hex.literal selector
  | .numeral field cause => cause.message field
  | .notCharacter number =>
    "U+" ++ String.ofList (Hex.upperPadded 4 number) ++ " - не скалярное значение"

/-- A fault and its place. -/
structure Error where
  /-- The line, counted from one; zero when the fault belongs to the whole listing. -/
  line : Nat
  /-- What is wrong. -/
  fault : Fault
  deriving DecidableEq, Repr

/-- A message with the line it belongs to. -/
def located (line : Nat) (message : String) : String :=
  "строка " ++ toString line ++ ": " ++ message

/-- The wording of an error. -/
def Error.message (e : Error) : String := located e.line e.fault.message

end Marc8.Listing
