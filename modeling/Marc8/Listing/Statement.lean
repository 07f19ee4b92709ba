/-
Marc8.Listing.Statement — what a line says, before its numbers are read.

A line is cut at its first `#` and into fields; a line without fields says
nothing. The first field decides what is said:

    multibyte n          the multi-byte charset is the one under selector n
    charset n            the lines that follow fill the charset under selector n
    combining n n1 … nk  codes that combine in the charset under selector n
    n c                  code n stands for the character c of the open charset
    n -                  code n of the open charset stands for nothing

`Statement.ofLine` looks at the number of fields only. Numbers are read when
the statement is carried out, since some faults are noticed before them.
-/
import Marc8.Listing.Error
import Marc8.Text.Lines

namespace Marc8.Listing

open Marc8.Text

/-- What a line says. -/
inductive Statement
  | multibyte (selector : Field)
  | charset (selector : Field)
  | combining (selector : Field) (codes : List Field)
  | entry (code value : Field)
  deriving DecidableEq, Repr

namespace Statement

/-- The statement of a list of fields, if there are any. -/
def ofFields : List Field → Except Fault (Option Statement)
  | [] => .ok none
  | keyword :: arguments =>
    if keyword = "multibyte".toList then
      match arguments with
      | [selector] => .ok (some (multibyte selector))
      | _ => .error (.fieldCount 2 (arguments.length + 1))
    else if keyword = "charset".toList then
      match arguments with
      | [selector] => .ok (some (charset selector))
      | _ => .error (.fieldCount 2 (arguments.length + 1))
    else if keyword = "combining".toList then
      match arguments with
      | selector :: codes => .ok (some (combining selector codes))
      | [] => .error .noSelector
    else
      match arguments with
      | [value] => .ok (some (entry keyword value))
      | _ => .error (.fieldCount 2 (arguments.length + 1))

/-- The statement of a line, if it says anything. -/
def ofLine (line : List Char) : Except Fault (Option Statement) :=
  ofFields (fields (withoutComment line))

end Statement

end Marc8.Listing
