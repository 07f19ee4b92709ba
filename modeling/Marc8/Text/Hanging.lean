/-
Marc8.Text.Hanging — messages of several lines.

The first line of a message stands behind a heading. The lines that follow are
set in by some blanks, so that they are not taken for messages of their own.
-/

namespace Marc8.Text

/-- The message with all its lines but the first set in by some blanks. -/
def hanging (indent : Nat) (message : String) : String :=
  String.ofList (message.toList.flatMap fun c =>
    if c = '\n' then c :: List.replicate indent ' ' else [c])

example : hanging 2 "a\nb\n\nc" = "a\n  b\n  \n  c" := by decide

end Marc8.Text
