/-
Marc8.Generate — from a table to a file with its fragment.

A generation compiles the table, reports the statistics of the result, emits
the text, and replaces the target file. The text is complete before the first
file is touched, and the replacement is atomic, so a generation that fails
leaves the tree as it was.

  `statistics`    — the events that describe a compiled table;
  `composeText`   — everything up to the text;
  `writeText`     — the replacement of the file;
  `reportWritten` — what is told of a replacement;
  `generate`      — all of it.
-/
import Marc8.Files.Commit
import Marc8.Fragment.Emit

namespace Marc8

open Marc8.Files

/-- The events that describe a charset. -/
def Charset.statistics (charset : Charset) : List Event :=
  match charset.layout with
  | .page blocks => [.page charset.selector charset.layout.entryCount blocks.length]
  | .multibyte blocks =>
    .multibyte charset.selector blocks.length Fragment.multibyteName ::
      blocks.map fun block => .range block.span block.entries.size

/-- The events that describe a compiled table. -/
def statistics (p : CompiledTable) : List Event :=
  .totals p.charsets.size p.combining.size p.entryCount ::
    p.charsets.toList.flatMap Charset.statistics

/-- The text of a table under a policy. -/
def composeText (t : CodeTable) (policy : Policy) : Run String := do
  let compiled ← compile t policy
  Run.report (statistics compiled)
  return render compiled policy.form

/-- What is told of the replacement of a file: the size of the text, or why it is not written. -/
def reportWritten (path text : String) : Except Fault Unit → Run Unit
  | .ok () => Run.report [.written text.utf8ByteSize path]
  | .error fault => Run.silent (.error (.output path fault))

theorem outcome_reportWritten (path text : String) (replaced : Except Fault Unit) :
    (reportWritten path text replaced).outcome = replaced.mapError (.output path) := by
  cases replaced <;> rfl

/-- Replace the file at a path by a text. -/
def writeText (tree : Tree) (here : Location) (refusals : Refusals) (path text : String) :
    Tree × Run Unit :=
  let replaced := tree.replaceFile here refusals (.ofText path) text
  (replaced.1, reportWritten path text replaced.2)

/-- Write the fragment of a table to a path. -/
def generate (tree : Tree) (here : Location) (refusals : Refusals) (t : CodeTable)
    (policy : Policy) (path : String) : Tree × Run Unit :=
  let composed := composeText t policy
  match composed.outcome with
  | .error _ => (tree, composed >>= fun _ => Run.done ())
  | .ok text =>
    let written := writeText tree here refusals path text
    (written.1, composed >>= fun _ => written.2)

end Marc8
