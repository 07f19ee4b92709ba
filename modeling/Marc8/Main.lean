/-
Marc8.Main — the program.

What the arguments ask for is decided by `Marc8.CommandLine`, and the text and
its events are composed by `Marc8.Generate`; a file is replaced by the moves of
`Writer.attempts`. Here all this is carried out on the file system and on the
standard streams.

A move does there what `Writer.move` does on a tree, as far as the calls reach:
none of them puts a file on the disk, so `sync` hands the bytes to the system,
and when they reach the disk is left to it. Of a log the times and the names of
modules are not shown.
-/
import Marc8.CommandLine

namespace Marc8.Program

open Marc8.CommandLine Marc8.Files

/-- How far a writer has come on the file system: its `Stage`, with the open file. -/
inductive Progress
  | waiting
  | filling (temporary : String) (handle : IO.FS.Handle) (written : Nat)
  | synced (temporary : String)
  | committed

/-- The directory part of a path, from the root on. -/
def directoryOf (path : String) : IO String := do
  let parent := (Path.ofText path).parent
  if parent.absolute then
    return parent.directoryText
  return (← IO.currentDir).toString ++ "/" ++ parent.directoryText

/-- Carry out a move. One that does not fit changes nothing, and so does a name that is taken. -/
def carryOut (path : String) (content : ByteArray) (progress : Progress) (m : Move) :
    IO Progress := do
  match m, progress with
  | .create name, .waiting =>
    let temporary := (← directoryOf path) ++ "/" ++ name
    try
      return .filling temporary (← IO.FS.Handle.mk temporary .writeNew) 0
    catch
      | .alreadyExists .. => return .waiting
      | refusal => throw refusal
  | .append count, .filling temporary handle written =>
    let more := min (written + count) content.size
    handle.write (content.extract written more)
    return .filling temporary handle more
  | .sync, .filling temporary handle written =>
    handle.flush
    return if written = content.size then .synced temporary else progress
  | .rename, .synced temporary =>
    IO.FS.rename temporary path
    return .committed
  | .refuse fault, _ => throw (IO.userError fault.text)
  | _, _ => return progress

/-- Remove the temporary file, if there is one that can be removed. -/
def abandon : Progress → IO Unit
  | .filling temporary _ _ | .synced temporary =>
    try IO.FS.removeFile temporary catch _ => return
  | .waiting | .committed => return

/-- Carry out moves one after another. The first that is refused ends them. -/
def carryOutAll (path : String) (content : ByteArray) (progress : Progress) :
    List Move → IO (Except Fault Unit)
  | [] =>
    match progress with
    | .committed => return .ok ()
    | _ => return .error ⟨.other, "too many temporary files exist"⟩
  | m :: rest => do
    let result ← try pure (Except.ok (← carryOut path content progress m))
      catch refusal => pure (Except.error (toString refusal))
    match result with
    | .ok next => carryOutAll path content next rest
    | .error refusal =>
      abandon progress
      return .error ⟨.other, refusal⟩

/-- How many names are tried for a temporary file. -/
def tries : Nat := 4096

/-- Replace the file at a path, or make it. -/
def replaceFile (path text : String) : IO (Except Fault Unit) := do
  let content := text.toUTF8
  -- the numbers behind the first one still have six digits
  let first := (← IO.monoNanosNow) % (1000000 - tries)
  let names := candidateNames first tries (.ofText path)
  carryOutAll path content .waiting (Writer.attempts names content.size)

/-- Show the log of some events. -/
def showEvents (events : List Event) : IO Unit :=
  for (level, message) in log events do
    IO.eprintln (level.text ++ " " ++ message)

/-- Show why nothing was generated. -/
def showFailure (failure : Failure) : IO Unit := do
  IO.eprintln ("Error: " ++ failure.message)
  if let some cause := failure.causeText then
    IO.eprintln ("\nCaused by:\n    " ++ cause)

/-- Generate the fragment of the bundled table, and show what is reported before the file is
touched and behind it. -/
def generate (output : String) : IO UInt32 := do
  let composed := composeText Bundled.table .standard
  showEvents composed.events
  let written : Run Unit ← match composed.outcome with
    | .error failure => pure (.silent (.error failure))
    | .ok text => reportWritten output text <$> replaceFile output text
  showEvents written.events
  match written.outcome with
  | .ok () => return 0
  | .error failure =>
    showFailure failure
    return 1

end Marc8.Program

/-- Run the program. -/
def main (arguments : List String) : IO UInt32 := do
  match Marc8.CommandLine.Invocation.ofArguments arguments with
  | .help topic =>
    IO.print (Marc8.CommandLine.helpText topic)
    return 0
  | .version =>
    IO.print Marc8.CommandLine.versionText
    return 0
  | .generate output => Marc8.Program.generate output
  | .misuse =>
    IO.eprint (Marc8.CommandLine.helpText .program)
    return 2
