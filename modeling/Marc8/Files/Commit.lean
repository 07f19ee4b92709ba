/-
Marc8.Files.Commit — replacing a file so that nobody ever sees half of it.

The content goes to a temporary file in the directory of the target, piece by
piece, and only when all of it is there and synchronised is the temporary file
renamed to the target. A writer is a value with a stage; `Writer.move` is one
step of it on a tree. A step may be refused, which removes the temporary file
and ends the writer; a writer that is never moved again has been killed.

Several writers can share a tree: their moves are then interleaved.
`Tree.replaceFile` is the run of one writer alone, under a fresh temporary
name; a refusal can be prescribed for any of its steps. `Writer.attempts` are
the moves of a writer that cannot know which names the others have taken, and
tries some one after another.
-/
import Marc8.Files.Path

namespace Marc8.Files

/-- How far a writer has come. -/
inductive Stage
  /-- Nothing has been done. -/
  | waiting
  /-- The temporary file holds the first `written` bytes. -/
  | filling (temporary : Location) (written : Nat)
  /-- The temporary file holds all bytes, and they are on the disk. -/
  | synced (temporary : Location)
  /-- The target holds all bytes. -/
  | committed
  /-- A step was refused. -/
  | failed (fault : Fault)

/-- One atomic replacement of a file. -/
structure Writer where
  /-- The working directory. -/
  here : Location
  target : Path
  content : ByteArray
  stage : Stage

/-- What can happen to a writer next. -/
inductive Move
  /-- Create the temporary file under a name. -/
  | create (name : String)
  /-- Write a number of bytes more. -/
  | append (count : Nat)
  | sync
  | rename
  /-- The next step is refused by the system. -/
  | refuse (fault : Fault)

namespace Writer

/-- The writer in another stage. -/
def withStage (w : Writer) (stage : Stage) : Writer := { w with stage }

/-- Remove the temporary file and end. -/
def abandon (w : Writer) (t : Tree) (fault : Fault) : Tree × Writer :=
  match w.stage with
  | .waiting => (t, w.withStage (.failed fault))
  | .filling temporary _ => (t.remove temporary, w.withStage (.failed fault))
  | .synced temporary => (t.remove temporary, w.withStage (.failed fault))
  | .committed => (t, w)
  | .failed _ => (t, w)

/-- One move of a writer. A move that does not fit the stage changes nothing. -/
def move (w : Writer) (t : Tree) : Move → Tree × Writer
  | .create name =>
    match w.stage with
    | .waiting =>
      match t.beside w.here w.target name with
      | .error fault => w.abandon t fault
      | .ok temporary =>
        match t.node? temporary with
        | some _ => (t, w)
        | none => (t.set temporary (.file .empty), w.withStage (.filling temporary 0))
    | _ => (t, w)
  | .append count =>
    match w.stage with
    | .filling temporary written =>
      let more := min (written + count) w.content.size
      (t.set temporary (.file (w.content.extract 0 more)), w.withStage (.filling temporary more))
    | _ => (t, w)
  | .sync =>
    match w.stage with
    | .filling temporary written =>
      if written = w.content.size then (t, w.withStage (.synced temporary)) else (t, w)
    | _ => (t, w)
  | .rename =>
    match w.stage with
    | .synced temporary =>
      match t.replaceTarget w.here w.target, t.node? temporary with
      | .error fault, _ => w.abandon t fault
      | .ok _, none => w.abandon t .notFound
      | .ok place, some node => ((t.remove temporary).set place node, w.withStage .committed)
    | _ => (t, w)
  | .refuse fault => w.abandon t fault

/-- Several moves of one writer alone. -/
def moves (w : Writer) (t : Tree) : List Move → Tree × Writer
  | [] => (t, w)
  | m :: rest => (w.move t m).2.moves (w.move t m).1 rest

/-- How the writer ended. One that has not ended counts as cut short. -/
def result (w : Writer) : Except Fault Unit :=
  match w.stage with
  | .committed => .ok ()
  | .failed fault => .error fault
  | _ => .error .cutShort

end Writer

/-- The steps of a replacement. -/
inductive Step
  | create
  | append
  | sync
  | rename
  deriving DecidableEq, Repr

/-- Refusals prescribed by the system: for each step, whether and why it is refused. -/
abbrev Refusals := Step → Option Fault

/-- No step is refused by the system. -/
def Refusals.none : Refusals := fun _ => .none

/-- A move, unless its step is refused. -/
def Refusals.guard (refusals : Refusals) (step : Step) (m : Move) : Move :=
  match refusals step with
  | some fault => .refuse fault
  | .none => m

/-! ## Temporary names -/

/-- The names for temporary files, one for every number: it has six digits at least. -/
def temporaryName (n : Nat) : String :=
  let digits := Nat.toDigits 10 n
  ".tmp" ++ String.ofList (List.replicate (6 - digits.length) '0' ++ digits)

/-- A name for a temporary file that is not among the used ones: of so many names one more than
there are used ones, one is free. -/
def freshName (used : List String) : String :=
  let candidates := (List.range (used.length + 1)).map temporaryName
  (candidates.find? fun name => !used.contains name).getD (temporaryName 0)

/-- Names for temporary files, by their numbers from the first on. A name that is a step of the
target is left out: the file would be in the way of the path. -/
def candidateNames (first count : Nat) (target : Path) : List String :=
  ((List.range count).map fun i => temporaryName (first + i)).filter fun name =>
    !target.steps.contains name

/-- The moves of one replacement in company. A name that is taken by then leaves the writer waiting,
and the next one is tried; behind the first that is free, the tries do not fit any more. -/
def Writer.attempts (names : List String) (size : Nat) : List Move :=
  names.map .create ++ [.append size, .sync, .rename]

namespace Tree

/-- The moves of one replacement without company. The temporary file takes a name that stands
nowhere in the tree and is no step of the target, so it is in nobody's way. -/
def schedule (t : Tree) (refusals : Refusals) (target : Path) (size : Nat) : List Move :=
  let name := freshName (t.nodes.keys.flatten ++ target.steps)
  [refusals.guard .create (.create name), refusals.guard .append (.append size),
    refusals.guard .sync .sync, refusals.guard .rename .rename]

/-- Replace the file at a path, or make it, in one step as seen from outside. -/
def replaceFile (t : Tree) (here : Location) (refusals : Refusals) (target : Path)
    (text : String) : Tree × Except Fault Unit :=
  let content := text.toUTF8
  let writer : Writer := ⟨here, target, content, .waiting⟩
  let final := writer.moves t (t.schedule refusals target content.size)
  (final.1, final.2.result)

end Tree

end Marc8.Files
