/-
Marc8.Files.Path — from the text of a path to a location.

A path is cut at its slashes into steps. It starts at the root if its text
does, and at the working directory otherwise. An empty step and `.` stay where
they are, `..` goes up (the root is above itself), and any other step enters
the directory of that name.

  `Tree.walk`           — follow steps, all of which have to be directories;
  `Tree.beside`         — the location of a new file in the directory part of a path;
  `Tree.replaceTarget`  — the location that a file renamed to a path would take;
  `Tree.read?`          — the text of a file.

The directory part of a path is what stands in front of its last step, empty
steps and `.` left aside; when nothing stands there it is the working directory.

A path may have 4095 bytes and a name in it 255. The length of a path is
looked at before its first step is taken, and that of a name when the step is
taken, so a path can be too long whether or not it leads somewhere.
-/
import Marc8.Files.Fault
import Marc8.Files.Tree
import Marc8.Text.Lines

namespace Marc8.Files

/-- A path, cut at its slashes. -/
structure Path where
  /-- Does the path start at the root? -/
  absolute : Bool
  /-- What stands between the slashes; there may be empty steps. -/
  steps : List String
  deriving DecidableEq, Repr

namespace Path

/-- The path with a given text. -/
def ofText (text : String) : Path where
  absolute := text.toList.head? = some '/'
  steps := (Text.pieces (· = '/') text.toList).map String.ofList

/-- Is it the path without any text? -/
def isBlank (p : Path) : Bool := !p.absolute && p.steps.all (· = "")

/-- Does the step stay in the same directory? -/
def stays (step : String) : Bool := step = "" || step = "."

/-- Steps up to the last one that leads somewhere. -/
def upToMove (steps : List String) : List String := (steps.reverse.dropWhile stays).reverse

/-- The directory part of a path: its steps without the last one that leads somewhere. -/
def parent (p : Path) : Path :=
  match upToMove p.steps with
  | [] => ⟨false, []⟩
  | steps => ⟨p.absolute, upToMove steps.dropLast⟩

/-- The length of the text of a path, in bytes: a slash stands between two steps. -/
def size (p : Path) : Nat :=
  p.steps.foldr (fun step bytes => step.utf8ByteSize + bytes) (p.steps.length - 1)

/-- The steps without empty ones at the end. -/
def trimmed (p : Path) : List String := (p.steps.reverse.dropWhile (· = "")).reverse

/-- Does the text end in a slash? -/
def trailingSlash (p : Path) : Bool := p.trimmed.length < p.steps.length

/-- Where the path starts, seen from a working directory. -/
def start (p : Path) (here : Location) : Location := if p.absolute then [] else here

/-- The text of a path to a directory; a path without steps is the working directory or the root. -/
def directoryText (p : Path) : String :=
  if p.steps = [] then if p.absolute then "/" else "." else "/".intercalate p.steps

/-- The length of the text of a path to a directory, from the root on and without a slash at its
end. -/
def sizeFromRoot (p : Path) (here : Location) : Nat :=
  if p.absolute then p.size
  else here.foldr (fun name bytes => name.utf8ByteSize + 1 + bytes) (1 + max p.size 1)

/-- No name in a path may hold the character zero. -/
def hasZero (p : Path) : Bool := p.steps.any (·.toList.contains '\x00')

end Path

/-- The longest name, in bytes. -/
def maxName : Nat := 255

/-- The longest path, in bytes. -/
def maxPath : Nat := 4095

namespace Tree

/-- Enter a directory from a directory. -/
def enter (t : Tree) (here : Location) (step : String) : Except Fault Location :=
  if Path.stays step then .ok here
  else if step = ".." then .ok here.dropLast
  else if maxName < step.utf8ByteSize then .error .nameTooLong
  else match t.node? (here ++ [step]) with
    | some .directory => .ok (here ++ [step])
    | some (.file _) => .error .notDirectory
    | none => .error .notFound

/-- Follow steps through directories. -/
def walk (t : Tree) (here : Location) : List String → Except Fault Location
  | [] => .ok here
  | step :: rest =>
    match t.enter here step with
    | .error fault => .error fault
    | .ok next => t.walk next rest

/-- The location of a new file in the directory part of a path. The file is reached by a path from
the root on, which may not be too long. -/
def beside (t : Tree) (here : Location) (p : Path) (name : String) : Except Fault Location :=
  if p.parent.hasZero then .error .badName
  else if maxPath < p.parent.sizeFromRoot here + 1 + name.utf8ByteSize then .error .nameTooLong
  else match t.walk (p.parent.start here) p.parent.steps with
    | .error fault => .error fault
    | .ok directory => .ok (directory ++ [name])

/-- The location that a file takes when it is renamed to a path: not a directory's, and named by
the last step. -/
def replaceTarget (t : Tree) (here : Location) (p : Path) : Except Fault Location :=
  if p.hasZero then .error .badName
  else if p.isBlank then .error .notFound
  else if maxPath < p.size then .error .nameTooLong
  else match p.trimmed.getLast? with
    | none => .error .busy
    | some name =>
      match t.walk (p.start here) p.trimmed.dropLast with
      | .error fault => .error fault
      | .ok directory =>
        if name = "." || name = ".." then .error .busy
        else if maxName < name.utf8ByteSize then .error .nameTooLong
        else if p.trailingSlash then .error .notDirectory
        else match t.node? (directory ++ [name]) with
          | some .directory => .error .isDirectory
          | _ => .ok (directory ++ [name])

/-- The text of the file at a path, if there is one. -/
def read? (t : Tree) (here : Location) (p : Path) : Option String :=
  match t.replaceTarget here p with
  | .error _ => none
  | .ok place =>
    match t.node? place with
    | some (.file content) => String.fromUTF8? content
    | _ => none

/-- The tree with a file put at a path. -/
def put (t : Tree) (here : Location) (p : Path) (text : String) : Tree :=
  match t.replaceTarget here p with
  | .error _ => t
  | .ok place => t.set place (.file text.toUTF8)

/-- The tree with the directories of some steps made. -/
def makeSteps (t : Tree) (here : Location) : List String → Tree
  | [] => t
  | step :: rest =>
    if Path.stays step then t.makeSteps here rest
    else if step = ".." then t.makeSteps here.dropLast rest
    else match t.node? (here ++ [step]) with
      | some _ => t.makeSteps (here ++ [step]) rest
      | none => (t.set (here ++ [step]) .directory).makeSteps (here ++ [step]) rest

/-- The tree with the directory of a path made, and those above it. -/
def makeDirectory (t : Tree) (here : Location) (p : Path) : Tree :=
  t.makeSteps (p.start here) p.steps

end Tree

end Marc8.Files
