/-
Marc8.Files.Fault — why a file cannot be written.
-/

namespace Marc8.Files

/-- The kinds of refusal that are told apart. -/
inductive FaultKind
  /-- A directory on the way is missing. -/
  | notFound
  /-- The target is a directory. -/
  | isDirectory
  /-- Something on the way is no directory. -/
  | notDirectory
  /-- Anything else. -/
  | other
  deriving DecidableEq, Repr

/-- A refusal and the words in which it is told. -/
structure Fault where
  kind : FaultKind
  text : String
  deriving DecidableEq, Repr

namespace Fault

def notFound : Fault := ⟨.notFound, "No such file or directory (os error 2)"⟩
def isDirectory : Fault := ⟨.isDirectory, "Is a directory (os error 21)"⟩
def notDirectory : Fault := ⟨.notDirectory, "Not a directory (os error 20)"⟩
/-- The target is `.`, `..` or the root, which cannot be replaced. -/
def busy : Fault := ⟨.other, "Device or resource busy (os error 16)"⟩
def nameTooLong : Fault := ⟨.other, "File name too long (os error 36)"⟩
def badName : Fault := ⟨.other, "file name contained an unexpected NUL byte"⟩
/-- The writer was killed. -/
def cutShort : Fault := ⟨.other, "interrupted"⟩

end Fault

end Marc8.Files
