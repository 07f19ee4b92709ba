/-
Marc8.Fragment.Basic — the emitted code as a value.

A compiled table is emitted in a small part of a programming language, which
this module describes. A fragment is a list of routines; a routine has numbers
as parameters, some statements, and a last expression that is its answer:

  `Stmt`  — set a variable by a test, return at once if a test holds, or
            declare the sorted array of the routine;
  `Tail`  — a choice by a number with a last arm for all others, a second call
            after an empty answer, or a search in the array;
  `Atom`  — an answer that is at hand, or that a call gives;
  `Call`  — a routine by its name, with what is handed to it;
  `Test`  — a comparison of a number.

A fragment is written by `Marc8.Fragment.Text` and read by
`Marc8.Fragment.Reader`; `Marc8.Fragment.Meaning` says what it computes, and
`Marc8.Fragment.Emit` has the fragment of a compiled table.
-/
import Marc8.CodeTable
import Marc8.Span

namespace Marc8.Fragment

/-- A number that is handed to a call. -/
inductive Operand
  /-- A variable. -/
  | var (name : String)
  /-- A variable with some bits flipped. -/
  | flip (name : String) (bits : UInt32)
  deriving DecidableEq, Repr

/-- A routine by its name, with what is handed to it. -/
structure Call where
  callee : String
  operands : List Operand
  deriving DecidableEq, Repr

/-- A comparison of a variable. -/
inductive Test
  | upTo (name : String) (bound : UInt32)
  | equal (name : String) (value : UInt32)
  | within (span : Span) (name : String)
  deriving DecidableEq, Repr

/-- An answer that is at hand, or that a call gives. -/
inductive Atom
  /-- No. -/
  | never
  /-- Is the variable one of these numbers? There is one at least. -/
  | oneOf (name : String) (value : UInt32) (others : List UInt32)
  /-- The charset has nothing there. -/
  | unmapped
  /-- There is no such charset. -/
  | unknownCharset
  /-- A character, written by its number. -/
  | found (c : Char)
  /-- The space, written as itself. -/
  | blank
  /-- What a routine answers. -/
  | call (call : Call)
  deriving DecidableEq, Repr

/-- The expression that a routine ends with. -/
inductive Tail
  | atom (answer : Atom)
  /-- The arm with the value of the variable, from the top; `other` if there is none. -/
  | choice (name : String) (arms : List (UInt32 × Atom)) (other : Atom)
  /-- What `first` answers, or `second` if that is unmapped. -/
  | orElse (first second : Call)
  /-- The entry of the routine's array for the value of the variable, found by halving. -/
  | search (name : String)
  deriving DecidableEq, Repr

/-- A statement. -/
inductive Stmt
  /-- Set a variable to that of two others which a test tells. -/
  | pick (name : String) (test : Test) (yes no : String)
  /-- Answer at once if a test holds. -/
  | returnIf (test : Test) (answer : Atom)
  /-- The array of the routine, with its length declared. -/
  | entries (length : Nat) (rows : List Entry)
  deriving DecidableEq, Repr

/-- What a routine answers with. -/
inductive Result
  | bool
  | lookup
  deriving DecidableEq, Repr

/-- A routine. -/
structure Routine where
  /-- The line of comment in front of it. -/
  comment : Option String := none
  /-- Can it be called from outside? -/
  exported : Bool := false
  name : String
  parameters : List String
  result : Result
  statements : List Stmt
  tail : Tail
  deriving DecidableEq, Repr

end Marc8.Fragment

namespace Marc8

/-- The emitted code. -/
structure Fragment where
  routines : List Fragment.Routine
  deriving DecidableEq, Repr

end Marc8
