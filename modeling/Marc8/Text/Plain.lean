/-
Marc8.Text.Plain — what a text says besides the control sequences of terminals.

A log that is not shown on a terminal is written without them. A sequence begins
with the escape character. Behind it stand intermediate characters and a final
one; or a bracket, parameters and a final one; or a whole string, which ends at
the string terminator, or, if it is a command for the terminal, at a bell. A
string for a device has a header of its own form, in which it cannot end.
Other control characters are dropped as well, except those that make blanks.

Such a blank may also stand inside of a sequence. It opens an aside, which is
shown like any text. The next control character closes the aside, and the
sequence goes on as if nothing had come between.

  `scan`  — the characters that are shown, and where the text stops;
  `plain` — the text without all that is not shown.
-/

namespace Marc8.Text

namespace Plain

/-- The parts of a sequence, each named for what the next character may belong to. -/
inductive Part
  /-- Right behind the escape character. -/
  | escape
  /-- The intermediate characters of a short sequence. -/
  | intermediate
  /-- The parameters behind a bracket. -/
  | parameters
  /-- The first character of the header of a string for a device. -/
  | header
  /-- The parameters in such a header. -/
  | headerParameters
  /-- The intermediate characters in such a header. -/
  | headerIntermediate
  /-- A string for a device, behind its header, or one for an application. -/
  | string
  /-- A command for the terminal itself. -/
  | command
  deriving DecidableEq, Repr

/-- Where a text stands. -/
inductive State
  /-- Outside of all sequences. -/
  | ground
  /-- In this part of a sequence. -/
  | within (part : Part)
  /-- In an aside that has come into this part of a sequence. -/
  | aside (part : Part)
  deriving DecidableEq, Repr

/-- The control characters that make blanks. -/
def makesBlank (c : Char) : Bool := c = '\t' || c = '\n' || c = '\x0c' || c = '\r'

/-- Is the character shown where it belongs to no sequence? -/
def isShown (c : Char) : Bool := if c < ' ' then makesBlank c else c ≠ '\x7f'

/-- Does the character end a string? The terminator is a byte, and counts inside a character too. -/
def endsString (c : Char) : Bool := (String.utf8EncodeChar c).contains 0x9C

/-- May a blank open an aside here? In strings and their headers it is dropped. -/
def Part.admitsAside : Part → Bool
  | .escape | .intermediate | .parameters => true
  | _ => false

/-- The state behind a character that belongs to a sequence. A character that cannot stand in the
part is dropped and leaves the part open. -/
def Part.advance : Part → Char → State
  | .escape, c =>
    if ' ' ≤ c ∧ c ≤ '/' then .within .intermediate
    else if c = '[' then .within .parameters
    else if c = ']' then .within .command
    else if c = 'P' then .within .header
    else if c = 'X' ∨ c = '^' ∨ c = '_' then .within .string
    else if '0' ≤ c ∧ c ≤ '~' then .ground
    else .within .escape
  | .intermediate, c => if '0' ≤ c ∧ c ≤ '~' then .ground else .within .intermediate
  | .parameters, c => if '@' ≤ c ∧ c ≤ '~' then .ground else .within .parameters
  | .header, c =>
    if ' ' ≤ c ∧ c ≤ '/' then .within .headerIntermediate
    else if '0' ≤ c ∧ c ≤ '?' then .within .headerParameters
    else if '@' ≤ c ∧ c ≤ '~' then .within .string
    else .within .header
  | .headerParameters, c =>
    if ' ' ≤ c ∧ c ≤ '/' then .within .headerIntermediate
    else if '<' ≤ c ∧ c ≤ '~' then .within .string
    else .within .headerParameters
  | .headerIntermediate, c =>
    if '0' ≤ c ∧ c ≤ '~' then .within .string else .within .headerIntermediate
  | .string, c => if endsString c then .ground else .within .string
  | .command, c => if c = '\x07' then .ground else .within .command

/-- The new state after a character, and whether the character is shown. A cancelled sequence ends,
and an escape character begins a new one. An aside ends with its sequence at a character outside of
ASCII, and returns to it at a control character. -/
def step (s : State) (c : Char) : State × Bool :=
  if c = '\x18' ∨ c = '\x1a' then (.ground, false)
  else if c = '\x1b' then (.within .escape, false)
  else match s with
    | .ground => (.ground, isShown c)
    | .within part =>
      if part.admitsAside && makesBlank c then (.aside part, true) else (part.advance c, false)
    | .aside part =>
      if '\x7f' < c then (.ground, true)
      else if isShown c then (.aside part, true)
      else (.within part, false)

/-- The state after some characters, and those of them that are shown. -/
def scan : State → List Char → State × List Char
  | s, [] => (s, [])
  | s, c :: rest =>
    let (s', shown) := step s c
    let (last, more) := scan s' rest
    (last, if shown then c :: more else more)

end Plain

/-- The text without control sequences and control characters. -/
def plain (text : String) : String := String.ofList (Plain.scan .ground text.toList).2

example : plain "a\x1b[31mb\tc\x07" = "ab\tc" := by decide
example : plain "\x1b]0;title\x07x\x1bPq1\x1b\\y" = "xy" := by decide
example : plain "a\x1b[3\tb\x071mc" = "a\tbc" := by decide

end Marc8.Text
