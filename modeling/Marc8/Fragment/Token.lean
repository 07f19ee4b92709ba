/-
Marc8.Fragment.Token — the text of a fragment as a list of tokens.

A token is a word (a name, a keyword or a number), a literal between single
quotes, a line of documentation, or a single character of another kind. Blanks
and ordinary comments separate tokens and are dropped.

The scanner is a machine that goes through the text once. Its state holds the
token that the next character may continue; `step` says what one character
does, and `scan` follows a whole text:

  `scan_append` — a text is scanned piece by piece, each piece from the state
                  that the piece before it has left.
-/
import Marc8.Text.Blank

namespace Marc8.Fragment

/-- A token. -/
inductive Token
  /-- Letters, digits and underscores. -/
  | word (text : List Char)
  /-- A literal, without its quotes. -/
  | quoted (body : List Char)
  /-- A line of documentation, without the slashes in front of it. -/
  | documentation (text : List Char)
  /-- Any other character. -/
  | mark (c : Char)
  deriving DecidableEq, Repr

namespace Token

/-- Can the character stand in a word? -/
def isWordChar (c : Char) : Bool := c.isAlphanum || c = '_'

/-- What the next character may continue. -/
inductive State
  | between
  | word (sofar : List Char)
  | quoted (sofar : List Char)
  /-- One slash. -/
  | slash
  /-- Two slashes. -/
  | slashes
  /-- An ordinary comment, up to the end of the line. -/
  | comment
  | documentation (sofar : List Char)
  deriving DecidableEq, Repr

/-- A character with which something new begins. -/
def start (c : Char) : State × List Token :=
  if isWordChar c then (.word [c], [])
  else if Text.isBlank c then (.between, [])
  else if c = '\'' then (.quoted [], [])
  else if c = '/' then (.slash, [])
  else (.between, [.mark c])

/-- The new state after one character, and the tokens that it completes. A quote ends a literal
unless it stands right behind a backslash that begins it. -/
def step : State → Char → State × List Token
  | .between, c => start c
  | .word sofar, c =>
    if isWordChar c then (.word (sofar ++ [c]), []) else ((start c).1, .word sofar :: (start c).2)
  | .quoted sofar, c =>
    if c = '\'' ∧ sofar ≠ ['\\'] then (.between, [.quoted sofar])
    else (.quoted (sofar ++ [c]), [])
  | .slash, c => if c = '/' then (.slashes, []) else ((start c).1, .mark '/' :: (start c).2)
  | .slashes, c =>
    if c = '/' then (.documentation [], [])
    else if c = '\n' then (.between, [])
    else (.comment, [])
  | .comment, c => if c = '\n' then (.between, []) else (.comment, [])
  | .documentation sofar, c =>
    if c = '\n' then (.between, [.documentation sofar]) else (.documentation (sofar ++ [c]), [])

/-- The token that the end of the text completes. -/
def finish : State → List Token
  | .between => []
  | .word sofar => [.word sofar]
  | .quoted sofar => [.quoted sofar]
  | .slash => [.mark '/']
  | .slashes => []
  | .comment => []
  | .documentation sofar => [.documentation sofar]

/-- The state after some characters, and the tokens that they complete. -/
def scan : State → List Char → State × List Token
  | s, [] => (s, [])
  | s, c :: rest => ((scan (step s c).1 rest).1, (step s c).2 ++ (scan (step s c).1 rest).2)

/-- The tokens of a text. -/
def ofText (text : String) : List Token :=
  (scan .between text.toList).2 ++ finish (scan .between text.toList).1

/-- What follows a piece of text is scanned from the state that the piece has left. -/
theorem scan_append (s : State) (front back : List Char) :
    scan s (front ++ back) =
      ((scan (scan s front).1 back).1, (scan s front).2 ++ (scan (scan s front).1 back).2) := by
  induction front generalizing s with
  | nil => simp [scan]
  | cons c rest ih => simp [scan, ih]

example : ofText "a /// b'\n'\\u\x7b41\x7d' // c\n0x1F" =
    [.word ['a'], .documentation " b'".toList, .quoted "\\u\x7b41\x7d".toList,
      .word "0x1F".toList] := by decide

end Token

end Marc8.Fragment
