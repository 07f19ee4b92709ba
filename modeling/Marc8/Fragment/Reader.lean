/-
Marc8.Fragment.Reader — from the text of a fragment to its value.

The reader goes through the tokens of a text from left to right and never goes
back: what comes next is told by the next few tokens. How the text is laid out
and what ordinary comments say is of no account.

  `Reader`            — a part of the grammar: the value that comes first among
                        some tokens, with the tokens behind it;
  `Fragment.ofText?`  — the fragment of a text, if the text is one.
-/
import Marc8.Fragment.Basic
import Marc8.Fragment.Token
import Marc8.Text.Hex

namespace Marc8.Fragment

open Marc8.Text

/-- What comes first among some tokens, with the tokens behind it. -/
abbrev Reader (α : Type) := StateT (List Token) Option α

namespace Reader

variable {α : Type}

/-! ## Parts of every grammar -/

/-- The tokens behind some given ones, if these come first. -/
def behind : List Token → List Token → Option (List Token)
  | [], tokens => some tokens
  | t :: given, t' :: tokens => if t = t' then behind given tokens else none
  | _ :: _, [] => none

/-- The tokens of a text have to come next. -/
def expect (text : String) : Reader Unit := fun tokens =>
  (behind (Token.ofText text) tokens).map fun rest => ((), rest)

/-- Do the tokens of a text come next? If they do, they are passed. -/
def accept (text : String) : Reader Bool := fun tokens =>
  match behind (Token.ofText text) tokens with
  | some rest => some (true, rest)
  | none => some (false, tokens)

/-- As many items as there are, one behind another. An item has at least one token. -/
def many (item : Reader α) (tokens : List Token) : Option (List α × List Token) :=
  match item tokens with
  | none => some ([], tokens)
  | some (a, rest) =>
    if rest.length < tokens.length then
      (many item rest).map fun (more, rest) => (a :: more, rest)
    else some ([a], rest)
termination_by tokens.length

/-- Items with commas between them, up to a closing bracket. -/
def listed (item : Reader α) : Reader (List α) := do
  if ← accept ")" then return []
  else
    let first ← item
    let more ← many (do expect ","; item)
    expect ")"
    return first :: more

/-! ## Words and literals -/

/-- A word that `meaning` knows. -/
def word (meaning : List Char → Option α) : Reader α
  | .word text :: rest => (meaning text).map fun a => (a, rest)
  | _ => none

/-- A literal that `meaning` knows. -/
def quoted (meaning : List Char → Option α) : Reader α
  | .quoted body :: rest => (meaning body).map fun a => (a, rest)
  | _ => none

/-- A name does not begin with a digit. -/
def name : Reader String := word fun text =>
  match text with
  | [] => none
  | c :: _ => if c.isDigit then none else some (String.ofList text)

/-- A number in base sixteen. -/
def number : Reader UInt32 := word fun text =>
  match text with
  | '0' :: 'x' :: digits => do
    let n ← Hex.ofDigits? digits
    if n < UInt32.size then some (UInt32.ofNat n) else none
  | _ => none

/-- A number in base ten. -/
def decimal : Reader Nat := word fun text =>
  if text ≠ [] ∧ text.all Char.isDigit then some (Nat.ofDigitChars 10 text 0) else none

/-- The character that a literal tells by its number, of six digits at most. -/
def charOfNumber (body : List Char) : Option Char :=
  match body with
  | '\\' :: 'u' :: '\x7b' :: rest =>
    let digits := rest.dropLast
    if rest.getLast? = some '\x7d' ∧ digits.length ≤ 6 then do
      let n ← Hex.ofDigits? digits
      if h : n.isValidChar then some (Char.ofNatAux n h) else none
    else none
  | _ => none

/-- The answer with a character. -/
def charAtom (body : List Char) : Option Atom :=
  if body = [' '] then some .blank else (charOfNumber body).map .found

/-- A line of documentation, if there is one, without the blank in front of it. -/
def documentation : Reader (Option String)
  | .documentation text :: rest =>
    some (some (String.ofList (if text.head? = some ' ' then text.tail else text)), rest)
  | tokens => some (none, tokens)

/-! ## The grammar of fragments -/

/-- What is handed to a call: `x`, or `x ^ n` for some bits flipped. -/
def operand : Reader Operand := do
  let x ← name
  if ← accept "^" then return .flip x (← number) else return .var x

/-- A call: `f(x, y)`. -/
def call : Reader Call := do
  let callee ← name
  expect "("
  return ⟨callee, ← listed operand⟩

/-- A test: `(m ..= n).contains(&x)`, `x <= n` or `x == n`. -/
def test : Reader Test := do
  if ← accept "(" then
    let first ← number
    expect "..="
    let last ← number
    expect ").contains(&"
    let x ← name
    expect ")"
    return .within ⟨first, last⟩ x
  else
    let x ← name
    if ← accept "<=" then return .upTo x (← number)
    else
      expect "=="
      return .equal x (← number)

/-- An answer: `false`, `matches!(x, m | n)`, a value of the type `Lookup`, or a call. -/
def atom : Reader Atom := do
  if ← accept "false" then return .never
  else if ← accept "matches!(" then
    let x ← name
    expect ","
    let value ← number
    let others ← many (do expect "|"; number)
    expect ")"
    return .oneOf x value others
  else if ← accept "Lookup::" then
    if ← accept "Unmapped" then return .unmapped
    else if ← accept "UnknownCharset" then return .unknownCharset
    else
      expect "Char("
      let found ← quoted charAtom
      expect ")"
      return found
  else return .call (← call)

/-- The second half of a row: `None` or `Some(c)`. -/
def cell : Reader (Option Char) := do
  if ← accept "None" then return none
  else
    expect "Some("
    let c ← quoted charOfNumber
    expect ")"
    return some c

/-- A row of an array: `(n, value),`. -/
def row : Reader Entry := do
  expect "("
  let code ← number
  expect ","
  let value ← cell
  expect "),"
  return (code, value)

/-- A statement is told by its first word. -/
def statement : Reader Stmt := do
  if ← accept "let" then
    let x ← name
    expect "= if"
    let condition ← test
    expect "\x7b"
    let yes ← name
    expect "\x7d else \x7b"
    let no ← name
    expect "\x7d;"
    return .pick x condition yes no
  else if ← accept "if" then
    let condition ← test
    expect "\x7b return"
    let answer ← atom
    expect "; \x7d"
    return .returnIf condition answer
  else
    expect "static ENTRIES: [(u32, Option<char>);"
    let length ← decimal
    expect "] = ["
    let rows ← many row
    expect "];"
    return .entries length rows

/-- An arm: `n => answer,`. -/
def arm : Reader (UInt32 × Atom) := do
  let value ← number
  expect "=>"
  let answer ← atom
  expect ","
  return (value, answer)

/-- What follows the word `match`: a search in the array, two calls, or arms for the values of a
variable. -/
def choice : Reader Tail := do
  if ← accept "ENTRIES.binary_search_by_key(&" then
    let x ← name
    expect ", |entry| entry.0) \x7b Ok(index) => match ENTRIES[index].1 \x7b"
    expect "Some(c) => Lookup::Char(c), None => Lookup::Unmapped, \x7d,"
    expect "Err(_) => Lookup::Unmapped, \x7d"
    return .search x
  else
    let subject ← name
    if ← accept "(" then
      let operands ← listed operand
      expect "\x7b Lookup::Unmapped =>"
      let second ← call
      expect ", found => found, \x7d"
      return .orElse ⟨subject, operands⟩ second
    else
      expect "\x7b"
      let arms ← many arm
      expect "_ =>"
      let other ← atom
      expect ", \x7d"
      return .choice subject arms other

/-- What begins with `match` chooses; anything else is the answer. -/
def tail : Reader Tail := do
  if ← accept "match" then choice else return .atom (← atom)

/-- A parameter: `x: u32`. -/
def parameter : Reader String := do
  let x ← name
  expect ": u32"
  return x

/-- What a routine answers with: `bool` or `Lookup`. -/
def result : Reader Result := do
  if ← accept "bool" then return .bool
  else
    expect "Lookup"
    return .lookup

/-- A routine, with the line of documentation in front of it. -/
def routine : Reader Routine := do
  let comment ← documentation
  let exported ← accept "pub"
  expect "fn"
  let name ← name
  expect "("
  let parameters ← listed parameter
  expect "->"
  let result ← result
  expect "\x7b"
  let statements ← many statement
  let tail ← tail
  expect "\x7d"
  return { comment, exported, name, parameters, result, statements, tail }

end Reader

/-- The fragment of a text: routines and nothing behind them. -/
def ofText? (text : String) : Option Fragment :=
  match Reader.many Reader.routine (Token.ofText text) with
  | some (routines, []) => some ⟨routines⟩
  | _ => none

end Marc8.Fragment
