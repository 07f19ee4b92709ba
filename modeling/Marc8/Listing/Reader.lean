/-
Marc8.Listing.Reader — from a listing to a table.

The reader carries a draft from line to line: the multi-byte selector if it has
been named, the charset that is open, the pages and the combining codes so far.
Each statement is carried out on the draft or refused with a fault; the first
fault ends the reading with the number of its line. At the end the draft has to
name the multi-byte charset.

  `Draft.carryOut` — one statement;
  `Draft.readLine` — one line;
  `read`           — the whole listing.
-/
import Marc8.CodeTable
import Marc8.Listing.Statement

namespace Marc8.Listing

open Marc8.Text

/-- The table as far as it has been read. -/
structure Draft where
  /-- The multi-byte selector, once a line has named it. -/
  multibyte : Option Selector := none
  /-- The selector of the charset that is open for entries. -/
  current : Option Selector := none
  /-- The charsets so far. -/
  pages : Assoc Selector Page := .empty
  /-- The combining codes so far. -/
  combining : Assoc Selector (List Code) := .empty

/-- The number of a field. -/
def number (field : Field) : Except Fault UInt32 :=
  match Numeral.read field with
  | .ok n => .ok n
  | .error cause => .error (.numeral field cause)

/-- The numbers of several fields; the first bad one counts. -/
def numbers : List Field → Except Fault (List UInt32)
  | [] => .ok []
  | field :: rest =>
    match number field with
    | .error fault => .error fault
    | .ok n =>
      match numbers rest with
      | .error fault => .error fault
      | .ok ns => .ok (n :: ns)

/-- The character with a given number: no surrogate, and within the planes. -/
def character? (n : UInt32) : Option Char :=
  if h : n.isValidChar then some ⟨n, h⟩ else none

/-- What an entry maps its code to: `-` stands for nothing. -/
def target (field : Field) : Except Fault (Option Char) :=
  if field = ['-'] then .ok none
  else
    match number field with
    | .error fault => .error fault
    | .ok n =>
      match character? n with
      | some c => .ok (some c)
      | none => .error (.notCharacter n)

namespace Draft

/-- Carry out one statement. -/
def carryOut (d : Draft) : Statement → Except Fault Draft
  | .multibyte field =>
    match d.multibyte with
    | some _ => .error .multibyteAgain
    | none =>
      match number field with
      | .error fault => .error fault
      | .ok selector => .ok { d with multibyte := some selector }
  | .charset field =>
    match number field with
    | .error fault => .error fault
    | .ok selector =>
      if d.pages.contains selector then .error (.charsetAgain selector)
      else .ok { d with current := some selector, pages := d.pages.insert selector .empty }
  | .combining field codes =>
    match number field with
    | .error fault => .error fault
    | .ok selector =>
      match numbers codes with
      | .error fault => .error fault
      | .ok more =>
        .ok { d with combining :=
          d.combining.insert selector ((d.combining.find? selector).getD [] ++ more) }
  | .entry codeField valueField =>
    match d.current with
    | none => .error .outsideCharset
    | some selector =>
      match number codeField with
      | .error fault => .error fault
      | .ok code =>
        match target valueField with
        | .error fault => .error fault
        | .ok value =>
          let page := (d.pages.find? selector).getD .empty
          if page.contains code then .error (.codeAgain code selector)
          else .ok { d with pages := d.pages.insert selector (page.insert code value) }

/-- Read one line. -/
def readLine (d : Draft) (line : List Char) : Except Fault Draft :=
  match Statement.ofLine line with
  | .error fault => .error fault
  | .ok none => .ok d
  | .ok (some statement) => d.carryOut statement

/-- Read lines, the first of which has the given number. -/
def readLines (d : Draft) (first : Nat) : List (List Char) → Except Error Draft
  | [] => .ok d
  | line :: rest =>
    match d.readLine line with
    | .error fault => .error ⟨first, fault⟩
    | .ok d' => d'.readLines (first + 1) rest

/-- The table of a finished draft. -/
def close (d : Draft) : Except Error CodeTable :=
  match d.multibyte with
  | none => .error ⟨0, .noMultibyte⟩
  | some multibyte => .ok ⟨multibyte, d.pages, d.combining⟩

end Draft

/-- The table that a listing describes. -/
def read (text : String) : Except Error CodeTable :=
  match ({} : Draft).readLines 1 (lines text.toList) with
  | .error e => .error e
  | .ok d => d.close

end Marc8.Listing
