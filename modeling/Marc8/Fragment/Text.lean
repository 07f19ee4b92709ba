/-
Marc8.Fragment.Text — the text of a fragment.

The text is made of lines, each ended by a line feed: a header of three lines,
then for every routine an empty line, its comment, its signature, its statements
and, behind an empty line if there are statements, its last expression. Numbers
are written in base sixteen with capital letters. Characters are written by
their number, so that no line depends on how a character looks; only the answer
for the space is written as a space.

Curly brackets are part of the emitted language; they are named here because
inside strings they would be taken for insertions.
-/
import Marc8.Fragment.Basic
import Marc8.Text.Lines

namespace Marc8.Fragment

open Marc8.Text

/-- The opening curly bracket. -/
def opening : String := "\x7b"

/-- The closing curly bracket. -/
def closing : String := "\x7d"

/-- A character by its number. -/
def charLiteral (c : Char) : String :=
  "'\\u" ++ opening ++ String.ofList (Hex.upper c.val) ++ closing ++ "'"

def Operand.text : Operand → String
  | var name => name
  | flip name bits => name ++ " ^ " ++ Hex.literal bits

def Call.text (c : Call) : String :=
  c.callee ++ "(" ++ ", ".intercalate (c.operands.map Operand.text) ++ ")"

def Test.text : Test → String
  | upTo name bound => name ++ " <= " ++ Hex.literal bound
  | equal name value => name ++ " == " ++ Hex.literal value
  | within span name =>
    "(" ++ Hex.literal span.first ++ " ..= " ++ Hex.literal span.last ++ ").contains(&" ++ name
      ++ ")"

def Atom.text : Atom → String
  | never => "false"
  | oneOf name value others =>
    "matches!(" ++ name ++ ", " ++ " | ".intercalate ((value :: others).map Hex.literal) ++ ")"
  | unmapped => "Lookup::Unmapped"
  | unknownCharset => "Lookup::UnknownCharset"
  | found c => "Lookup::Char(" ++ charLiteral c ++ ")"
  | blank => "Lookup::Char(' ')"
  | call c => c.text

/-- The second half of an entry in an array. -/
def cellText : Option Char → String
  | some c => "Some(" ++ charLiteral c ++ ")"
  | none => "None"

def Stmt.lines : Stmt → List String
  | pick name test yes no =>
    ["    let " ++ name ++ " = if " ++ test.text ++ " " ++ opening ++ " " ++ yes ++ " " ++ closing
      ++ " else " ++ opening ++ " " ++ no ++ " " ++ closing ++ ";"]
  | returnIf test answer =>
    ["    if " ++ test.text ++ " " ++ opening,
      "        return " ++ answer.text ++ ";",
      "    " ++ closing]
  | entries length rows =>
    ["    static ENTRIES: [(u32, Option<char>); " ++ toString length ++ "] = ["]
    ++ rows.map (fun row => "        (" ++ Hex.literal row.1 ++ ", " ++ cellText row.2 ++ "),")
    ++ ["    ];"]

def Tail.lines : Tail → List String
  | atom answer => ["    " ++ answer.text]
  | choice name arms other =>
    ["    match " ++ name ++ " " ++ opening]
    ++ arms.map (fun arm => "        " ++ Hex.literal arm.1 ++ " => " ++ arm.2.text ++ ",")
    ++ ["        _ => " ++ other.text ++ ",", "    " ++ closing]
  | orElse first second =>
    ["    match " ++ first.text ++ " " ++ opening,
      "        Lookup::Unmapped => " ++ second.text ++ ",",
      "        found => found,",
      "    " ++ closing]
  | search name =>
    ["    match ENTRIES.binary_search_by_key(&" ++ name ++ ", |entry| entry.0) " ++ opening,
      "        Ok(index) => match ENTRIES[index].1 " ++ opening,
      "            Some(c) => Lookup::Char(c),",
      "            None => Lookup::Unmapped,",
      "        " ++ closing ++ ",",
      "        Err(_) => Lookup::Unmapped,",
      "    " ++ closing]

def Result.text : Result → String
  | bool => "bool"
  | lookup => "Lookup"

namespace Routine

/-- The name, the parameters and the result of a routine. -/
def signature (r : Routine) : String :=
  (if r.exported then "pub " else "") ++ "fn " ++ r.name ++ "("
    ++ ", ".intercalate (r.parameters.map (· ++ ": u32")) ++ ") -> " ++ r.result.text

/-- The lines of a routine without its comment. -/
def definition (r : Routine) : List String :=
  [r.signature, opening]
  ++ r.statements.flatMap Stmt.lines
  ++ (if r.statements.isEmpty then [] else [""])
  ++ r.tail.lines
  ++ [closing]

/-- The lines of a routine, with the empty line in front of it. -/
def lines (r : Routine) : List String :=
  [""] ++ (r.comment.map ("/// " ++ ·)).toList ++ r.definition

end Routine

/-- The lines in front of the first routine. They hold no date and no path, so that equal tables
have equal texts. -/
def header : List String :=
  ["// Таблица перекодировки MARC-8 -> Unicode.",
    "// Сгенерировано marc8_codetable_prepare, не редактировать вручную.",
    "// Подключается через include! в модуль, где доступен тип Lookup."]

/-- The lines of a fragment. -/
def lines (f : Fragment) : List String := header ++ f.routines.flatMap Routine.lines

/-- The text of a fragment. -/
def text (f : Fragment) : String := ofLines f.lines

end Marc8.Fragment
