/-
Marc8.Proofs.Fragment.Printing — the tokens of an emitted text.

Every part of the grammar has a list of tokens, written with the fixed tokens
that the reader expects, and its text is scanned into them. So the scanner needs
no further attention: what is read is the tokens of the fragment, whatever the
blanks between them are (`ofText_text`).

This asks of a fragment that its names are names: words that do not begin with a
digit and that the grammar has no use of its own for, and that a comment is no
longer than its line (`Printable`).
-/
import Marc8.Proofs.Fragment.Scanning

namespace Marc8.Fragment

open Token Text

/-! ## Names -/

/-- Words that the grammar has a use of its own for. -/
def reserved : List String :=
  ["let", "if", "static", "match", "matches", "false", "Lookup", "ENTRIES"]

/-- A word that is read as a name and as nothing else. -/
structure IsName (x : String) : Prop where
  word : IsWord x
  start : x.toList.head?.any Char.isDigit = false
  free : x ∉ reserved

instance (x : String) : Decidable (IsName x) :=
  decidable_of_iff (IsWord x ∧ x.toList.head?.any Char.isDigit = false ∧ x ∉ reserved)
    ⟨fun h => ⟨h.1, h.2.1, h.2.2⟩, fun h => ⟨h.word, h.start, h.free⟩⟩

def Operand.names : Operand → List String
  | var x => [x]
  | flip x _ => [x]

def Call.names (c : Call) : List String := c.callee :: c.operands.flatMap Operand.names

def Test.names : Test → List String
  | upTo x _ => [x]
  | equal x _ => [x]
  | within _ x => [x]

def Atom.names : Atom → List String
  | oneOf x _ _ => [x]
  | call c => c.names
  | _ => []

def Stmt.names : Stmt → List String
  | pick x test yes no => x :: yes :: no :: test.names
  | returnIf test answer => test.names ++ answer.names
  | entries _ _ => []

def Tail.names : Tail → List String
  | atom answer => answer.names
  | choice x arms other => x :: arms.flatMap (·.2.names) ++ other.names
  | orElse first second => first.names ++ second.names
  | search x => [x]

/-- The text does not go beyond its line. -/
def OneLine (text : String) : Prop := '\n' ∉ text.toList

/-- The names in the routine are names, and its comment is no longer than a line. -/
structure Routine.Printable (r : Routine) : Prop where
  comment : ∀ c ∈ r.comment, OneLine c
  name : IsName r.name
  parameters : ∀ x ∈ r.parameters, IsName x
  statements : ∀ stmt ∈ r.statements, ∀ x ∈ stmt.names, IsName x
  tail : ∀ x ∈ r.tail.names, IsName x

/-- All routines can be printed. -/
def Printable (f : Fragment) : Prop := ∀ r ∈ f.routines, r.Printable

/-! ## Tokens -/

/-- The token of a name. -/
abbrev nameToken (x : String) : Token := .word x.toList

/-- The token of a number. -/
abbrev numberToken (n : UInt32) : Token := .word (Hex.literal n).toList

/-- The tokens of items with commas between them, up to the closing bracket. -/
def listTokens {α : Type} (tokens : α → List Token) : List α → List Token
  | [] => ofText ")"
  | first :: more => tokens first ++ more.flatMap (fun a => ofText "," ++ tokens a) ++ ofText ")"

def Operand.tokens : Operand → List Token
  | var x => [nameToken x]
  | flip x bits => [nameToken x] ++ ofText "^" ++ [numberToken bits]

def Call.tokens (c : Call) : List Token :=
  [nameToken c.callee] ++ ofText "(" ++ listTokens Operand.tokens c.operands

def Test.tokens : Test → List Token
  | upTo x bound => [nameToken x] ++ ofText "<=" ++ [numberToken bound]
  | equal x value => [nameToken x] ++ ofText "==" ++ [numberToken value]
  | within span x =>
    ofText "(" ++ [numberToken span.first] ++ ofText "..=" ++ [numberToken span.last]
      ++ ofText ").contains(&" ++ [nameToken x] ++ ofText ")"

def Atom.tokens : Atom → List Token
  | never => ofText "false"
  | oneOf x value others =>
    ofText "matches!(" ++ [nameToken x] ++ ofText "," ++ ([numberToken value]
      ++ others.flatMap fun n => ofText "|" ++ [numberToken n]) ++ ofText ")"
  | unmapped => ofText "Lookup::" ++ ofText "Unmapped"
  | unknownCharset => ofText "Lookup::" ++ ofText "UnknownCharset"
  | found c => ofText "Lookup::" ++ ofText "Char(" ++ [.quoted (charBody c)] ++ ofText ")"
  | blank => ofText "Lookup::" ++ ofText "Char(" ++ [.quoted [' ']] ++ ofText ")"
  | call c => c.tokens

/-- The tokens of the second half of a row. -/
def cellTokens : Option Char → List Token
  | some c => ofText "Some(" ++ [.quoted (charBody c)] ++ ofText ")"
  | none => ofText "None"

/-- The tokens of a row of an array. -/
def rowTokens (row : Entry) : List Token :=
  ofText "(" ++ [numberToken row.1] ++ ofText "," ++ cellTokens row.2 ++ ofText "),"

def Stmt.tokens : Stmt → List Token
  | pick x test yes no =>
    ofText "let" ++ [nameToken x] ++ ofText "= if" ++ test.tokens ++ ofText "\x7b"
      ++ [nameToken yes] ++ ofText "\x7d else \x7b" ++ [nameToken no] ++ ofText "\x7d;"
  | returnIf test answer =>
    ofText "if" ++ test.tokens ++ ofText "\x7b return" ++ answer.tokens ++ ofText "; \x7d"
  | entries length rows =>
    ofText "static ENTRIES: [(u32, Option<char>);" ++ [nameToken (toString length)]
      ++ ofText "] = [" ++ rows.flatMap rowTokens ++ ofText "];"

/-- The tokens of an arm. -/
def armTokens (arm : UInt32 × Atom) : List Token :=
  [numberToken arm.1] ++ ofText "=>" ++ arm.2.tokens ++ ofText ","

def Tail.tokens : Tail → List Token
  | atom answer => answer.tokens
  | choice x arms other =>
    ofText "match" ++ [nameToken x] ++ ofText "\x7b" ++ arms.flatMap armTokens ++ ofText "_ =>"
      ++ other.tokens ++ ofText ", \x7d"
  | orElse first second =>
    ofText "match" ++ first.tokens ++ ofText "\x7b Lookup::Unmapped =>" ++ second.tokens
      ++ ofText ", found => found, \x7d"
  | search x =>
    ofText "match" ++ ofText "ENTRIES.binary_search_by_key(&" ++ [nameToken x]
      ++ ofText ", |entry| entry.0) \x7b Ok(index) => match ENTRIES[index].1 \x7b"
      ++ ofText "Some(c) => Lookup::Char(c), None => Lookup::Unmapped, \x7d,"
      ++ ofText "Err(_) => Lookup::Unmapped, \x7d"

/-- The tokens of a parameter. -/
def parameterTokens (x : String) : List Token := [nameToken x] ++ ofText ": u32"

def Routine.tokens (r : Routine) : List Token :=
  r.comment.toList.map (fun c => .documentation (' ' :: c.toList))
    ++ (if r.exported then ofText "pub" else []) ++ ofText "fn" ++ [nameToken r.name]
    ++ ofText "(" ++ listTokens parameterTokens r.parameters ++ ofText "->"
    ++ ofText r.result.text ++ ofText "\x7b" ++ r.statements.flatMap Stmt.tokens
    ++ r.tail.tokens ++ ofText "\x7d"

/-- The tokens of a fragment. -/
def tokens (f : Fragment) : List Token := f.routines.flatMap Routine.tokens

/-! ## Small parts -/

theorem IsName.spells {x : String} (h : IsName x) : Spells x [nameToken x] := spells_word h.word

theorem spells_number (n : UInt32) : Spells (Hex.literal n) [numberToken n] :=
  spells_word (isWord_literal n)

/-- A variable and a number with an operator between them. -/
theorem IsName.spells_operator {x operator : String} {t : List Token} (h : IsName x)
    (between : Separates operator t) (n : UInt32) :
    Spells (x ++ operator ++ Hex.literal n) ([nameToken x] ++ t ++ [numberToken n]) :=
  (h.spells.append between).then (spells_number n)

/-- Items with a fixed piece between them. -/
theorem spells_intercalate {α : Type} {text : α → String} {tokens : α → List Token}
    {s : String} {t : List Token} (between : Separates s t) :
    ∀ {first : α} {more : List α}, (∀ a ∈ first :: more, Spells (text a) (tokens a)) →
      Spells (s.intercalate ((first :: more).map text))
        (tokens first ++ more.flatMap fun a => t ++ tokens a)
  | first, [], h => by simpa using h first (by simp)
  | first, second :: more, h => by
    have hfirst := (h first (by simp)).append between
    have hmore := spells_intercalate between fun a ha => h a (List.mem_cons_of_mem _ ha)
    simpa using hfirst.then hmore

/-- Items between round brackets, behind something that leaves nothing open. -/
theorem closed_list {α : Type} {text : α → String} {tokens : α → List Token} {front : String}
    {before : List Token} (hfront : Closed front before) {items : List α}
    (h : ∀ a ∈ items, Spells (text a) (tokens a)) :
    Closed (front ++ ", ".intercalate (items.map text) ++ ")") (before ++ listTokens tokens items) := by
  cases items with
  | nil => simpa [listTokens] using hfront.append (b := ")") (by decide)
  | cons first more =>
    have hitems := spells_intercalate (s := ", ") (t := ofText ",") (by decide) h
    have hall := (hfront.then hitems).append (b := ")") (t := ofText ")") (by decide)
    simpa [listTokens] using hall

theorem Operand.spells {o : Operand} (h : ∀ x ∈ o.names, IsName x) : Spells o.text o.tokens := by
  cases o with
  | var x => exact (h x (by simp [names])).spells
  | flip x bits => exact (h x (by simp [names])).spells_operator (by decide) bits

theorem Call.closed {c : Call} (h : ∀ x ∈ c.names, IsName x) : Closed c.text c.tokens := by
  have hcallee := (h c.callee (by simp [names])).spells
  refine closed_list (hcallee.append (by decide)) fun o ho => Operand.spells ?_
  intro x hx
  exact h x (List.mem_cons_of_mem _ (List.mem_flatMap.mpr ⟨o, ho, hx⟩))

theorem Test.spells {test : Test} (h : ∀ x ∈ test.names, IsName x) :
    Spells test.text test.tokens := by
  cases test with
  | upTo x bound => exact (h x (by simp [names])).spells_operator (by decide) bound
  | equal x value => exact (h x (by simp [names])).spells_operator (by decide) value
  | within span x =>
    have hx := (h x (by simp [names])).spells
    have hopen : Closed "(" (ofText "(") := by decide
    have hfirst := (hopen.then (spells_number span.first)).append (b := " ..= ") (t := ofText "..=")
      (by decide)
    have hlast := (hfirst.then (spells_number span.last)).append (b := ").contains(&")
      (t := ofText ").contains(&") (by decide)
    exact ((hlast.then hx).append (by decide)).spells

theorem Atom.spells {answer : Atom} (h : ∀ x ∈ answer.names, IsName x) :
    Spells answer.text answer.tokens := by
  cases answer with
  | never => exact spells_ofText (by decide)
  | oneOf x value others =>
    have hx := (h x (by simp [names])).spells
    have hopen : Closed "matches!(" (ofText "matches!(") := by decide
    have hcomma := (hopen.then hx).append (b := ", ") (t := ofText ",") (by decide)
    have hvalues : Spells (" | ".intercalate ((value :: others).map Hex.literal))
        ([numberToken value] ++ others.flatMap fun n => ofText "|" ++ [numberToken n]) :=
      spells_intercalate (by decide) fun n _ => spells_number n
    exact ((hcomma.then hvalues).append (by decide)).spells
  | unmapped => exact spells_ofText (a := "Lookup::Unmapped") (by decide)
  | unknownCharset => exact spells_ofText (a := "Lookup::UnknownCharset") (by decide)
  | found c =>
    have hopen : Closed "Lookup::Char(" (ofText "Lookup::" ++ ofText "Char(") := by decide
    exact ((hopen.append (closed_charLiteral c)).append (by decide)).spells
  | blank => exact Closed.spells (by decide)
  | call c => exact (Call.closed h).spells

/-! ## Statements, tails, routines -/

theorem closed_cell : ∀ value : Option Char, Spells (cellText value) (cellTokens value)
  | none => spells_ofText (by decide)
  | some c => by
    have hopen : Closed "Some(" (ofText "Some(") := by decide
    exact ((hopen.append (closed_charLiteral c)).append (by decide)).spells

theorem closed_rows : ∀ rows : List Entry,
    Closed (ofLines (rows.map fun row =>
      "        (" ++ Hex.literal row.1 ++ ", " ++ cellText row.2 ++ "),")) (rows.flatMap rowTokens)
  | [] => rfl
  | row :: rest => by
    have hopen : Closed "        (" (ofText "(") := by decide
    have hcode := (hopen.then (spells_number row.1)).append (b := ", ") (t := ofText ",")
      (by decide)
    have hrow := (hcode.then (closed_cell row.2)).append (b := "),") (t := ofText "),")
      (by decide)
    rw [List.map_cons, ofLines_cons, List.flatMap_cons]
    have hline := hrow.append (b := "\n") (t := []) (by decide)
    simpa [rowTokens] using hline.append (closed_rows rest)

theorem closed_arms : ∀ arms : List (UInt32 × Atom),
    (∀ arm ∈ arms, ∀ x ∈ arm.2.names, IsName x) →
    Closed (ofLines (arms.map fun arm =>
      "        " ++ Hex.literal arm.1 ++ " => " ++ arm.2.text ++ ",")) (arms.flatMap armTokens)
  | [], _ => rfl
  | arm :: rest, h => by
    have hindent : Closed "        " [] := by decide
    have hvalue := (hindent.then (spells_number arm.1)).append (b := " => ") (t := ofText "=>")
      (by decide)
    have harm := (hvalue.then (Atom.spells (h arm (by simp)))).append (b := ",") (t := ofText ",")
      (by decide)
    rw [List.map_cons, ofLines_cons, List.flatMap_cons]
    have hline := harm.append (b := "\n") (t := []) (by decide)
    have hrest := closed_arms rest fun arm' harm' => h arm' (List.mem_cons_of_mem _ harm')
    simpa [armTokens] using hline.append hrest

theorem Stmt.closed_pick {x yes no : String} {test : Test}
    (h : ∀ y ∈ (pick x test yes no).names, IsName y) :
    Closed (ofLines (pick x test yes no).lines) (pick x test yes no).tokens := by
  have hx := (h x (by simp [names])).spells
  have hyes := (h yes (by simp [names])).spells
  have hno := (h no (by simp [names])).spells
  have htest : Spells test.text test.tokens :=
    Test.spells fun y hy => h y (by simp [names, hy])
  have htext : ofLines (pick x test yes no).lines =
      "    let " ++ x ++ " = if " ++ test.text ++ (" " ++ opening ++ " ") ++ yes
        ++ (" " ++ closing ++ " else " ++ opening ++ " ") ++ no
        ++ (" " ++ closing ++ ";" ++ "\n") := by
    simp only [lines, ofLines_cons, ofLines_nil, String.append_empty, String.append_assoc]
  rw [htext]
  have hlet : Closed "    let " (ofText "let") := by decide
  have hif := (hlet.then hx).append (b := " = if ") (t := ofText "= if") (by decide)
  have hopen := (hif.then htest).append (b := " " ++ opening ++ " ") (t := ofText "\x7b")
    (by decide)
  have helse := (hopen.then hyes).append (b := " " ++ closing ++ " else " ++ opening ++ " ")
    (t := ofText "\x7d else \x7b") (by decide)
  exact (helse.then hno).append (by decide)

theorem Stmt.closed_returnIf {test : Test} {answer : Atom}
    (h : ∀ y ∈ (returnIf test answer).names, IsName y) :
    Closed (ofLines (returnIf test answer).lines) (returnIf test answer).tokens := by
  have htest : Spells test.text test.tokens :=
    Test.spells fun y hy => h y (by simp [names, hy])
  have hanswer : Spells answer.text answer.tokens :=
    Atom.spells fun y hy => h y (by simp [names, hy])
  have htext : ofLines (returnIf test answer).lines =
      "    if " ++ test.text ++ (" " ++ opening ++ "\n" ++ "        return ") ++ answer.text
        ++ (";" ++ "\n" ++ "    " ++ closing ++ "\n") := by
    simp only [lines, ofLines_cons, ofLines_nil, String.append_empty, String.append_assoc]
  rw [htext]
  have hif : Closed "    if " (ofText "if") := by decide
  have hreturn := (hif.then htest).append (b := " " ++ opening ++ "\n" ++ "        return ")
    (t := ofText "\x7b return") (by decide)
  exact (hreturn.then hanswer).append (by decide)

theorem Stmt.closed_entries (length : Nat) (rows : List Entry) :
    Closed (ofLines (entries length rows).lines) (entries length rows).tokens := by
  have hlength : Spells (toString length) [nameToken (toString length)] :=
    spells_word (isWord_toString length)
  have htext : ofLines (entries length rows).lines =
      "    static ENTRIES: [(u32, Option<char>); " ++ toString length ++ ("] = [" ++ "\n")
        ++ ofLines (rows.map fun row =>
          "        (" ++ Hex.literal row.1 ++ ", " ++ cellText row.2 ++ "),")
        ++ ("    ];" ++ "\n") := by
    simp only [lines, ofLines_cons, ofLines_nil, ofLines_append, String.append_empty,
      String.append_assoc]
  rw [htext]
  have hstatic : Closed "    static ENTRIES: [(u32, Option<char>); "
      (ofText "static ENTRIES: [(u32, Option<char>);") := by decide +kernel
  have hequals := (hstatic.then hlength).append (b := "] = [" ++ "\n") (t := ofText "] = [")
    (by decide)
  exact (hequals.append (closed_rows rows)).append (by decide)

/-- A statement prints as its tokens. -/
theorem Stmt.closed {stmt : Stmt} (h : ∀ x ∈ stmt.names, IsName x) :
    Closed (ofLines stmt.lines) stmt.tokens := by
  cases stmt with
  | pick => exact closed_pick h
  | returnIf => exact closed_returnIf h
  | entries length rows => exact closed_entries length rows

theorem Tail.closed_atom {answer : Atom} (h : ∀ y ∈ (atom answer).names, IsName y) :
    Closed (ofLines (atom answer).lines) (atom answer).tokens := by
  have hindent : Closed "    " [] := by decide
  have hanswer : Spells answer.text answer.tokens := Atom.spells h
  have hline := (hindent.then hanswer).append (b := "\n") (t := []) (by decide)
  simpa [lines, tokens] using hline

theorem Tail.closed_choice {x : String} {arms : List (UInt32 × Atom)} {other : Atom}
    (h : ∀ y ∈ (choice x arms other).names, IsName y) :
    Closed (ofLines (choice x arms other).lines) (choice x arms other).tokens := by
  have hx := (h x (by simp [names])).spells
  have hother : Spells other.text other.tokens :=
    Atom.spells fun y hy => h y (by simp [names, hy])
  have harms := closed_arms arms fun arm harm y hy => h y <| by
    simp only [names, List.cons_append, List.mem_cons, List.mem_append, List.mem_flatMap]
    exact .inr (.inl ⟨arm, harm, hy⟩)
  have htext : ofLines (choice x arms other).lines =
      "    match " ++ x ++ (" " ++ opening ++ "\n")
        ++ ofLines (arms.map fun arm =>
          "        " ++ Hex.literal arm.1 ++ " => " ++ arm.2.text ++ ",")
        ++ "        _ => " ++ other.text ++ ("," ++ "\n" ++ "    " ++ closing ++ "\n") := by
    simp only [lines, ofLines_cons, ofLines_nil, ofLines_append, String.append_empty,
      String.append_assoc]
  rw [htext]
  have hmatch : Closed "    match " (ofText "match") := by decide
  have hopen := (hmatch.then hx).append (b := " " ++ opening ++ "\n") (t := ofText "\x7b")
    (by decide)
  have hlast := (hopen.append harms).append (b := "        _ => ") (t := ofText "_ =>") (by decide)
  exact (hlast.then hother).append (by decide)

theorem Tail.closed_orElse {first second : Call}
    (h : ∀ y ∈ (orElse first second).names, IsName y) :
    Closed (ofLines (orElse first second).lines) (orElse first second).tokens := by
  have hfirst : Closed first.text first.tokens :=
    Call.closed fun y hy => h y (by simp [names, hy])
  have hsecond : Closed second.text second.tokens :=
    Call.closed fun y hy => h y (by simp [names, hy])
  have htext : ofLines (orElse first second).lines =
      "    match " ++ first.text ++ (" " ++ opening ++ "\n" ++ "        Lookup::Unmapped => ")
        ++ second.text ++ ("," ++ "\n" ++ "        found => found," ++ "\n" ++ "    " ++ closing
          ++ "\n") := by
    simp only [lines, ofLines_cons, ofLines_nil, String.append_empty, String.append_assoc]
  rw [htext]
  have hmatch : Closed "    match " (ofText "match") := by decide
  have harm := (hmatch.append hfirst).append
    (b := " " ++ opening ++ "\n" ++ "        Lookup::Unmapped => ")
    (t := ofText "\x7b Lookup::Unmapped =>") (by decide)
  exact (harm.append hsecond).append (by decide)

theorem Tail.closed_search {x : String} (h : ∀ y ∈ (search x).names, IsName y) :
    Closed (ofLines (search x).lines) (search x).tokens := by
  have hx := (h x (by simp [names])).spells
  have htext : ofLines (search x).lines =
      "    match ENTRIES.binary_search_by_key(&" ++ x
        ++ (", |entry| entry.0) " ++ opening ++ "\n" ++ "        Ok(index) => match ENTRIES[index].1 "
          ++ opening ++ "\n")
        ++ ("            Some(c) => Lookup::Char(c)," ++ "\n" ++ "            None => Lookup::Unmapped,"
          ++ "\n" ++ "        " ++ closing ++ "," ++ "\n")
        ++ ("        Err(_) => Lookup::Unmapped," ++ "\n" ++ "    " ++ closing ++ "\n") := by
    simp only [lines, ofLines_cons, ofLines_nil, String.append_empty, String.append_assoc]
  rw [htext]
  have hmatch : Closed "    match ENTRIES.binary_search_by_key(&"
      (ofText "match" ++ ofText "ENTRIES.binary_search_by_key(&") := by decide +kernel
  have hok := (hmatch.then hx).append
    (b := ", |entry| entry.0) " ++ opening ++ "\n" ++ "        Ok(index) => match ENTRIES[index].1 "
      ++ opening ++ "\n")
    (t := ofText ", |entry| entry.0) \x7b Ok(index) => match ENTRIES[index].1 \x7b")
    (by decide +kernel)
  have hsome := hok.append
    (b := "            Some(c) => Lookup::Char(c)," ++ "\n" ++ "            None => Lookup::Unmapped,"
      ++ "\n" ++ "        " ++ closing ++ "," ++ "\n")
    (t := ofText "Some(c) => Lookup::Char(c), None => Lookup::Unmapped, \x7d,") (by decide +kernel)
  exact hsome.append (by decide +kernel)

/-- What a body ends in prints as its tokens. -/
theorem Tail.closed {tail : Tail} (h : ∀ x ∈ tail.names, IsName x) :
    Closed (ofLines tail.lines) tail.tokens := by
  cases tail with
  | atom => exact closed_atom h
  | choice => exact closed_choice h
  | orElse => exact closed_orElse h
  | search => exact closed_search h

/-! ## Routines -/

theorem spells_parameter {x : String} (h : IsName x) : Spells (x ++ ": u32") (parameterTokens x) :=
  h.spells.then (spells_ofText (by decide)) (by decide)

theorem closed_statements : ∀ {statements : List Stmt},
    (∀ stmt ∈ statements, ∀ x ∈ stmt.names, IsName x) →
    Closed (ofLines (statements.flatMap Stmt.lines)) (statements.flatMap Stmt.tokens)
  | [], _ => rfl
  | stmt :: rest, h => by
    rw [List.flatMap_cons, List.flatMap_cons, ofLines_append]
    have hstmt : Closed (ofLines stmt.lines) stmt.tokens := Stmt.closed (h stmt (by simp))
    exact hstmt.append (closed_statements fun s hs => h s (List.mem_cons_of_mem _ hs))

theorem closed_comment_lines {comment : Option String} (h : ∀ c ∈ comment, OneLine c) :
    Closed (ofLines ([""] ++ (comment.map ("/// " ++ ·)).toList))
      (comment.toList.map fun c => .documentation (' ' :: c.toList)) := by
  cases comment with
  | none => decide
  | some c =>
    have hnewline : Closed "\n" [] := by decide
    simpa using hnewline.append (closed_documentation (h c rfl))

theorem closed_signature {r : Routine} (h : r.Printable) :
    Spells r.signature ((if r.exported then ofText "pub" else []) ++ ofText "fn"
      ++ [nameToken r.name] ++ ofText "(" ++ listTokens parameterTokens r.parameters ++ ofText "->"
      ++ ofText r.result.text) := by
  have hpub : Closed (if r.exported then "pub " else "")
      (if r.exported then ofText "pub" else []) := by
    cases r.exported <;> decide
  have hname := h.name.spells
  have hfn := (hpub.append (b := "fn ") (t := ofText "fn") (by decide)).then hname
  have hopen := hfn.append (b := "(") (t := ofText "(") (by decide)
  have hparameter : ∀ x ∈ r.parameters, Spells (x ++ ": u32") (parameterTokens x) :=
    fun x hx => spells_parameter (h.parameters x hx)
  have hparameters := closed_list hopen hparameter
  have hresult : Spells r.result.text (ofText r.result.text) := by
    cases r.result <;> exact spells_ofText (by decide)
  have hall := (hparameters.append (b := " -> ") (t := ofText "->") (by decide)).then hresult
  unfold Routine.signature
  simpa [String.append_assoc] using hall

theorem Routine.closed {r : Routine} (h : r.Printable) : Closed (ofLines r.lines) r.tokens := by
  have hcomment := closed_comment_lines h.comment
  have hopen := (hcomment.then (closed_signature h)).append (b := "\n" ++ opening ++ "\n")
    (t := ofText "\x7b") (by decide)
  have hstatements : Closed (ofLines (r.statements.flatMap Stmt.lines))
      (r.statements.flatMap Stmt.tokens) := closed_statements h.statements
  have hempty : Closed (ofLines (if r.statements.isEmpty then [] else [""])) [] := by
    cases r.statements.isEmpty <;> decide
  have htail : Closed (ofLines r.tail.lines) r.tail.tokens := Tail.closed h.tail
  have hall := (((hopen.append hstatements).append hempty).append htail).append
    (b := closing ++ "\n") (t := ofText "\x7d") (by decide)
  have htext : ofLines r.lines =
      ofLines ([""] ++ (r.comment.map ("/// " ++ ·)).toList) ++ r.signature
        ++ ("\n" ++ opening ++ "\n") ++ ofLines (r.statements.flatMap Stmt.lines)
        ++ ofLines (if r.statements.isEmpty then [] else [""]) ++ ofLines r.tail.lines
        ++ (closing ++ "\n") := by
    simp only [Routine.lines, Routine.definition, ofLines_append, ofLines_cons, ofLines_nil,
      String.append_empty, String.append_assoc]
  rw [htext]
  simpa [Routine.tokens] using hall

/-- The text of a fragment is scanned into the tokens of its routines. -/
theorem ofText_text {f : Fragment} (h : f.Printable) : ofText f.text = f.tokens := by
  obtain ⟨routines⟩ := f
  have hroutines : Closed (ofLines (routines.flatMap Routine.lines))
      (routines.flatMap Routine.tokens) := by
    induction routines with
    | nil => rfl
    | cons r rest ih =>
      rw [List.flatMap_cons, List.flatMap_cons, ofLines_append]
      have hrest := ih fun r' hr' => h r' (List.mem_cons_of_mem _ hr')
      exact (Routine.closed (h r (by simp))).append hrest
  refine ofText_of_closed ?_
  rw [text, lines, ofLines_append]
  exact closed_header.append hroutines

end Marc8.Fragment
