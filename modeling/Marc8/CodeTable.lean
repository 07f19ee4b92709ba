/-
Marc8.CodeTable — the table before it is compiled.

A *page* is one charset: a finite map from codes to characters, where a code
can also be listed as standing for nothing. A table holds pages under their
selectors, the combining codes of each selector, and the selector of the one
multi-byte charset. It is built by insertions: a page replaces the page under
the same selector, combining codes are added to those already there.

  `CodeTable.lookup`      — what a charset says about a code;
  `CodeTable.decode`      — the same with one retry;
  `CodeTable.isCombining` — does a code combine under the designated sets?

An empty list of combining codes and an absent one answer alike, but a table
remembers which of the two it has.
-/
import Marc8.Assoc
import Marc8.Lookup

namespace Marc8

/-- One line of a page: a code and its character, if it stands for one. -/
abbrev Entry := Code × Option Char

/-- A charset: its codes and their characters. -/
abbrev Page := Assoc Code (Option Char)

/-- The table of all charsets. -/
structure CodeTable where
  /-- The selector of the multi-byte charset. -/
  multibyte : Selector
  /-- The charsets. -/
  pages : Assoc Selector Page
  /-- The combining codes, in the order in which they were added. -/
  combining : Assoc Selector (List Code)

namespace CodeTable

/-- The table without charsets. -/
def empty (multibyte : Selector) : CodeTable := ⟨multibyte, .empty, .empty⟩

instance : Inhabited CodeTable := ⟨empty 0⟩

/-- Put a charset in, in place of the one under the same selector. -/
def insertPage (t : CodeTable) (selector : Selector) (page : Page) : CodeTable :=
  { t with pages := t.pages.insert selector page }

/-- Add combining codes to those of a selector. -/
def addCombining (t : CodeTable) (selector : Selector) (codes : List Code) : CodeTable :=
  { t with combining :=
      t.combining.insert selector ((t.combining.find? selector).getD [] ++ codes) }

/-- What the charset `mode` says about a code. -/
def lookup (t : CodeTable) (code : Code) (mode : Selector) : Lookup :=
  if code = space then .char ' '
  else match t.pages.find? mode with
    | some page => .ofListed (page.find? code).join
    | none => .unknownCharset

/-- The character of a code in the charset `mode`, with one retry. -/
def decode (t : CodeTable) (code : Code) (mode : Selector) : Lookup :=
  withRetry code (t.lookup · mode)

/-- Does the code combine when `g0` and `g1` are designated? -/
def isCombining (t : CodeTable) (code : Code) (g0 g1 : Selector) : Bool :=
  match t.combining.find? (selectorInForce code g0 g1) with
  | some codes => codes.contains code
  | none => false

end CodeTable

/-! ## Histories -/

/-- One step in the building of a table. -/
inductive Edit
  | insertPage (selector : Selector) (page : Page)
  | addCombining (selector : Selector) (codes : List Code)

/-- The table after one more step. -/
def CodeTable.apply (t : CodeTable) : Edit → CodeTable
  | .insertPage selector page => t.insertPage selector page
  | .addCombining selector codes => t.addCombining selector codes

/-- The table that a history of steps leaves. -/
def CodeTable.build (multibyte : Selector) (edits : List Edit) : CodeTable :=
  edits.foldl apply (empty multibyte)

end Marc8
