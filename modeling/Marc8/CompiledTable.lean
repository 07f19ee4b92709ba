/-
Marc8.CompiledTable — the compiled table.

Everything in it is sorted: combining codes and charsets by selector, the codes
of a charset by value, and each charset is cut into blocks. A code is looked up
by halving search for the charset, the first block whose span holds the code,
and halving search in the block.

  `CompiledTable.lookup`, `CompiledTable.decode`, `CompiledTable.isCombining`
      — the questions a table answers, asked of the compiled one;
  `compile` — the compiled table of a table, under a policy.
-/
import Marc8.Ascending
import Marc8.Partition

namespace Marc8

/-- The combining codes of a selector, ascending and each once. -/
structure CombiningSet where
  selector : Selector
  codes : Array Code
  deriving DecidableEq, Repr

/-- A charset cut into blocks. -/
inductive Layout
  /-- A charset of one or two bytes: one block, or several that cover all codes. -/
  | page (blocks : List Block)
  /-- The multi-byte charset: blocks that cover the bands. -/
  | multibyte (blocks : List Block)
  deriving DecidableEq, Repr

namespace Layout

/-- The blocks, in the order in which they are tried. -/
def blocks : Layout → List Block
  | page blocks => blocks
  | multibyte blocks => blocks

/-- What the charset says about a code: the first block whose span holds it answers. -/
def lookup (l : Layout) (code : Code) : Lookup :=
  match l.blocks.find? (·.span.contains code) with
  | some block => block.lookup code
  | none => .unmapped

/-- The number of entries. -/
def entryCount (l : Layout) : Nat :=
  l.blocks.foldr (fun b count => b.entries.size + count) 0

end Layout

/-- A charset under its selector. -/
structure Charset where
  selector : Selector
  layout : Layout
  deriving DecidableEq, Repr

/-- The compiled table. -/
structure CompiledTable where
  /-- Ascending by selector. -/
  combining : Array CombiningSet
  /-- Ascending by selector. -/
  charsets : Array Charset
  deriving DecidableEq, Repr

namespace CompiledTable

/-- What the charset `mode` says about a code. -/
def lookup (p : CompiledTable) (code : Code) (mode : Selector) : Lookup :=
  if code = space then .char ' '
  else match Search.find? Charset.selector p.charsets mode with
    | some charset => charset.layout.lookup code
    | none => .unknownCharset

/-- The character of a code in the charset `mode`, with one retry. -/
def decode (p : CompiledTable) (code : Code) (mode : Selector) : Lookup :=
  withRetry code (p.lookup · mode)

/-- Does the code combine when `g0` and `g1` are designated? -/
def isCombining (p : CompiledTable) (code : Code) (g0 g1 : Selector) : Bool :=
  match Search.find? CombiningSet.selector p.combining (selectorInForce code g0 g1) with
  | some set => (Search.find? id set.codes code).isSome
  | none => false

/-- The number of entries in all blocks. -/
def entryCount (p : CompiledTable) : Nat :=
  p.charsets.toList.foldr (fun charset count => charset.layout.entryCount + count) 0

end CompiledTable

/-! ## Compilation -/

/-- The combining codes of a table, sorted. -/
def compileCombining (t : CodeTable) : List CombiningSet :=
  t.combining.ascending.map fun (selector, codes) => ⟨selector, (ascendingDistinct codes).toArray⟩

/-- One charset, cut into blocks. -/
def compileCharset (policy : Policy) (multibyte selector : Selector) (page : Page) :
    Run Charset := do
  let entries := page.ascending.toArray
  if selector = multibyte then
    return ⟨selector, .multibyte (← partition entries policy.bands policy.budget)⟩
  else
    return ⟨selector, .page (← tilePage entries policy.budget)⟩

/-- Several charsets, one after another. -/
def compileCharsets (policy : Policy) (multibyte : Selector) :
    List (Selector × Page) → Run (List Charset)
  | [] => return []
  | (selector, page) :: rest => do
    let charset ← compileCharset policy multibyte selector page
    let more ← compileCharsets policy multibyte rest
    return charset :: more

/-- The compiled table of a table. -/
def compile (t : CodeTable) (policy : Policy) : Run CompiledTable := do
  let charsets ← compileCharsets policy t.multibyte t.pages.ascending
  return ⟨(compileCombining t).toArray, charsets.toArray⟩

end Marc8
