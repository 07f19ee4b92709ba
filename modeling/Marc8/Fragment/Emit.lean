/-
Marc8.Fragment.Emit — the fragment of a compiled table.

The routines come in a fixed order: the test for combining codes, the search
with retry, the search without, then charset by charset the routines of its
blocks and, if it has not exactly one block that stands for the whole charset,
the route to them. Names are made of selectors and ranges, so no two routines
of a compiled table share one.
-/
import Marc8.Fragment.Text
import Marc8.CompiledTable

namespace Marc8.Fragment

open Marc8.Text

/-! ## Names -/

/-- The route of the multi-byte charset. -/
def multibyteName : String := "lookup_multibyte"

/-- The routine of a charset under its selector. -/
def pageName (selector : Selector) : String :=
  "lookup_charset_" ++ String.ofList (Hex.lower selector)

/-- The two ends of a span, as names hold them. -/
def spanSuffix (s : Span) : String :=
  "_" ++ String.ofList (Hex.lower s.first) ++ "_" ++ String.ofList (Hex.lower s.last)

/-- The routine of one block of a charset that was cut. -/
def partName (selector : Selector) (s : Span) : String := pageName selector ++ spanSuffix s

/-- The routine of one block of the multi-byte charset. -/
def rangeName (s : Span) : String := multibyteName ++ spanSuffix s

/-- The routine that answers for a charset. -/
def charsetName (charset : Charset) : String :=
  match charset.layout with
  | .page _ => pageName charset.selector
  | .multibyte _ => multibyteName

/-! ## Routines -/

/-- The answer for a listed code. -/
def listed : Option Char → Atom
  | some c => .found c
  | none => .unmapped

/-- The routine of some entries, in the form that the policy asks for. -/
def entriesRoutine (form : BlockForm) (comment : Option String) (name : String)
    (entries : List Entry) : Routine where
  comment := comment
  name := name
  parameters := ["code"]
  result := .lookup
  statements :=
    match form with
    | .matchTree => []
    | .sortedArray => [.entries entries.length entries]
  tail :=
    match form with
    | .matchTree => .choice "code" (entries.map fun entry => (entry.1, listed entry.2)) .unmapped
    | .sortedArray => .search "code"

/-- The test for combining codes. -/
def combiningRoutine (sets : List CombiningSet) : Routine where
  comment := some "является ли код комбинируемым символом при активных наборах G0 / G1"
  exported := true
  name := "is_combining"
  parameters := ["code", "g0", "g1"]
  result := .bool
  statements := [.pick "selector" (.upTo "code" g0Last) "g0" "g1"]
  tail := .choice "selector" (sets.map fun set => (set.selector, member set.codes.toList)) .never
where
  /-- Is the code one of these? -/
  member : List Code → Atom
    | [] => .never
    | code :: others => .oneOf "code" code others

/-- The search with one retry. -/
def decodeRoutine : Routine where
  comment := some "символ Unicode для кода в наборе символов mode"
  exported := true
  name := "decode"
  parameters := ["code", "mode"]
  result := .lookup
  statements := []
  tail := .orElse ⟨"lookup", [.var "code", .var "mode"]⟩
    ⟨"lookup", [.flip "code" twinBit, .var "mode"]⟩

/-- The search without retry. -/
def lookupRoutine (charsets : List Charset) : Routine where
  name := "lookup"
  parameters := ["code", "mode"]
  result := .lookup
  statements := [.returnIf (.equal "code" space) .blank]
  tail := .choice "mode"
    (charsets.map fun charset => (charset.selector, .call ⟨charsetName charset, [.var "code"]⟩))
    .unknownCharset

/-- The route to blocks by their spans. Without blocks the code is of no use, and its name says
so. -/
def routeRoutine (name : String) (blockName : Span → String) (spans : List Span) : Routine where
  name := name
  parameters := if spans.isEmpty then ["_code"] else ["code"]
  result := .lookup
  statements := spans.map fun span =>
    .returnIf (.within span "code") (.call ⟨blockName span, [.var "code"]⟩)
  tail := .atom .unmapped

/-- Blocks under names made of their spans, and the route to them under the name of the charset. -/
def routed (form : BlockForm) (label : String) (name : String) (blockName : Span → String)
    (blocks : List Block) : List Routine :=
  blocks.map (fun block =>
    entriesRoutine form (some (label ++ ", " ++ block.span.text)) (blockName block.span)
      block.entries.toList)
  ++ [routeRoutine name blockName (blocks.map (·.span))]

/-- The routines of a charset of one or two bytes. Its only block needs no route: it takes the name
of the charset. -/
def pageRoutines (form : BlockForm) (selector : Selector) : List Block → List Routine
  | [block] =>
    [entriesRoutine form (some (label selector)) (pageName selector) block.entries.toList]
  | blocks => routed form (label selector) (pageName selector) (partName selector) blocks
where
  /-- The charset, as comments name it. -/
  label (selector : Selector) : String := "набор символов " ++ Hex.literal selector

/-- The routines of a charset. -/
def charsetRoutines (form : BlockForm) (charset : Charset) : List Routine :=
  match charset.layout with
  | .page blocks => pageRoutines form charset.selector blocks
  | .multibyte blocks => routed form "многобайтовая страница" multibyteName rangeName blocks

/-- The fragment of a compiled table. -/
def ofCompiled (p : CompiledTable) (form : BlockForm) : Fragment where
  routines :=
    combiningRoutine p.combining.toList :: decodeRoutine :: lookupRoutine p.charsets.toList ::
      p.charsets.toList.flatMap (charsetRoutines form)

/-- The definition of a routine for entries, as text. -/
def entriesText (form : BlockForm) (name : String) (entries : List Entry) : String :=
  ofLines (entriesRoutine form none name entries).definition

end Marc8.Fragment

namespace Marc8

/-- The text of a compiled table. -/
def render (p : CompiledTable) (form : BlockForm) : String := (Fragment.ofCompiled p form).text

end Marc8
