/-
Marc8.Decoder — the decoder of the bundled table.

It is what the text of the bundled table computes: the table is compiled under
the standard policy, its text is read as a fragment, and the calls of the
decoder are calls of the fragment. A call without a meaning, of which this
fragment has none, counts as an empty answer.
-/
import Marc8.Bundled
import Marc8.Fragment.Emit
import Marc8.Fragment.Meaning
import Marc8.Fragment.Reader

namespace Marc8.Decoder

/-- The text of a table under a policy, which is empty if the table is refused. -/
def textOf (t : CodeTable) (policy : Policy) : String :=
  match (compile t policy).outcome with
  | .ok compiled => render compiled policy.form
  | .error _ => ""

/-- The text of the bundled table. -/
def text : String := textOf Bundled.table .standard

/-- The fragment that the text is. -/
def fragment : Fragment := (Fragment.ofText? text).getD ⟨[]⟩

/-- The character of a code in the charset `mode`. -/
def decode (code : Code) (mode : Selector) : Lookup :=
  (fragment.decode? code mode).getD .unmapped

/-- Does the code combine when `g0` and `g1` are designated? -/
def isCombining (code : Code) (g0 g1 : Selector) : Bool :=
  (fragment.isCombining? code g0 g1).getD false

/-- The character of a code, with no difference between an unmapped code and an unknown charset. -/
def decodeChar (code : Code) (mode : Selector) : Option Char := (decode code mode).char?

end Marc8.Decoder
