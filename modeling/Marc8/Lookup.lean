/-
Marc8.Lookup — the three answers a search in a charset can give, and the search
with one retry.

A search finds a character, or it finds that a known charset has nothing at
that code, or it finds that there is no such charset. Only the second answer is
worth a retry: codes of the left and of the right half are used for the same
character, so the twin of the code is tried once.

`withRetryM` says this over any monad, so that the calls it makes can be
observed; `withRetry` is its plain form and `withRetryTraced` lists the
codes that were asked for.
-/
import Marc8.Code

namespace Marc8

/-- The answer of a search. -/
inductive Lookup
  /-- The code stands for this character. -/
  | char (c : Char)
  /-- The charset is known and has no character at the code. -/
  | unmapped
  /-- There is no such charset. -/
  | unknownCharset
  deriving DecidableEq, Repr, Inhabited

namespace Lookup

/-- The character found, if there is one. -/
def char? : Lookup → Option Char
  | char c => some c
  | unmapped => none
  | unknownCharset => none

/-- What a charset says that lists the code: a character, or nothing. -/
def ofListed : Option Char → Lookup
  | some c => char c
  | none => unmapped

end Lookup

/-- Search for a code; if the charset has nothing there, search once more for its twin. -/
def withRetryM {m : Type → Type} [Monad m] (code : Code) (find : Code → m Lookup) :
    m Lookup := do
  match ← find code with
  | .unmapped => find (twin code)
  | found => pure found

/-- The search with one retry, for a plain search function. -/
def withRetry (code : Code) (find : Code → Lookup) : Lookup :=
  withRetryM (m := Id) code find

/-- A search that notes each code it is asked for. -/
def noting (find : Code → Lookup) (code : Code) : StateM (List Code) Lookup :=
  fun calls => (find code, calls ++ [code])

/-- The answer of the search with one retry, with the codes it asked for in order. -/
def withRetryTraced (code : Code) (find : Code → Lookup) : Lookup × List Code :=
  (withRetryM code (noting find)).run []

/-- The plain search, branch by branch. -/
theorem withRetry_eq (code : Code) (find : Code → Lookup) :
    withRetry code find = if find code = .unmapped then find (twin code) else find code := by
  unfold withRetry withRetryM
  simp only [bind, pure]
  split
  · next h => simp [h]
  · next h => rw [if_neg h]

/-- Noting the calls changes no answer, and the calls are the code and, after an empty answer
from a known charset, its twin. -/
theorem withRetryTraced_eq (code : Code) (find : Code → Lookup) :
    withRetryTraced code find =
      (withRetry code find, if find code = .unmapped then [code, twin code] else [code]) := by
  rw [withRetry_eq]
  unfold withRetryTraced withRetryM noting
  simp only [bind, StateT.bind, StateT.run]
  cases find code with
  | unmapped => rfl
  | char c => rfl
  | unknownCharset => rfl

end Marc8
