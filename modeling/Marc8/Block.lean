/-
Marc8.Block — blocks: a span of codes and the entries that lie in it.

A charset is compiled into blocks of at most `room` entries each. `Block.tile`
cuts a list of ascending entries: the first block begins where the span to be
covered begins, the last ends where it ends, and each block between ends just
below the first code of the next. A list that fits one block is not cut, and a
list without entries still makes one block, so a span is never left open.

Code zero has nothing below it, so a block cannot end before an entry with code
zero; this can only arise when code zero is repeated.
-/
import Marc8.CodeTable
import Marc8.Failure
import Marc8.Policy
import Marc8.Search

namespace Marc8

/-- What ascending entries say about a code, by halving search. -/
def searchEntries (entries : Array Entry) (code : Code) : Lookup :=
  match Search.find? Prod.fst entries code with
  | some entry => .ofListed entry.2
  | none => .unmapped

/-- A span of codes and the entries in it, by ascending code. -/
structure Block where
  span : Span
  entries : Array Entry
  deriving DecidableEq, Repr, Inhabited

namespace Block

/-- What the block says about a code. -/
def lookup (b : Block) (code : Code) : Lookup := searchEntries b.entries code

/-- Has the block an entry for the code? -/
def lists (b : Block) (code : Code) : Bool := (Search.find? Prod.fst b.entries code).isSome

/-- Cover the codes from `first` to `last` with blocks that hold the given entries in order. -/
def tile (budget : Budget) (first last : Code) (entries : List Entry) :
    Except Failure (List Block) :=
  match _h : entries.drop budget.room with
  | [] => .ok [⟨⟨first, last⟩, entries.toArray⟩]
  | next :: rest =>
    if next.1 = 0 then .error .nothingBelowZero
    else
      match tile budget next.1 last (next :: rest) with
      | .error failure => .error failure
      | .ok blocks => .ok (⟨⟨first, next.1 - 1⟩, (entries.take budget.room).toArray⟩ :: blocks)
termination_by entries.length
decreasing_by
  have hl := congrArg List.length _h
  have hr := budget.room_pos
  simp only [List.length_drop, List.length_cons] at hl ⊢
  omega

end Block

end Marc8
