/-
Marc8.Partition — a charset cut into blocks.

The multi-byte charset is cut by a policy: its bands have to be spans that
ascend without overlap, each band becomes one block at least, and a band with
more entries than the budget allows is tiled with several. Every other charset
is tiled over all codes.

Whatever was cut is verified: every code of the charset must be listed by one
block only, and lie in that block's span. On ascending entries this can fail in
one way, a code outside all bands; repeated codes can also end up in two blocks.

  `checkBands` — are the bands in order?
  `partition`  — the multi-byte charset;
  `tilePage`  — any other charset;
  `verify`     — does every code have one owner?
-/
import Marc8.Block
import Marc8.Run

namespace Marc8

/-! ## Bands -/

/-- Neighbouring bands must ascend without overlap. -/
def checkOrder : List Span → Except Failure Unit
  | first :: second :: rest =>
    if second.first ≤ first.last then .error (.bandOrder first second)
    else checkOrder (second :: rest)
  | _ => .ok ()

/-- Bands must not be empty, and must ascend without overlap. -/
def checkBands (bands : List Span) : Except Failure Unit :=
  match bands.find? Span.isEmpty with
  | some band => .error (.emptyBand band)
  | none => checkOrder bands

/-- The entries whose codes lie in a band: from the first code of the band up to its last. -/
def inBand (entries : Array Entry) (band : Span) : Array Entry :=
  entries.extract (Search.boundary (fun e => e.1 < band.first) entries)
    (Search.boundary (fun e => e.1 ≤ band.last) entries)

/-! ## Verification -/

/-- The blocks that list a code. -/
def owners (blocks : List Block) (code : Code) : List Block := blocks.filter (·.lists code)

/-- A code must have one owner, and lie in its span. -/
def verifyCode (blocks : List Block) (code : Code) : Except Failure Unit :=
  match owners blocks code with
  | [] => .error (.uncovered code)
  | [owner] => if owner.span.contains code then .ok () else .error (.uncovered code)
  | _ => .error (.contested code)

/-- Every code must have one owner; the first that has not is reported. -/
def verify (blocks : List Block) : List Entry → Except Failure Unit
  | [] => .ok ()
  | entry :: rest =>
    match verifyCode blocks entry.1 with
    | .error failure => .error failure
    | .ok () => verify blocks rest

/-! ## Cutting -/

/-- The blocks of one band. -/
def cutBand (entries : Array Entry) (budget : Budget) (band : Span) : Run (List Block) := do
  let held := inBand entries band
  let blocks ← Run.silent (Block.tile budget band.first band.last held.toList)
  if 1 < blocks.length then Run.report [.bandSplit band held.size blocks.length]
  return blocks

/-- The blocks of several bands, one band after another. -/
def cutBands (entries : Array Entry) (budget : Budget) : List Span → Run (List Block)
  | [] => return []
  | band :: rest => do
    let blocks ← cutBand entries budget band
    let more ← cutBands entries budget rest
    return blocks ++ more

/-- The blocks of the multi-byte charset. A charset without entries has none. -/
def partition (entries : Array Entry) (bands : List Span) (budget : Budget) :
    Run (List Block) := do
  Run.silent (checkBands bands)
  if entries.isEmpty then return []
  let blocks ← cutBands entries budget bands
  Run.silent (verify blocks entries.toList)
  return blocks

/-- The blocks of any other charset. -/
def tilePage (entries : Array Entry) (budget : Budget) : Run (List Block) := do
  let blocks ← Run.silent (Block.tile budget Span.full.first Span.full.last entries.toList)
  if 1 < blocks.length then Run.report [.pageSplit entries.size blocks.length]
  Run.silent (verify blocks entries.toList)
  return blocks

end Marc8
