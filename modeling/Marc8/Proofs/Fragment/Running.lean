/-
Marc8.Proofs.Fragment.Running — what the routines of a compiled table answer.

One lemma for each kind of routine says what it answers, given how its calls are
answered (`eval_entriesRoutine`, `eval_routeRoutine`, `eval_combiningRoutine`,
`eval_lookupRoutine`, `eval_decodeRoutine`). Since names are distinct, a call
reaches the routine that it means, and so the answers add up:

  `call?_charset` — the routine of a charset answers as its layout does;
  `call?_lookup`, `call?_decode` — and those of the table as the table does.

A call is answered when the chain of calls behind it is long enough: one call
for the routines of entries, two where a route comes first, and one more for
each of `lookup` and `decode`. A fragment has always that many routines.
-/
import Marc8.Proofs.Fragment.Naming

namespace Marc8.Fragment

open Text

variable {caller : Caller} {code : Code}

/-! ## Each routine by itself -/

/-- Arms made of some items choose the first item under the value of the variable. -/
theorem eval_choice {α : Type} {scope : Scope} {name : String} {value : UInt32} {table : Option Table}
    {key : α → UInt32} {answer : α → Atom} {other : Atom} {items : List α}
    (hvalue : scope.lookup name = some value) :
    (Tail.choice name (items.map fun a => (key a, answer a)) other).eval caller scope table =
      match items.find? fun a => key a = value with
      | some a => (answer a).eval caller scope
      | none => other.eval caller scope := by
  have arms : ((items.map fun a => (key a, answer a)).find? fun arm => arm.1 = value) =
      (items.find? fun a => key a = value).map fun a => (key a, answer a) := List.find?_map
  simp only [Tail.eval, hvalue, arms, Option.bind_eq_bind, Option.bind_some]
  cases items.find? fun a => key a = value <;> rfl

/-- The routine of some entries answers as a search for the code does, in either form. -/
theorem eval_entriesRoutine {form : BlockForm} {comment : Option String} {name : String}
    {entries : Array Entry} (ascends : Ascends Prod.fst entries.toList) :
    (entriesRoutine form comment name entries.toList).eval caller [code] =
      some (.lookup (searchEntries entries code)) := by
  cases form with
  | sortedArray => simp [Routine.eval, entriesRoutine, carryOut, Tail.eval]
  | matchTree =>
    have harm : ∀ value, (listed value).eval caller [("code", code)] =
        some (.lookup (.ofListed value)) := by
      intro value
      cases value <;> rfl
    have hcode : List.lookup "code" [("code", code)] = some code := List.lookup_cons_self
    show (Tail.choice "code" (entries.toList.map fun e => (e.1, listed e.2)) .unmapped).eval caller
      [("code", code)] none = _
    rw [eval_choice hcode, searchEntries, Search.find?_eq_scan ascends]
    cases entries.toList.find? fun e => decide (e.1 = code) with
    | none => rfl
    | some e => exact harm e.2

/-- A route asks the first block whose span holds the code. -/
theorem carryOut_route {scope : Scope} (hcode : scope.lookup "code" = some code)
    (blockName : Span → String) : ∀ spans : List Span,
    carryOut caller (.atom .unmapped) scope none (spans.map fun span =>
        .returnIf (.within span "code") (.call ⟨blockName span, [.var "code"]⟩)) =
      match spans.find? (·.contains code) with
      | some span => caller (blockName span) [code]
      | none => some (.lookup .unmapped)
  | [] => rfl
  | span :: rest => by
    have hrest := carryOut_route hcode blockName rest
    cases hspan : span.contains code with
    | true =>
      simp [carryOut, Test.eval, hcode, hspan, Atom.eval, Call.eval, operandValues, Operand.eval]
    | false => simp [carryOut, Test.eval, hcode, hspan, hrest]

theorem eval_routeRoutine (name : String) (blockName : Span → String) (spans : List Span) :
    (routeRoutine name blockName spans).eval caller [code] =
      match spans.find? (·.contains code) with
      | some span => caller (blockName span) [code]
      | none => some (.lookup .unmapped) := by
  cases spans with
  | nil => rfl
  | cons span rest => exact carryOut_route List.lookup_cons_self blockName _

/-- A test for some codes, of which there may be none. -/
theorem eval_member {scope : Scope} (hcode : scope.lookup "code" = some code) (codes : List Code) :
    (combiningRoutine.member codes).eval caller scope = some (.bool (codes.contains code)) := by
  cases codes with
  | nil => rfl
  | cons first others => simp [combiningRoutine.member, Atom.eval, hcode]

/-- Halving search finds a code when it is there. -/
theorem isSome_find?_eq_contains {codes : Array Code} (ascends : Ascends id codes.toList) :
    (Search.find? id codes code).isSome = codes.toList.contains code := by
  rw [Bool.eq_iff_iff, Search.isSome_find?_id_iff ascends]
  simp

/-- The test for combining codes searches for the selector in force, and then for the code. -/
theorem eval_combiningRoutine {p : CompiledTable} (h : p.WellFormed) (g0 g1 : Selector) :
    (combiningRoutine p.combining.toList).eval caller [code, g0, g1] =
      some (.bool (p.isCombining code g0 g1)) := by
  let scope : Scope :=
    [("selector", selectorInForce code g0 g1), ("code", code), ("g0", g0), ("g1", g1)]
  have hcode : scope.lookup "code" = some code := by simp [scope, List.lookup_cons]
  have hselector : scope.lookup "selector" = some (selectorInForce code g0 g1) :=
    List.lookup_cons_self
  -- Behind the first statement the variable holds the selector in force.
  have hpick : (combiningRoutine p.combining.toList).eval caller [code, g0, g1] =
      (Tail.choice "selector" (p.combining.toList.map fun set =>
        (set.selector, combiningRoutine.member set.codes.toList)) .never).eval caller scope none := by
    by_cases hle : code ≤ g0Last <;>
      simp [scope, Routine.eval, combiningRoutine, carryOut, Test.eval, List.lookup_cons, hle,
        selectorInForce]
  rw [hpick, eval_choice hselector, CompiledTable.isCombining, Search.find?_eq_scan h.combining]
  cases hfind : p.combining.toList.find? fun set =>
      decide (set.selector = selectorInForce code g0 g1) with
  | none => rfl
  | some set =>
    have hset : set ∈ p.combining := Array.mem_toList_iff.mp (List.mem_of_find?_eq_some hfind)
    show (combiningRoutine.member set.codes.toList).eval caller scope = _
    rw [eval_member hcode]
    simp only [isSome_find?_eq_contains (h.codes set hset)]

/-- The search without retry answers for the space itself, and asks the charset otherwise. -/
theorem eval_lookupRoutine (charsets : List Charset) (mode : Selector) :
    (lookupRoutine charsets).eval caller [code, mode] =
      if code = space then some (.lookup (.char ' '))
      else match charsets.find? (·.selector = mode) with
        | some charset => caller (charsetName charset) [code]
        | none => some (.lookup .unknownCharset) := by
  let scope : Scope := [("code", code), ("mode", mode)]
  have hmode : scope.lookup "mode" = some mode := by simp [scope, List.lookup_cons]
  have hreturn : (lookupRoutine charsets).eval caller [code, mode] =
      if code = space then some (.lookup (.char ' '))
      else (Tail.choice "mode" (charsets.map fun charset =>
        (charset.selector, .call ⟨charsetName charset, [.var "code"]⟩)) .unknownCharset).eval
          caller scope none := by
    by_cases hspace : code = space <;>
      simp [scope, Routine.eval, lookupRoutine, carryOut, Test.eval, hspace, Atom.eval]
  rw [hreturn, eval_choice hmode]
  by_cases hspace : code = space
  · rw [if_pos hspace, if_pos hspace]
  · rw [if_neg hspace, if_neg hspace]
    cases charsets.find? fun charset => decide (charset.selector = mode) <;> rfl

/-- The search with one retry asks again for the twin after an empty answer. -/
theorem eval_decodeRoutine {find : Code → Lookup} {mode : Selector}
    (hfind : ∀ c, caller "lookup" [c, mode] = some (.lookup (find c))) :
    decodeRoutine.eval caller [code, mode] = some (.lookup (withRetry code find)) := by
  have hfirst := hfind code
  have hsecond : caller "lookup" [code ^^^ twinBit, mode] = some (.lookup (find (twin code))) :=
    hfind (twin code)
  rw [withRetry_eq]
  cases hanswer : find code <;>
    simp [Routine.eval, decodeRoutine, carryOut, Tail.eval, Call.eval, operandValues, Operand.eval,
      List.lookup_cons, hfirst, hsecond, hanswer, Value.lookup?]

/-! ## Calls -/

/-- A call of a routine of a fragment without repeated names is answered by that routine. -/
theorem call?_succ {f : Fragment} (nodup : (f.routines.map (·.name)).Nodup) {r : Routine}
    (hr : r ∈ f.routines) (depth : Nat) (arguments : List UInt32) :
    f.call? (depth + 1) r.name arguments = r.eval (f.call? depth) arguments := by
  rw [call?, routine?_of_mem nodup hr]
  rfl

/-- Blocks under a route are asked one after the other until the code lies in one. -/
theorem call?_routed {f : Fragment} (nodup : (f.routines.map (·.name)).Nodup) {form : BlockForm}
    {label name : String} {blockName : Span → String} {blocks : List Block}
    (hmem : ∀ r ∈ routed form label name blockName blocks, r ∈ f.routines)
    (sound : ∀ b ∈ blocks, b.Sound) {depth : Nat}
    (hdepth : (routed form label name blockName blocks).length ≤ depth) (code : Code) :
    f.call? depth name [code] = some (.lookup
      (match blocks.find? (·.span.contains code) with
        | some block => block.lookup code
        | none => .unmapped)) := by
  have hlength : blocks.length + 1 ≤ depth := by simpa [routed] using hdepth
  obtain ⟨depth, rfl⟩ : ∃ d, depth = d + 1 := ⟨depth - 1, by omega⟩
  have hroute := call?_succ nodup (hmem (routeRoutine name blockName (blocks.map (·.span)))
    (by simp [routed])) depth [code]
  have hname : (routeRoutine name blockName (blocks.map (·.span))).name = name := rfl
  rw [hname] at hroute
  have hspans : (blocks.map (·.span)).find? (·.contains code) =
      (blocks.find? (·.span.contains code)).map (·.span) := List.find?_map
  rw [hroute, eval_routeRoutine, hspans]
  cases hfind : blocks.find? (·.span.contains code) with
  | none => rfl
  | some block =>
    have hblock := List.mem_of_find?_eq_some hfind
    have hpos := List.length_pos_of_mem hblock
    obtain ⟨depth, rfl⟩ : ∃ d, depth = d + 1 := ⟨depth - 1, by omega⟩
    have hentries := call?_succ nodup (hmem (entriesRoutine form
      (some (label ++ ", " ++ block.span.text)) (blockName block.span) block.entries.toList)
      (List.mem_append_left _ (List.mem_map.mpr ⟨block, hblock, rfl⟩))) depth [code]
    exact hentries.trans (eval_entriesRoutine (sound block hblock).ascends)

variable {p : CompiledTable} {form : BlockForm}

theorem mem_charsetRoutines {charset : Charset} (hcharset : charset ∈ p.charsets) {r : Routine}
    (hr : r ∈ charsetRoutines form charset) : r ∈ (ofCompiled p form).routines := by
  have hmem : r ∈ p.charsets.toList.flatMap (charsetRoutines form) :=
    List.mem_flatMap.mpr ⟨charset, Array.mem_toList_iff.mpr hcharset, hr⟩
  simp only [ofCompiled, List.mem_cons]
  exact .inr (.inr (.inr hmem))

/-- The routine of a charset answers as its layout does. The calls behind it are no more than the
charset has routines. -/
theorem call?_charset (h : p.WellFormed) {charset : Charset} (hcharset : charset ∈ p.charsets)
    {depth : Nat} (hdepth : (charsetRoutines form charset).length ≤ depth) (code : Code) :
    (ofCompiled p form).call? depth (charsetName charset) [code] =
      some (.lookup (charset.layout.lookup code)) := by
  have nodup := nodup_names h form
  obtain ⟨entries, divides⟩ := h.divides charset hcharset
  have hmem : ∀ r ∈ charsetRoutines form charset, r ∈ (ofCompiled p form).routines := fun _ hr =>
    mem_charsetRoutines hcharset hr
  obtain ⟨label, _, ⟨block, only, heq⟩ | ⟨_, heq⟩⟩ := charsetRoutines_cases form charset
  · rw [heq] at hmem hdepth
    obtain ⟨depth, rfl⟩ : ∃ d, depth = d + 1 := ⟨depth - 1, by simp at hdepth; omega⟩
    have hentries := call?_succ nodup (hmem _ (List.mem_singleton.mpr rfl)) depth [code]
    have hblock : block ∈ charset.layout.blocks := by simp [only, Layout.blocks]
    -- The only block of a page covers all codes, so it needs no route.
    have hcontains : block.span.contains code = true := by
      rw [only] at divides
      have hcover := (h.tiles charset hcharset _ only).exists_contains_iff divides.sound code
      simpa using hcover
    have hlookup : charset.layout.lookup code = block.lookup code := by
      simp [only, Layout.lookup, Layout.blocks, hcontains]
    rw [hlookup]
    exact hentries.trans (eval_entriesRoutine (divides.sound block hblock).ascends)
  · rw [heq] at hmem hdepth
    exact call?_routed nodup hmem divides.sound hdepth code

/-- The routine of the search without retry answers as the table does. -/
theorem call?_lookup (h : p.WellFormed) (depth : Nat)
    (hdepth : ∀ charset ∈ p.charsets, (charsetRoutines form charset).length ≤ depth) (code : Code)
    (mode : Selector) :
    (ofCompiled p form).call? (depth + 1) "lookup" [code, mode] =
      some (.lookup (p.lookup code mode)) := by
  have hlookup := call?_succ (nodup_names h form) (r := lookupRoutine p.charsets.toList)
    (by simp [ofCompiled]) depth [code, mode]
  refine hlookup.trans ?_
  rw [eval_lookupRoutine, CompiledTable.lookup, Search.find?_eq_scan h.charsets]
  by_cases hspace : code = space
  · rw [if_pos hspace, if_pos hspace]
  · rw [if_neg hspace, if_neg hspace]
    cases hfind : p.charsets.toList.find? fun charset => decide (charset.selector = mode) with
    | none => rfl
    | some charset =>
      have hcharset := Array.mem_toList_iff.mp (List.mem_of_find?_eq_some hfind)
      exact call?_charset h hcharset (hdepth charset hcharset) code

/-- The routine of the search with one retry answers as the table does. -/
theorem call?_decode (h : p.WellFormed) (depth : Nat)
    (hdepth : ∀ charset ∈ p.charsets, (charsetRoutines form charset).length ≤ depth) (code : Code)
    (mode : Selector) :
    (ofCompiled p form).call? (depth + 2) "decode" [code, mode] =
      some (.lookup (p.decode code mode)) := by
  have hdecode := call?_succ (nodup_names h form) (r := decodeRoutine) (by simp [ofCompiled])
    (depth + 1) [code, mode]
  exact hdecode.trans (eval_decodeRoutine fun c => call?_lookup h depth hdepth c mode)

/-! ## The fragment of a compiled table -/

/-- Behind its first three routines a fragment has as many as any of its charsets. -/
theorem exists_depth (p : CompiledTable) (form : BlockForm) :
    ∃ depth, (ofCompiled p form).routines.length = depth + 3 ∧
      ∀ charset ∈ p.charsets, (charsetRoutines form charset).length ≤ depth := by
  refine ⟨(p.charsets.toList.flatMap (charsetRoutines form)).length, rfl, fun charset hcharset => ?_⟩
  have hmem : charsetRoutines form charset ∈ p.charsets.toList.map (charsetRoutines form) :=
    List.mem_map.mpr ⟨charset, Array.mem_toList_iff.mpr hcharset, rfl⟩
  exact (List.sublist_flatten_of_mem hmem).length_le

theorem lookup?_ofCompiled (h : p.WellFormed) (form : BlockForm) (code : Code) (mode : Selector) :
    (ofCompiled p form).lookup? code mode = some (p.lookup code mode) := by
  obtain ⟨depth, hlength, hdepth⟩ := exists_depth p form
  have hcall := call?_lookup h (depth + 2) (fun c hc => Nat.le_add_right_of_le (hdepth c hc)) code
    mode
  rw [lookup?, answer?, hlength, hcall]
  rfl

theorem decode?_ofCompiled (h : p.WellFormed) (form : BlockForm) (code : Code) (mode : Selector) :
    (ofCompiled p form).decode? code mode = some (p.decode code mode) := by
  obtain ⟨depth, hlength, hdepth⟩ := exists_depth p form
  have hcall := call?_decode h (depth + 1) (fun c hc => Nat.le_add_right_of_le (hdepth c hc)) code
    mode
  rw [decode?, answer?, hlength, hcall]
  rfl

theorem isCombining?_ofCompiled (h : p.WellFormed) (form : BlockForm) (code : Code)
    (g0 g1 : Selector) :
    (ofCompiled p form).isCombining? code g0 g1 = some (p.isCombining code g0 g1) := by
  obtain ⟨depth, hlength, _⟩ := exists_depth p form
  have hcall := call?_succ (nodup_names h form) (r := combiningRoutine p.combining.toList)
    (by simp [ofCompiled]) (depth + 2) [code, g0, g1]
  have hname : (combiningRoutine p.combining.toList).name = "is_combining" := rfl
  rw [hname, eval_combiningRoutine h] at hcall
  rw [isCombining?, answer?, hlength, hcall]
  rfl

end Marc8.Fragment
