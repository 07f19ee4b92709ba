/-
Marc8.Proofs.Searching — halving search finds what a scan finds.

All that is looked up in a compiled table is looked up by halving: a charset and
a set of combining codes by their selectors, a combining code, and an entry by
its code. What is searched ascends (`CompiledTable.Sorted`), and there halving
search gives the one element under a key, and nothing when there is none
(`Search.Exact`). The emitted text of some entries tries an arm for each of them
from the top, or searches the array again, so it answers alike:

  `searchEntries_eq_char_iff`     — a search in entries, by their elements;
  `answer?_entriesText`           — the text of entries answers as the search;
  `search_finds_what_is_listed`   — all searches, and what they answer.
-/
import Marc8.Proofs.Fragment.Reading
import Marc8.Proofs.Fragment.Running

namespace Marc8

/-! ## Entries -/

section Entries

variable {entries : Array Entry} {code : Code}

/-- A search in entries finds a character when an entry lists it for the code. -/
theorem searchEntries_eq_char_iff (ascends : Ascends Prod.fst entries.toList) {c : Char} :
    searchEntries entries code = .char c ↔ (code, some c) ∈ entries := by
  constructor
  · intro h
    unfold searchEntries at h
    split at h
    · next e found =>
      obtain ⟨listed, rfl⟩ := (Search.find?_eq_some_iff ascends).mp found
      obtain ⟨code, value⟩ := e
      cases value with
      | none => cases h
      | some c' =>
        obtain rfl : c' = c := Lookup.char.inj h
        exact listed
    · cases h
  · intro listed
    have found : Search.find? Prod.fst entries code = some (code, some c) :=
      (Search.find?_eq_some_iff ascends).mpr ⟨listed, rfl⟩
    rw [searchEntries, found]
    rfl

/-- A search in entries finds a character, or it finds nothing there. -/
theorem searchEntries_cases (entries : Array Entry) (code : Code) :
    (∃ c, searchEntries entries code = .char c) ∨ searchEntries entries code = .unmapped := by
  unfold searchEntries
  cases Search.find? Prod.fst entries code with
  | none => exact .inr rfl
  | some e =>
    obtain ⟨_, _ | c⟩ := e
    · exact .inr rfl
    · exact .inl ⟨c, rfl⟩

theorem searchEntries_eq_unmapped_iff (ascends : Ascends Prod.fst entries.toList) :
    searchEntries entries code = .unmapped ↔ ∀ c, (code, some c) ∉ entries := by
  simp only [← searchEntries_eq_char_iff ascends]
  rcases searchEntries_cases entries code with ⟨c, hc⟩ | h
  · simp [hc]
  · simp [h]

end Entries

/-! ## The text of entries -/

namespace Fragment

open Text

/-- The text of some entries, behind the header of a fragment, is that of a fragment with one
routine. -/
theorem text_entriesRoutine (form : BlockForm) (name : String) (entries : List Entry) :
    text ⟨[entriesRoutine form none name entries]⟩ =
      ofLines (header ++ [""]) ++ entriesText form name entries := by
  rw [text, entriesText, ← ofLines_append]
  simp [lines, Routine.lines, entriesRoutine]

/-- In either form the text of some entries answers a call as a search in them does. -/
theorem answer?_entriesText (form : BlockForm) {name : String} (hname : IsName name)
    {entries : Array Entry} (ascends : Ascends Prod.fst entries.toList) :
    ∃ f, ofText? (ofLines (header ++ [""]) ++ entriesText form name entries.toList) = some f ∧
      ∀ code, f.answer? name [code] = some (.lookup (searchEntries entries code)) := by
  let f : Fragment := ⟨[entriesRoutine form none name entries.toList]⟩
  have printable : f.Printable := fun r hr => by
    obtain rfl := List.mem_singleton.mp hr
    exact printable_entriesRoutine hname (by simp)
  refine ⟨f, ?_, fun code => ?_⟩
  · rw [← text_entriesRoutine, ofText?_text printable]
  · have call := call?_succ (f := f) (by simp [f]) (List.mem_singleton.mpr rfl) 0 [code]
    exact call.trans (eval_entriesRoutine ascends)

end Fragment

/-! ## Compiled tables -/

/-- Halving search gives the element with the key if there is one, and nothing otherwise, as a scan
from the front does. -/
structure Search.Exact {α : Type} (key : α → UInt32) (xs : Array α) : Prop where
  found : ∀ k x, find? key xs k = some x ↔ x ∈ xs ∧ key x = k
  missed : ∀ k, find? key xs k = none ↔ ∀ x ∈ xs, key x ≠ k
  scan : ∀ k, find? key xs k = xs.toList.find? (key · = k)

theorem Search.exact_of_ascends {α : Type} {key : α → UInt32} {xs : Array α}
    (ascends : Ascends key xs.toList) : Exact key xs where
  found _ _ := find?_eq_some_iff ascends
  missed k := by
    rw [find?_eq_scan ascends]
    simp
  scan := find?_eq_scan ascends

/-- Whatever is searched in the table ascends. -/
structure CompiledTable.Sorted (p : CompiledTable) : Prop where
  combining : Ascends CombiningSet.selector p.combining.toList
  codes : ∀ set ∈ p.combining, Ascends id set.codes.toList
  charsets : Ascends Charset.selector p.charsets.toList
  entries : ∀ charset ∈ p.charsets, ∀ block ∈ charset.layout.blocks,
    Ascends Prod.fst block.entries.toList

variable {p : CompiledTable}

theorem CompiledTable.WellFormed.sorted (h : p.WellFormed) : p.Sorted where
  combining := h.combining
  codes := h.codes
  charsets := h.charsets
  entries charset hcharset block hblock := by
    obtain ⟨_, divides⟩ := h.divides charset hcharset
    exact (divides.sound block hblock).ascends

/-- A code combines when the set of the selector in force has it. -/
theorem CompiledTable.Sorted.isCombining_iff (h : p.Sorted) {code : Code} {g0 g1 : Selector} :
    p.isCombining code g0 g1 = true ↔
      ∃ set ∈ p.combining, set.selector = selectorInForce code g0 g1 ∧ code ∈ set.codes := by
  unfold isCombining
  cases hfind : Search.find? CombiningSet.selector p.combining (selectorInForce code g0 g1) with
  | none =>
    have missed := ((Search.exact_of_ascends h.combining).missed _).mp hfind
    simp only [Bool.false_eq_true, false_iff]
    rintro ⟨set, hset, hselector, _⟩
    exact missed set hset hselector
  | some set =>
    obtain ⟨hset, hselector⟩ := (Search.find?_eq_some_iff h.combining).mp hfind
    simp only [Search.isSome_find?_id_iff (h.codes set hset)]
    constructor
    · exact fun hcode => ⟨set, hset, hselector, hcode⟩
    · rintro ⟨set', hset', hselector', hcode⟩
      obtain rfl := h.combining.eq_of_key_eq (Array.mem_toList_iff.mpr hset')
        (Array.mem_toList_iff.mpr hset) (hselector'.trans hselector.symm)
      exact hcode

/-- A charset of the table answers under its selector, for any code but the space. -/
theorem CompiledTable.Sorted.lookup_eq (h : p.Sorted) {charset : Charset}
    (hcharset : charset ∈ p.charsets) {code : Code} (hcode : code ≠ space) :
    p.lookup code charset.selector = charset.layout.lookup code := by
  have found : Search.find? Charset.selector p.charsets charset.selector = some charset :=
    (Search.find?_eq_some_iff h.charsets).mpr ⟨hcharset, rfl⟩
  rw [lookup, if_neg hcode, found]

/-- A known charset always has an answer of its own. -/
theorem Layout.lookup_ne_unknownCharset (l : Layout) (code : Code) :
    l.lookup code ≠ .unknownCharset := by
  unfold lookup
  split
  · next block _ =>
    rcases searchEntries_cases block.entries code with ⟨c, hc⟩ | h
    · rw [Block.lookup, hc]
      simp
    · rw [Block.lookup, h]
      simp
  · simp

theorem CompiledTable.Sorted.lookup_eq_unknownCharset_iff (h : p.Sorted) {code : Code}
    {mode : Selector} : p.lookup code mode = .unknownCharset ↔
      code ≠ space ∧ ∀ charset ∈ p.charsets, charset.selector ≠ mode := by
  by_cases hcode : code = space
  · simp [lookup, hcode]
  · rw [← (Search.exact_of_ascends h.charsets).missed mode, lookup, if_neg hcode]
    cases Search.find? Charset.selector p.charsets mode with
    | none => simp [hcode]
    | some charset => simp [Layout.lookup_ne_unknownCharset]

/-- In ascending entries of any number a search finds for a code what they list for it, and so does
a call of the text made of them. In a sorted table the searches by selector find the element that
has it, and a set holds the codes that are searched in it, so that every question is answered by
what is listed. Every table that has been compiled is sorted. -/
theorem search_finds_what_is_listed :
    (∀ entries : Array Entry, Ascends Prod.fst entries.toList →
      Search.Exact Prod.fst entries ∧
      (∀ code c, searchEntries entries code = .char c ↔ (code, some c) ∈ entries) ∧
      (∀ code, searchEntries entries code = .unmapped ↔ ∀ c, (code, some c) ∉ entries) ∧
      ∀ form name, Fragment.IsName name → ∃ f,
        Fragment.ofText? (Text.ofLines (Fragment.header ++ [""])
          ++ Fragment.entriesText form name entries.toList) = some f ∧
        ∀ code, f.answer? name [code] = some (.lookup (searchEntries entries code))) ∧
    (∀ p : CompiledTable, p.Sorted →
      Search.Exact Charset.selector p.charsets ∧ Search.Exact CombiningSet.selector p.combining ∧
      (∀ set ∈ p.combining, ∀ code,
        (Search.find? id set.codes code).isSome = true ↔ code ∈ set.codes) ∧
      (∀ charset ∈ p.charsets, ∀ block ∈ charset.layout.blocks,
        Search.Exact Prod.fst block.entries) ∧
      (∀ code mode, p.lookup code mode = .unknownCharset ↔
        code ≠ space ∧ ∀ charset ∈ p.charsets, charset.selector ≠ mode) ∧
      (∀ charset ∈ p.charsets, ∀ code, code ≠ space →
        p.lookup code charset.selector = charset.layout.lookup code) ∧
      ∀ code g0 g1, p.isCombining code g0 g1 = true ↔
        ∃ set ∈ p.combining, set.selector = selectorInForce code g0 g1 ∧ code ∈ set.codes) ∧
    ∀ (t : CodeTable) (policy : Policy) (p : CompiledTable),
      (compile t policy).outcome = .ok p → p.Sorted := by
  refine ⟨fun entries ascends => ?_, fun p sorted => ?_, fun t policy p h => ?_⟩
  · exact ⟨Search.exact_of_ascends ascends, fun _ _ => searchEntries_eq_char_iff ascends,
      fun _ => searchEntries_eq_unmapped_iff ascends,
      fun form _ hname => Fragment.answer?_entriesText form hname ascends⟩
  · exact ⟨Search.exact_of_ascends sorted.charsets, Search.exact_of_ascends sorted.combining,
      fun set hset _ => Search.isSome_find?_id_iff (sorted.codes set hset),
      fun charset hcharset block hblock =>
        Search.exact_of_ascends (sorted.entries charset hcharset block hblock),
      fun _ _ => sorted.lookup_eq_unknownCharset_iff,
      fun _ hcharset _ hcode => sorted.lookup_eq hcharset hcode, fun _ _ _ => sorted.isCombining_iff⟩
  · exact (compile_wellFormed h).sorted

/-- Three entries, the first under the least code and without a character, the last under the
greatest code: they are searched for each of these codes and for one between them, in the array and
by their text. In the table made of them a code combines, and a selector is unknown. -/
theorem search_finds_what_is_listed_three_entries :
    let entries : Array Entry := #[(0, none), (0x41, some 'A'), (0xFFFFFFFF, some 'b')]
    let t : CodeTable := .build 0x31
      [.insertPage 0x42 (.ofList entries.toList), .insertPage 0x31 .empty,
        .addCombining 0x42 [0xE2, 0xE1, 0xE2], .addCombining 0x31 []]
    let p : CompiledTable :=
      ⟨#[⟨0x31, #[]⟩, ⟨0x42, #[0xE1, 0xE2]⟩],
        #[⟨0x31, .multibyte []⟩, ⟨0x42, .page [⟨Span.full, entries⟩]⟩]⟩
    Ascends Prod.fst entries.toList ∧ (compile t .standard).outcome = .ok p ∧
      (searchEntries entries 0xFFFFFFFF = .char 'b' ∧ searchEntries entries 0 = .unmapped ∧
        searchEntries entries 0x42 = .unmapped) ∧
      (∃ f, Fragment.ofText? (Text.ofLines (Fragment.header ++ [""])
          ++ Fragment.entriesText .matchTree "unit" entries.toList) = some f ∧
        f.answer? "unit" [0x41] = some (.lookup (.char 'A'))) ∧
      p.isCombining 0xE1 0 0x42 = true ∧ p.lookup 0x41 0x99 = .unknownCharset ∧
      p.lookup 0x41 0x42 = Layout.lookup (.page [⟨Span.full, entries⟩]) 0x41 := by
  intro entries t p
  have ascends : Ascends Prod.fst entries.toList := by simp [Ascends, entries]
  have h : (compile t .standard).outcome = .ok p := by cbv
  obtain ⟨-, char_iff, unmapped_iff, text⟩ := search_finds_what_is_listed.1 entries ascends
  have sorted := search_finds_what_is_listed.2.2 t .standard p h
  obtain ⟨-, -, -, -, unknown_iff, known, combining_iff⟩ := search_finds_what_is_listed.2.1 p sorted
  obtain ⟨f, read, answers⟩ := text .matchTree "unit" (by decide)
  refine ⟨ascends, h, ⟨(char_iff 0xFFFFFFFF 'b').mpr ?_, (unmapped_iff 0).mpr ?_,
    (unmapped_iff 0x42).mpr ?_⟩, ⟨f, read, ?_⟩, (combining_iff 0xE1 0 0x42).mpr ?_,
    (unknown_iff 0x41 0x99).mpr ?_, ?_⟩
  · simp [entries]
  · simp [entries]
  · simp [entries]
  · rw [answers, (char_iff 0x41 'A').mpr (by simp [entries])]
  · exact ⟨⟨0x42, #[0xE1, 0xE2]⟩, by simp [p], by decide, by simp⟩
  · exact ⟨by decide, by simp [p]⟩
  · exact known ⟨0x42, .page [⟨Span.full, entries⟩]⟩ (by simp [p]) 0x41 (by decide)

end Marc8
