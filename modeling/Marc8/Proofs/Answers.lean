/-
Marc8.Proofs.Answers — a compiled table answers as the table does.

  `compile_preserves_answers` — whatever the policy is, as long as compilation
                                succeeds, every search, every decoding and every
                                question about combining has the answer of the
                                table itself.

So neither the bands nor the budget nor the choice of the multi-byte charset can
be seen in an answer.
-/
import Marc8.Proofs.WellFormed

namespace Marc8

variable {t : CodeTable} {policy : Policy} {p : CompiledTable}

/-- What a page says about a code is what the blocks made of it say. -/
theorem CompiledFrom.lookup_eq {multibyte selector : Selector} {page : Page} {charset : Charset}
    (h : CompiledFrom multibyte selector page charset) (code : Code) :
    charset.layout.lookup code = .ofListed (page.find? code).join :=
  h.divides.lookup_eq fun _ => Assoc.mem_ascending

/-- A compiled table finds what the table finds. -/
theorem lookup_of_compile (h : (compile t policy).outcome = .ok p) (code : Code) (mode : Selector) :
    p.lookup code mode = t.lookup code mode := by
  have found := Search.rel_find?
    (R := fun page charset => CompiledFrom t.multibyte charset.selector page charset)
    (forall₂_charsets h) mode
  unfold CompiledTable.lookup CodeTable.lookup
  by_cases hspace : code = space
  · rw [if_pos hspace, if_pos hspace]
  · rw [if_neg hspace, if_neg hspace]
    generalize t.pages.find? mode = page? at found
    generalize Search.find? Charset.selector p.charsets mode = charset? at found
    cases found with
    | none => rfl
    | some from_page => exact from_page.lookup_eq code

/-- A compiled table decodes as the table does: it retries on the same answers. -/
theorem decode_of_compile (h : (compile t policy).outcome = .ok p) (code : Code) (mode : Selector) :
    p.decode code mode = t.decode code mode := by
  have same : (p.lookup · mode) = (t.lookup · mode) := funext fun c => lookup_of_compile h c mode
  rw [CompiledTable.decode, CodeTable.decode, same]

/-- The sorted codes of a set hold a code when the codes do. -/
theorem isSome_find?_ascendingDistinct (codes : List Code) (code : Code) :
    (Search.find? id (ascendingDistinct codes).toArray code).isSome = codes.contains code := by
  have ascends : Ascends id (ascendingDistinct codes).toArray.toList := by
    simpa using ascends_ascendingDistinct codes
  rw [Bool.eq_iff_iff, Search.isSome_find?_id_iff ascends]
  simp [mem_ascendingDistinct]

/-- In a compiled table the codes combine that combine in the table. -/
theorem isCombining_of_compile (h : (compile t policy).outcome = .ok p) (code : Code)
    (g0 g1 : Selector) : p.isCombining code g0 g1 = t.isCombining code g0 g1 := by
  have found := Search.rel_find?
    (R := fun codes (set : CombiningSet) => set.codes = (ascendingDistinct codes).toArray)
    (forall₂_combining h) (selectorInForce code g0 g1)
  unfold CompiledTable.isCombining CodeTable.isCombining
  generalize t.combining.find? (selectorInForce code g0 g1) = codes? at found
  generalize Search.find? CombiningSet.selector p.combining (selectorInForce code g0 g1) = set?
    at found
  cases found with
  | none => rfl
  | some hcodes => simp only [hcodes, isSome_find?_ascendingDistinct]

/-! ## Histories -/

/-- What a history leaves has the pages and combining codes of its steps, whatever the multi-byte
selector is. -/
theorem build_multibyte (multibyte multibyte' : Selector) (edits : List Edit) :
    CodeTable.build multibyte' edits =
      { CodeTable.build multibyte edits with multibyte := multibyte' } := by
  have run : ∀ (edits : List Edit) (t : CodeTable),
      edits.foldl CodeTable.apply { t with multibyte := multibyte' } =
        { edits.foldl CodeTable.apply t with multibyte := multibyte' } := by
    intro edits
    induction edits with
    | nil => exact fun _ => rfl
    | cons edit rest ih =>
      intro t
      cases edit with
      | insertPage selector page => exact ih (t.insertPage selector page)
      | addCombining selector codes => exact ih (t.addCombining selector codes)
  exact run edits (.empty multibyte)

/-- Compilation keeps every answer of a table, whatever its history and the policy are. In
particular two compilations of one history answer alike, under any two policies and with any two
charsets as the multi-byte one. -/
theorem compile_preserves_answers :
    (∀ (t : CodeTable) (policy : Policy) (p : CompiledTable),
      (compile t policy).outcome = .ok p → ∀ (code : Code) (mode g0 g1 : Selector),
        p.lookup code mode = t.lookup code mode ∧
        p.decode code mode = t.decode code mode ∧
        p.isCombining code g0 g1 = t.isCombining code g0 g1) ∧
    (∀ (edits : List Edit) (multibyte multibyte' : Selector) (policy policy' : Policy)
      (p p' : CompiledTable),
      (compile (.build multibyte edits) policy).outcome = .ok p →
      (compile (.build multibyte' edits) policy').outcome = .ok p' →
      ∀ (code : Code) (mode g0 g1 : Selector),
        p.lookup code mode = p'.lookup code mode ∧
        p.decode code mode = p'.decode code mode ∧
        p.isCombining code g0 g1 = p'.isCombining code g0 g1) := by
  constructor
  · intro t policy p h code mode g0 g1
    exact ⟨lookup_of_compile h code mode, decode_of_compile h code mode,
      isCombining_of_compile h code g0 g1⟩
  · intro edits multibyte multibyte' policy policy' p p' h h' code mode g0 g1
    rw [build_multibyte multibyte multibyte'] at h'
    refine ⟨?_, ?_, ?_⟩
    · rw [lookup_of_compile h, lookup_of_compile h']
      rfl
    · rw [decode_of_compile h, decode_of_compile h']
      rfl
    · rw [isCombining_of_compile h, isCombining_of_compile h']
      rfl

/-- Two charsets, compiled once with one of them as the multi-byte charset and once without: the
last code there is, which has a block of its own both times, is found both times. -/
theorem compile_preserves_answers_last_code :
    let edits : List Edit :=
      [.insertPage 0x31 (.ofList [(0x213021, some 'a'), (0, none), (0xFFFFFFFF, some 'b')]),
        .insertPage 0x42 (.ofList [(0x41, some 'A'), (0x20, none)]),
        .addCombining 0x42 [0xE2, 0xE1, 0xE2]]
    let p : CompiledTable :=
      ⟨#[⟨0x42, #[0xE1, 0xE2]⟩],
        #[⟨0x31, .multibyte
            [⟨⟨0, 0xFFFFFFFE⟩, #[(0, none), (0x213021, some 'a')]⟩,
              ⟨⟨0xFFFFFFFF, 0xFFFFFFFF⟩, #[(0xFFFFFFFF, some 'b')]⟩]⟩,
          ⟨0x42, .page [⟨Span.full, #[(0x20, none), (0x41, some 'A')]⟩]⟩]⟩
    let p' : CompiledTable :=
      ⟨#[⟨0x42, #[0xE1, 0xE2]⟩],
        #[⟨0x31, .page
            [⟨⟨0, 0x213020⟩, #[(0, none)]⟩, ⟨⟨0x213021, 0xFFFFFFFE⟩, #[(0x213021, some 'a')]⟩,
              ⟨⟨0xFFFFFFFF, 0xFFFFFFFF⟩, #[(0xFFFFFFFF, some 'b')]⟩]⟩,
          ⟨0x42, .page
            [⟨⟨0, 0x40⟩, #[(0x20, none)]⟩, ⟨⟨0x41, 0xFFFFFFFF⟩, #[(0x41, some 'A')]⟩]⟩]⟩
    p.lookup 0xFFFFFFFF 0x31 = (CodeTable.build 0x31 edits).lookup 0xFFFFFFFF 0x31 ∧
      p.decode 0xFFFFFFFF 0x31 = p'.decode 0xFFFFFFFF 0x31 ∧
      p.isCombining 0xE1 0 0x42 = p'.isCombining 0xE1 0 0x42 := by
  intro edits p p'
  have h : (compile (.build 0x31 edits) ⟨[Span.full], ⟨2⟩, .matchTree⟩).outcome = .ok p := by cbv
  have h' : (compile (.build 0x99 edits) ⟨[], ⟨0⟩, .sortedArray⟩).outcome = .ok p' := by cbv
  refine ⟨(compile_preserves_answers.1 _ _ p h 0xFFFFFFFF 0x31 0 0).1, ?_, ?_⟩
  · exact (compile_preserves_answers.2 edits 0x31 0x99 _ _ p p' h h' 0xFFFFFFFF 0x31 0 0).2.1
  · exact (compile_preserves_answers.2 edits 0x31 0x99 _ _ p p' h h' 0xE1 0 0 0x42).2.2

end Marc8
