/-
Marc8.Proofs.Twins — the two codes of a pair, and the one search that is repeated.

A code and its twin decode alike as soon as one of them is unmapped: whichever
of the two is asked for, the other one is tried. The three answers keep their
meaning behind the second search. It is not made when the charset is unknown,
and in a known charset it does not come upon an unknown one, not even for the
pair of 0x20 and 0xA0, of which the first has its answer without a charset.

  `retriesOnce_of_traced`, `retriesOnce_of_noting` — the calls of a search, one that
                            only looks and one that also changes something;
  `twinLaws_withRetry`    — what holds of any search that knows the space;
  `decode_keeps_outcomes` — what holds of a table and of the one compiled from it.
-/
import Marc8.Proofs.Answers

namespace Marc8

variable {code : Code} {find : Code → Lookup} {known : Prop}

/-! ## The calls of one decoding -/

/-- A search with a state of its own, each call of which is noted with its answer. -/
def notingAnswers {σ : Type} (find : Code → StateM σ Lookup) (code : Code) :
    StateM (σ × List (Code × Lookup)) Lookup :=
  fun (state, calls) =>
    let (answer, left) := find code state
    (answer, (left, calls ++ [(code, answer)]))

/-- The calls with their answers: the code comes first, its twin second, though only when the first
answer is that the code is unmapped, and nothing comes third. The last answer is the result. -/
structure RetriesOnce (code : Code) (calls : List (Code × Lookup)) (result : Lookup) : Prop where
  first : calls.head?.map Prod.fst = some code
  second : ∀ call ∈ calls.tail, call.1 = twin code
  retried : calls.length = 2 ↔ calls.head?.map Prod.snd = some .unmapped
  atMostTwice : calls.length ≤ 2
  last : calls.getLast?.map Prod.snd = some result

/-- An answer that is not worth a retry is the only one. -/
theorem retriesOnce_single {answer : Lookup} (h : answer ≠ .unmapped) :
    RetriesOnce code [(code, answer)] answer where
  first := rfl
  second := by simp
  retried := by simpa using h
  atMostTwice := by simp
  last := rfl

/-- The answer for the twin counts, whatever it is. -/
theorem retriesOnce_pair (code : Code) (answer : Lookup) :
    RetriesOnce code [(code, .unmapped), (twin code, answer)] answer where
  first := rfl
  second := by simp
  retried := by simp
  atMostTwice := by simp
  last := rfl

/-- The calls that are traced are those of one search with one retry. -/
theorem retriesOnce_of_traced (code : Code) (find : Code → Lookup) :
    RetriesOnce code ((withRetryTraced code find).2.map fun c => (c, find c))
      (withRetry code find) := by
  rw [withRetryTraced_eq, withRetry_eq]
  by_cases h : find code = .unmapped
  · rw [if_pos h, if_pos h, List.map_cons, List.map_singleton, h]
    exact retriesOnce_pair code _
  · rw [if_neg h, if_neg h]
    exact retriesOnce_single h

/-- So are the calls of a search that changes something with each. Noting them makes no difference
to its answer, or to what it leaves behind. -/
theorem retriesOnce_of_noting {σ : Type} (find : Code → StateM σ Lookup) (code : Code)
    (state : σ) : ∃ result left calls, withRetryM code find state = (result, left) ∧
      withRetryM code (notingAnswers find) (state, []) = (result, left, calls) ∧
      RetriesOnce code calls result := by
  cases hfirst : find code state with
  | mk answer between =>
    cases answer with
    | unmapped =>
      cases hsecond : find (twin code) between with
      | mk result left =>
        refine ⟨result, left, _, ?_, ?_, retriesOnce_pair code result⟩
        · simp [withRetryM, bind, StateT.bind, hfirst, hsecond]
        · simp [withRetryM, notingAnswers, bind, StateT.bind, hfirst, hsecond]
    | char c =>
      refine ⟨.char c, between, _, ?_, ?_, retriesOnce_single (by simp)⟩
      · simp only [withRetryM, bind, StateT.bind, hfirst]
        rfl
      · simp only [withRetryM, notingAnswers, bind, StateT.bind, hfirst]
        rfl
    | unknownCharset =>
      refine ⟨.unknownCharset, between, _, ?_, ?_, retriesOnce_single (by simp)⟩
      · simp only [withRetryM, bind, StateT.bind, hfirst]
        rfl
      · simp only [withRetryM, notingAnswers, bind, StateT.bind, hfirst]
        rfl

/-! ## The three outcomes -/

/-- How the outcomes of decoding hang on those of the search, in one charset. -/
structure TwinLaws (known : Prop) (lookup decode : Code → Lookup) : Prop where
  /-- Only an unknown charset is unknown, and in it only the space has an answer. -/
  unknownCharset : ∀ code, decode code = .unknownCharset ↔ code ≠ space ∧ ¬ known
  /-- What decodes to nothing is unmapped together with its twin. -/
  unmapped : ∀ code,
    decode code = .unmapped ↔ lookup code = .unmapped ∧ lookup (twin code) = .unmapped
  /-- A code decodes as its twin does if either is unmapped. -/
  symmetric : ∀ code, lookup code = .unmapped ∨ lookup (twin code) = .unmapped →
    decode code = decode (twin code)

/-- The laws hold of any search with one retry that has an answer for the space, and calls a charset
unknown for the other codes when it is. -/
theorem twinLaws_withRetry (answers_space : find space ≠ .unmapped)
    (tells_unknown : ∀ code, find code = .unknownCharset ↔ code ≠ space ∧ ¬ known) :
    TwinLaws known find (withRetry · find) where
  unknownCharset code := by
    rw [withRetry_eq]
    split
    · next unmapped =>
      -- An unmapped code is not the space, and its charset is known; so is the twin's.
      have hcode : code ≠ space := fun heq => answers_space (heq ▸ unmapped)
      have hknown : known := by
        by_contra unknown
        rw [(tells_unknown code).mpr ⟨hcode, unknown⟩] at unmapped
        cases unmapped
      simp [tells_unknown, hknown]
    · exact tells_unknown code
  unmapped code := by
    rw [withRetry_eq]
    split
    · next unmapped => simp [unmapped]
    · next mapped => simp [mapped]
  symmetric code either := by
    simp only [withRetry_eq, twin_twin]
    split
    · next unmapped =>
      split
      · next both => rw [both, unmapped]
      · rfl
    · next mapped => rw [if_pos (either.resolve_left mapped)]

/-! ## Tables -/

/-- A table has an answer for the space, and calls a charset unknown without a page. -/
theorem CodeTable.lookup_eq_unknownCharset_iff (t : CodeTable) (code : Code) (mode : Selector) :
    t.lookup code mode = .unknownCharset ↔ code ≠ space ∧ ¬ t.pages.contains mode = true := by
  unfold CodeTable.lookup Assoc.contains
  by_cases hspace : code = space
  · simp [hspace]
  · rw [if_neg hspace]
    cases t.pages.find? mode with
    | none => simp [hspace]
    | some page => cases hpage : (page.find? code).join <;> simp [hpage, Lookup.ofListed]

theorem CodeTable.twinLaws (t : CodeTable) (mode : Selector) :
    TwinLaws (t.pages.contains mode = true) (t.lookup · mode) (t.decode · mode) := by
  refine twinLaws_withRetry ?_ fun code => t.lookup_eq_unknownCharset_iff code mode
  simp [CodeTable.lookup]

/-- The retry does not mix the three outcomes up, in a table or in a table compiled from it, and
makes no difference between a code and its twin. Any search whatever, also one that is changed by
its calls, is called a second time, for the twin, only to follow an answer that the code is
unmapped, and never a third time. -/
theorem decode_keeps_outcomes :
    (∀ (t : CodeTable) (mode : Selector),
      TwinLaws (t.pages.contains mode = true) (t.lookup · mode) (t.decode · mode)) ∧
    (∀ (t : CodeTable) (policy : Policy) (p : CompiledTable),
      (compile t policy).outcome = .ok p → ∀ mode : Selector,
        TwinLaws (t.pages.contains mode = true) (p.lookup · mode) (p.decode · mode)) ∧
    (∀ (code : Code) (find : Code → Lookup), (withRetryTraced code find).1 = withRetry code find ∧
      RetriesOnce code ((withRetryTraced code find).2.map fun c => (c, find c))
        (withRetry code find)) ∧
    ∀ (σ : Type) (find : Code → StateM σ Lookup) (code : Code) (state : σ),
      ∃ result left calls, withRetryM code find state = (result, left) ∧
        withRetryM code (notingAnswers find) (state, []) = (result, left, calls) ∧
        RetriesOnce code calls result := by
  refine ⟨CodeTable.twinLaws, fun t policy p h mode => ?_, fun code find => ?_, ?_⟩
  · have same_lookup : (p.lookup · mode) = (t.lookup · mode) :=
      funext fun code => lookup_of_compile h code mode
    have same_decode : (p.decode · mode) = (t.decode · mode) :=
      funext fun code => decode_of_compile h code mode
    rw [same_lookup, same_decode]
    exact t.twinLaws mode
  · exact ⟨by rw [withRetryTraced_eq], retriesOnce_of_traced code find⟩
  · exact fun σ => retriesOnce_of_noting

/-- A charset cut into two blocks, with a code in one and its twin in the other: the two decode
alike. A code whose twin is the space is never unmapped, and the unknown charset stays unknown. -/
theorem decode_keeps_outcomes_two_blocks :
    let page : Page := .ofList [(0x21, none), (0x41, none), (0xA1, some 'Ł'), (0xC1, none)]
    let t : CodeTable := .build 0x31 [.insertPage 0x45 page]
    let p : CompiledTable :=
      ⟨#[], #[⟨0x45, .page [⟨⟨0, 0xA0⟩, #[(0x21, none), (0x41, none)]⟩,
        ⟨⟨0xA1, 0xFFFFFFFF⟩, #[(0xA1, some 'Ł'), (0xC1, none)]⟩]⟩]⟩
    (compile t ⟨[], ⟨2⟩, .matchTree⟩).outcome = .ok p ∧
      p.decode 0x21 0x45 = p.decode 0xA1 0x45 ∧ p.decode 0x41 0x45 = .unmapped ∧
      p.decode 0xA0 0x45 ≠ .unmapped ∧ p.decode 0xA0 0x45 = p.decode 0x20 0x45 ∧
      p.decode 0xA0 0x46 = .unknownCharset := by
  intro page t p
  have h : (compile t ⟨[], ⟨2⟩, .matchTree⟩).outcome = .ok p := by cbv
  have known := decode_keeps_outcomes.2.1 t _ p h 0x45
  have unknown := decode_keeps_outcomes.2.1 t _ p h 0x46
  refine ⟨h, ?_, ?_, ?_, ?_, ?_⟩
  · exact known.symmetric 0x21 (.inl (by decide +kernel))
  · exact (known.unmapped 0x41).mpr (by decide +kernel)
  · exact fun unmapped => absurd ((known.unmapped 0xA0).mp unmapped) (by decide +kernel)
  · exact known.symmetric 0xA0 (.inl (by decide +kernel))
  · exact (unknown.unknownCharset 0xA0).mpr (by decide +kernel)

end Marc8
