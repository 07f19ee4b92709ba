/-
Marc8.Proofs.Retry — what a code decodes to that its page does not map.

The second search is the first one over again, with the twin of the code. It
answers for the space before it looks at any page, and so the page of the
charset decides for every code but one: 0xA0, the twin of the space. If the page
has nothing for it, it decodes to a space, whatever the page says about the
space (`twin_of_space_decodes_apart_from_page`).

  `decode_of_unmapped`       — an unmapped code decodes to what the search says
                               about its twin;
  `unmapped_decodes_by_twin` — so it does in a table, in the table compiled from
                               it, and in the text of that one.
-/
import Marc8.Proofs.Answers
import Marc8.Proofs.Emission

namespace Marc8

variable {t : CodeTable} {policy : Policy} {p : CompiledTable} {page : Page} {mode : Selector}
  {code : Code} {answer : Lookup}

/-! ## Two searches in a table -/

/-- In every charset the space is itself. -/
@[simp] theorem CodeTable.lookup_space (t : CodeTable) (mode : Selector) :
    t.lookup space mode = .char ' ' := if_pos rfl

/-- For any other code the page of the charset decides. -/
theorem CodeTable.lookup_of_page (hpage : t.pages.find? mode = some page) (hcode : code ≠ space) :
    t.lookup code mode = .ofListed (page.find? code).join := by
  rw [lookup, if_neg hcode, hpage]

/-- A code for which the page has nothing decodes to what the search says about its twin. -/
theorem CodeTable.decode_of_unmapped (hpage : t.pages.find? mode = some page)
    (hcode : code ≠ space) (unmapped : (page.find? code).join = none) :
    t.decode code mode = t.lookup (twin code) mode := by
  have hfirst : t.lookup code mode = .unmapped := by
    rw [lookup_of_page hpage hcode, unmapped]
    rfl
  rw [decode, withRetry_eq, if_pos hfirst]

/-! ## The same answer three times -/

/-- The code decodes to the answer in the table, in the compiled one, and as the text of the
compiled one says, in either form of blocks. -/
structure DecodesTo (t : CodeTable) (p : CompiledTable) (code : Code) (mode : Selector)
    (answer : Lookup) : Prop where
  table : t.decode code mode = answer
  compiled : p.decode code mode = answer
  text : ∀ form, ∃ f, Fragment.ofText? (render p form) = some f ∧
    f.decode? code mode = some answer

/-- Compilation and printing keep what a table decodes. -/
theorem decodesTo_of_decode_eq (h : (compile t policy).outcome = .ok p)
    (table : t.decode code mode = answer) : DecodesTo t p code mode answer := by
  have compiled : p.decode code mode = answer := by rw [decode_of_compile h, table]
  refine ⟨table, compiled, fun form => ⟨_, ofText?_render p form, ?_⟩⟩
  rw [(answersAs_ofCompiled h form).decode, compiled]

/-- A code for which the page has nothing decodes to the character that the page has for its twin,
and to no character if it has none for the twin either. Only the twin of the space, for which the
page has nothing, decodes to a space. -/
theorem unmapped_decodes_by_twin (h : (compile t policy).outcome = .ok p) {selector : Selector}
    (hpage : t.pages.find? selector = some page) (hcode : code ≠ space)
    (unmapped : (page.find? code).join = none) :
    (twin code ≠ space →
      (∀ c, (page.find? (twin code)).join = some c → DecodesTo t p code selector (.char c)) ∧
      ((page.find? (twin code)).join = none → DecodesTo t p code selector .unmapped)) ∧
    (twin code = space → DecodesTo t p code selector (.char ' ')) := by
  have hdecode := CodeTable.decode_of_unmapped hpage hcode unmapped
  constructor
  · intro htwin
    rw [CodeTable.lookup_of_page hpage htwin] at hdecode
    refine ⟨fun c mapped => ?_, fun neither => ?_⟩
    · rw [mapped] at hdecode
      exact decodesTo_of_decode_eq h hdecode
    · rw [neither] at hdecode
      exact decodesTo_of_decode_eq h hdecode
  · intro htwin
    rw [htwin, CodeTable.lookup_space] at hdecode
    exact decodesTo_of_decode_eq h hdecode

/-- A charset of three codes, one of them listed without a character: a code decodes to the
character of its twin, two codes without one to none, and the twin of the space to a space. -/
theorem unmapped_decodes_by_twin_three_codes :
    let page : Page := .ofList [(0xA1, some 'Ł'), (0xAF, none), (0x20, some '!')]
    let t : CodeTable := .build 0x31 [.insertPage 0x45 page]
    let p : CompiledTable :=
      ⟨#[], #[⟨0x45, .page [⟨⟨0, 0xAE⟩, #[(0x20, some '!'), (0xA1, some 'Ł')]⟩,
        ⟨⟨0xAF, 0xFFFFFFFF⟩, #[(0xAF, none)]⟩]⟩]⟩
    DecodesTo t p 0x21 0x45 (.char 'Ł') ∧ DecodesTo t p 0xAF 0x45 .unmapped ∧
      DecodesTo t p 0xA0 0x45 (.char ' ') := by
  intro page t p
  have h : (compile t ⟨[], ⟨2⟩, .sortedArray⟩).outcome = .ok p := by cbv
  have hpage : t.pages.find? 0x45 = some page := rfl
  refine ⟨?_, ?_, ?_⟩
  · exact ((unmapped_decodes_by_twin h hpage (by decide : (0x21 : Code) ≠ space) (by decide)).1
      (by decide)).1 'Ł' (by decide)
  · exact ((unmapped_decodes_by_twin h hpage (by decide : (0xAF : Code) ≠ space) (by decide)).1
      (by decide)).2 (by decide)
  · exact (unmapped_decodes_by_twin h hpage (by decide : (0xA0 : Code) ≠ space) (by decide)).2
      (by decide)

/-- One page says nothing about 0xA0 and the space, and another has an exclamation mark for the
space alone. In the first 0xA0 is not unmapped, in the second it is not the exclamation mark: it is
a space in both. -/
theorem twin_of_space_decodes_apart_from_page :
    let silent : Page := .ofList [(0x41, some 'A')]
    let loud : Page := .ofList [(0x20, some '!')]
    let t : CodeTable := .build 0x31 [.insertPage 0x42 silent, .insertPage 0x45 loud]
    let p : CompiledTable :=
      ⟨#[], #[⟨0x42, .page [⟨Span.full, #[(0x41, some 'A')]⟩]⟩,
        ⟨0x45, .page [⟨Span.full, #[(0x20, some '!')]⟩]⟩]⟩
    (compile t .standard).outcome = .ok p ∧ (0xA0 : Code) ≠ space ∧
      (t.pages.find? 0x42 = some silent ∧ (silent.find? 0xA0).join = none ∧
        (silent.find? (twin 0xA0)).join = none ∧
        t.decode 0xA0 0x42 ≠ .unmapped ∧ p.decode 0xA0 0x42 ≠ .unmapped) ∧
      (t.pages.find? 0x45 = some loud ∧ (loud.find? 0xA0).join = none ∧
        (loud.find? (twin 0xA0)).join = some '!' ∧
        t.decode 0xA0 0x45 ≠ .char '!' ∧ p.decode 0xA0 0x45 ≠ .char '!') := by
  intro silent loud t p
  have h : (compile t .standard).outcome = .ok p := by cbv
  have hsilent : t.decode 0xA0 0x42 = .char ' ' := by decide
  have hloud : t.decode 0xA0 0x45 = .char ' ' := by decide
  refine ⟨h, by decide, ⟨rfl, by decide, by decide, ?_, ?_⟩, ⟨rfl, by decide, by decide, ?_, ?_⟩⟩
  · rw [hsilent]
    simp
  · rw [decode_of_compile h, hsilent]
    simp
  · rw [hloud]
    simp
  · rw [decode_of_compile h, hloud]
    simp

end Marc8
