/-
Marc8.Proofs.Emission — the text of a compiled table means what the table does.

Three facts about fragments come together here: the fragment of a compiled table
can be printed (`printable_ofCompiled`), its text reads as the fragment itself
(`ofText?_text`), and its calls answer as the table does (`lookup?_ofCompiled`
and the like).

  `render_preserves_answers` — for every table and policy, in either form, and
                               so for the decoder of the bundled table too.
-/
import Marc8.Decoder
import Marc8.Proofs.Bundled
import Marc8.Proofs.Fragment.Reading
import Marc8.Proofs.Fragment.Running

namespace Marc8

variable {t : CodeTable} {policy : Policy} {p : CompiledTable}

/-- The fragment answers every question, and each as the compiled table does. -/
structure Fragment.AnswersAs (f : Fragment) (p : CompiledTable) : Prop where
  lookup : ∀ code mode, f.lookup? code mode = some (p.lookup code mode)
  decode : ∀ code mode, f.decode? code mode = some (p.decode code mode)
  isCombining : ∀ code g0 g1, f.isCombining? code g0 g1 = some (p.isCombining code g0 g1)

/-- A text reads as the fragment that it has been written from. -/
theorem ofText?_render (p : CompiledTable) (form : BlockForm) :
    Fragment.ofText? (render p form) = some (.ofCompiled p form) :=
  Fragment.ofText?_text (Fragment.printable_ofCompiled p form)

theorem answersAs_ofCompiled (h : (compile t policy).outcome = .ok p) (form : BlockForm) :
    (Fragment.ofCompiled p form).AnswersAs p where
  lookup := Fragment.lookup?_ofCompiled (compile_wellFormed h) form
  decode := Fragment.decode?_ofCompiled (compile_wellFormed h) form
  isCombining := Fragment.isCombining?_ofCompiled (compile_wellFormed h) form

/-! ## The decoder of the bundled table -/

namespace Decoder

theorem textOf_eq (h : (compile t policy).outcome = .ok p) :
    textOf t policy = render p policy.form := by
  rw [textOf, h]

/-- The text of the bundled table reads as the fragment of the compiled one. -/
theorem ofText?_text (h : (compile Bundled.table .standard).outcome = .ok p) :
    Fragment.ofText? text = some (.ofCompiled p Policy.standard.form) := by
  rw [text, textOf_eq h, ofText?_render]

theorem fragment_eq (h : (compile Bundled.table .standard).outcome = .ok p) :
    fragment = .ofCompiled p Policy.standard.form := by
  rw [fragment, ofText?_text h, Option.getD_some]

theorem decode_eq (h : (compile Bundled.table .standard).outcome = .ok p) (code : Code)
    (mode : Selector) : decode code mode = p.decode code mode := by
  rw [decode, fragment_eq h, (answersAs_ofCompiled h _).decode, Option.getD_some]

theorem isCombining_eq (h : (compile Bundled.table .standard).outcome = .ok p) (code : Code)
    (g0 g1 : Selector) : isCombining code g0 g1 = p.isCombining code g0 g1 := by
  rw [isCombining, fragment_eq h, (answersAs_ofCompiled h _).isCombining, Option.getD_some]

end Decoder

/-! ## Every text -/

/-- The text of a compiled table reads as a fragment that answers as the table does, in either
form, so that the fragments of both forms answer alike. The bundled table can be compiled under the
standard policy, and its decoder answers as the compiled table does. -/
theorem render_preserves_answers :
    (∀ (t : CodeTable) (policy : Policy) (p : CompiledTable),
      (compile t policy).outcome = .ok p → ∀ form : BlockForm,
        ∃ f, Fragment.ofText? (render p form) = some f ∧ f.AnswersAs p) ∧
    (∀ (t : CodeTable) (policy : Policy) (p : CompiledTable),
      (compile t policy).outcome = .ok p → ∃ tree sorted,
        Fragment.ofText? (render p .matchTree) = some tree ∧
        Fragment.ofText? (render p .sortedArray) = some sorted ∧
        ∀ (code : Code) (mode g0 g1 : Selector),
          tree.lookup? code mode = sorted.lookup? code mode ∧
          tree.decode? code mode = sorted.decode? code mode ∧
          tree.isCombining? code g0 g1 = sorted.isCombining? code g0 g1) ∧
    ∃ p, (compile Bundled.table .standard).outcome = .ok p ∧
      Fragment.ofText? Decoder.text = some Decoder.fragment ∧
      (∀ (code : Code) (mode : Selector), Decoder.decode code mode = p.decode code mode) ∧
      ∀ (code : Code) (g0 g1 : Selector),
        Decoder.isCombining code g0 g1 = p.isCombining code g0 g1 := by
  refine ⟨?_, ?_, ?_⟩
  · intro t policy p h form
    exact ⟨_, ofText?_render p form, answersAs_ofCompiled h form⟩
  · intro t policy p h
    refine ⟨_, _, ofText?_render p .matchTree, ofText?_render p .sortedArray, ?_⟩
    intro code mode g0 g1
    have tree := answersAs_ofCompiled h .matchTree
    have sorted := answersAs_ofCompiled h .sortedArray
    refine ⟨?_, ?_, ?_⟩
    · rw [tree.lookup, sorted.lookup]
    · rw [tree.decode, sorted.decode]
    · rw [tree.isCombining, sorted.isCombining]
  · obtain ⟨p, h⟩ := Bundled.exists_compiled
    refine ⟨p, h, ?_, Decoder.decode_eq h, Decoder.isCombining_eq h⟩
    rw [Decoder.ofText?_text h, Decoder.fragment_eq h]

/-- A multi-byte charset in two bands, one of them cut, and a charset of one block: the text of
nested routines finds the twin of a code, and the text of tables says what is not mapped and what
combines. -/
theorem render_preserves_answers_two_charsets :
    let t : CodeTable := .build 0x31
      [.insertPage 0x31 (.ofList [(0x213021, some 'a'), (0x21307E, some 'b'), (0x215022, none)]),
        .insertPage 0x42 (.ofList [(0x41, some 'A')]), .addCombining 0x42 [0x41]]
    let p : CompiledTable :=
      ⟨#[⟨0x42, #[0x41]⟩],
        #[⟨0x31, .multibyte
            [⟨⟨0x210000, 0x21307D⟩, #[(0x213021, some 'a')]⟩,
              ⟨⟨0x21307E, 0x214FFF⟩, #[(0x21307E, some 'b')]⟩,
              ⟨⟨0x215000, 0x21FFFF⟩, #[(0x215022, none)]⟩]⟩,
          ⟨0x42, .page [⟨Span.full, #[(0x41, some 'A')]⟩]⟩]⟩
    (compile t ⟨[⟨0x210000, 0x214FFF⟩, ⟨0x215000, 0x21FFFF⟩], ⟨1⟩, .matchTree⟩).outcome = .ok p ∧
    (∃ nested, Fragment.ofText? (render p .matchTree) = some nested ∧
      nested.decode? 0x2130A1 0x31 = some (.char 'a')) ∧
    ∃ sorted, Fragment.ofText? (render p .sortedArray) = some sorted ∧
      sorted.lookup? 0x215022 0x31 = some .unmapped ∧
      sorted.isCombining? 0x41 0x42 0 = some true := by
  intro t p
  have h : (compile t ⟨[⟨0x210000, 0x214FFF⟩, ⟨0x215000, 0x21FFFF⟩], ⟨1⟩, .matchTree⟩).outcome =
      .ok p := by cbv
  have hdecode : p.decode 0x2130A1 0x31 = .char 'a' := by cbv
  have hlookup : p.lookup 0x215022 0x31 = .unmapped := by cbv
  have hcombining : p.isCombining 0x41 0x42 0 = true := by cbv
  obtain ⟨nested, hnested, hn⟩ := render_preserves_answers.1 t _ p h .matchTree
  obtain ⟨sorted, hsorted, hs⟩ := render_preserves_answers.1 t _ p h .sortedArray
  refine ⟨h, ⟨nested, hnested, ?_⟩, sorted, hsorted, ?_, ?_⟩
  · rw [hn.decode, hdecode]
  · rw [hs.lookup, hlookup]
  · rw [hs.isCombining, hcombining]

end Marc8
