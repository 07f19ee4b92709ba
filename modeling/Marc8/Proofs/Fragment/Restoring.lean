/-
Marc8.Proofs.Fragment.Restoring — the compiled table, read back from its text.

`CompiledTable.ofText?` reads a text as a fragment and the fragment as a table:
the arms of `is_combining` are the combining codes, the arms of `lookup` lead to
the sections of the charsets, and a section has the blocks in its units. The
span of a block stands in the route; where there is no route, the block stands for
all codes. Which of the charsets is the multi-byte one is seen from the name of
its section.

The reader is one and the same for both forms of a block, and it does not need to
know how the table was compiled:

  `compiled?_ofCompiled` — the fragment of a well-formed table tells the table;
  `render_loses_nothing` — so does the text, and tables with equal texts are
                           equal.
-/
import Marc8.Proofs.Emission
import Marc8.Proofs.Fragment.Sections

namespace Marc8

namespace Fragment

/-! ## Reading a table off a fragment -/

/-- The arms of the choice with which a routine ends. -/
def armsOf? (f : Fragment) (name : String) : Option (List (UInt32 × Atom)) := do
  match (← f.routine? name).tail with
  | .choice _ arms _ => some arms
  | _ => none

/-- The combining codes of an arm. -/
def combiningSet? : UInt32 × Atom → Option CombiningSet
  | (selector, .never) => some ⟨selector, #[]⟩
  | (selector, .oneOf _ code others) => some ⟨selector, (code :: others).toArray⟩
  | _ => none

/-- The block of a span: its entries are those of the unit that the code is handed on to. -/
def block? (f : Fragment) (target : Span × String) : Option Block := do
  let unit ← f.routine? target.2
  let entries ← unit.entries?
  return ⟨target.1, entries.toArray⟩

/-- The layout of a charset that is entered by the routine of this name. -/
def layout? (f : Fragment) (name : String) : Option Layout := do
  let entrance ← f.routine? name
  match entrance.entries? with
  | some entries => return .page [⟨Span.full, entries.toArray⟩]
  | none =>
    let targets ← entrance.route?
    let blocks ← targets.mapM f.block?
    return if name = multibyteName then .multibyte blocks else .page blocks

/-- The charset of an arm. -/
def charset? (f : Fragment) : UInt32 × Atom → Option Charset
  | (selector, .call c) => (f.layout? c.callee).map fun layout => ⟨selector, layout⟩
  | _ => none

/-- The compiled table of which this is the fragment. -/
def compiled? (f : Fragment) : Option CompiledTable := do
  let combining ← (← f.armsOf? "is_combining").mapM combiningSet?
  let charsets ← (← f.armsOf? "lookup").mapM f.charset?
  return ⟨combining.toArray, charsets.toArray⟩

/-! ## What is read off the fragment of a table -/

section Reading

variable {f : Fragment} {charset : Charset} {routines : List Routine}

/-- A routine is found under its name, and its arms with it. -/
theorem armsOf?_eq (nodup : (f.routines.map (·.name)).Nodup) {r : Routine} (hr : r ∈ f.routines)
    {x : String} {arms : List (UInt32 × Atom)} {other : Atom}
    (htail : r.tail = .choice x arms other) : f.armsOf? r.name = some arms := by
  rw [armsOf?, routine?_of_mem nodup hr]
  simp only [Option.bind_eq_bind, Option.bind_some, htail]

/-- Both an empty set of combining codes and another one are read back. -/
theorem combiningSet?_member (set : CombiningSet) :
    combiningSet? (set.selector, combiningRoutine.member set.codes.toList) = some set := by
  obtain ⟨selector, ⟨codes⟩⟩ := set
  cases codes <;> rfl

/-- The name of the multi-byte charset's section is not that of another charset's. -/
theorem pageName_ne_multibyteName (selector : Selector) : pageName selector ≠ multibyteName := by
  have hpage := charsetName_eq ⟨selector, .page []⟩
  have hmultibyte := charsetName_eq ⟨selector, .multibyte []⟩
  intro heq
  have hmark := joined_injective (plain_mark ⟨selector, .page []⟩)
    (plain_mark ⟨selector, .multibyte []⟩) (hpage.symm.trans (heq.trans hmultibyte))
  simp [mark] at hmark

/-- The kind of a charset is told by the name of its section. -/
theorem layout_eq_ite_name (charset : Charset) :
    (if charsetName charset = multibyteName then Layout.multibyte charset.layout.blocks
      else .page charset.layout.blocks) = charset.layout := by
  obtain ⟨selector, layout⟩ := charset
  cases layout with
  | page blocks => exact if_neg (pageName_ne_multibyteName selector)
  | multibyte blocks => exact if_pos rfl

/-- The unit of a block tells the block. -/
theorem block?_of_isUnit (nodup : (f.routines.map (·.name)).Nodup) {unit : Routine}
    (hunit : unit ∈ f.routines) {name : String} {block : Block}
    (isUnit : unit.IsUnit name block.entries.toList) :
    f.block? (block.span, name) = some block := by
  have hfind := routine?_of_mem nodup hunit
  rw [isUnit.name] at hfind
  simp [block?, hfind, isUnit.entries]

/-- The section of a charset tells its layout, as long as a block without route stands for all
codes. -/
theorem Section.layout?_eq (h : Section charset routines)
    (nodup : (f.routines.map (·.name)).Nodup) (hmem : ∀ r ∈ routines, r ∈ f.routines)
    (full : ∀ block, charset.layout = .page [block] → block.span = Span.full) :
    f.layout? (charsetName charset) = some charset.layout := by
  cases h with
  | @whole block unit only isUnit =>
    have hfind := routine?_of_mem nodup (hmem unit (by simp))
    rw [isUnit.name] at hfind
    obtain ⟨span, entries⟩ := block
    obtain rfl : span = Span.full := full _ only
    simp [layout?, hfind, isUnit.entries, only]
  | @routed units route several areUnits isRoute =>
    have hfind := routine?_of_mem nodup (hmem route (by simp))
    rw [isRoute.name] at hfind
    have hblocks : (targets charset).mapM f.block? = some charset.layout.blocks := by
      refine mapM_map_eq_some fun block hblock => ?_
      obtain ⟨unit, hunit, isUnit⟩ := exists_right_of_forall₂ areUnits hblock
      exact block?_of_isUnit nodup (hmem unit (List.mem_append_left _ hunit)) isUnit
    simp only [layout?, hfind, Option.bind_eq_bind, Option.bind_some, isRoute.entries?_eq_none,
      isRoute.targets, hblocks, layout_eq_ite_name, Option.pure_def]

end Reading

variable {p : CompiledTable}

/-- A page of one block has a block that stands for all codes. -/
theorem span_eq_full (h : p.WellFormed) {charset : Charset} (hcharset : charset ∈ p.charsets)
    {block : Block} (only : charset.layout = .page [block]) : block.span = Span.full := by
  have tiles := h.tiles charset hcharset _ only
  have hfirst : block.span.first = Span.full.first := by simpa using tiles.first
  have hlast : block.span.last = Span.full.last := by simpa using tiles.last
  obtain ⟨⟨first, last⟩, entries⟩ := block
  simp only at hfirst hlast
  rw [hfirst, hlast]

/-- The fragment of a well-formed table tells the table. -/
theorem compiled?_ofCompiled (h : p.WellFormed) (form : BlockForm) :
    (ofCompiled p form).compiled? = some p := by
  have nodup := nodup_names h form
  have hcombining : (ofCompiled p form).armsOf? "is_combining" = _ :=
    armsOf?_eq nodup (r := combiningRoutine p.combining.toList) (by simp [ofCompiled]) rfl
  have hlookup : (ofCompiled p form).armsOf? "lookup" = _ :=
    armsOf?_eq nodup (r := lookupRoutine p.charsets.toList) (by simp [ofCompiled]) rfl
  have hsets : (p.combining.toList.map fun set =>
      (set.selector, combiningRoutine.member set.codes.toList)).mapM combiningSet? =
        some p.combining.toList := mapM_map_eq_some fun set _ => combiningSet?_member set
  have hcharsets : (p.charsets.toList.map fun charset =>
      (charset.selector, Atom.call ⟨charsetName charset, [.var "code"]⟩)).mapM
        (ofCompiled p form).charset? = some p.charsets.toList := by
    refine mapM_map_eq_some fun charset hcharset => ?_
    have hcharset := Array.mem_toList_iff.mp hcharset
    have hlayout := (section_charsetRoutines form charset).layout?_eq nodup
      (fun _ hr => mem_charsetRoutines hcharset hr) fun _ only => span_eq_full h hcharset only
    simp [charset?, hlayout]
  simp [compiled?, hcombining, hlookup, hsets, hcharsets]

end Fragment

/-! ## Reading a table off a text -/

/-- The compiled table of which this is the text. -/
def CompiledTable.ofText? (text : String) : Option CompiledTable :=
  (Fragment.ofText? text).bind Fragment.compiled?

/-- A compiled table is read back from its text, in whichever form its blocks are written. So tables
with equal texts are equal, whatever they were compiled from and under which policies. -/
theorem render_loses_nothing :
    (∀ (t : CodeTable) (policy : Policy) (p : CompiledTable),
      (compile t policy).outcome = .ok p →
        ∀ form, CompiledTable.ofText? (render p form) = some p) ∧
    (∀ (t t' : CodeTable) (policy policy' : Policy) (p p' : CompiledTable),
      (compile t policy).outcome = .ok p → (compile t' policy').outcome = .ok p' →
        ∀ form form', render p form = render p' form' → p = p') := by
  have reads : ∀ (t : CodeTable) (policy : Policy) (p : CompiledTable),
      (compile t policy).outcome = .ok p →
        ∀ form, CompiledTable.ofText? (render p form) = some p := by
    intro t policy p h form
    rw [CompiledTable.ofText?, ofText?_render, Option.bind_some,
      Fragment.compiled?_ofCompiled (compile_wellFormed h)]
  refine ⟨reads, fun t t' policy policy' p p' h h' form form' heq => ?_⟩
  have hread := reads t policy p h form
  rw [heq, reads t' policy' p' h' form'] at hread
  exact (Option.some.inj hread).symm

/-- The combining codes of a charset come in one order and in another one, and the budget takes one
entry or two: what is compiled has the same text, so it is the same table. What lists a code without
a character has not the text of what does not list it. -/
theorem render_loses_nothing_two_histories :
    let t : CodeTable := .build 0x31
      [.insertPage 0x45 (.ofList [(0xA1, some 'Ł')]), .addCombining 0x45 [0xE1, 0xE0]]
    let t' : CodeTable := .build 0x31
      [.addCombining 0x45 [0xE0], .insertPage 0x45 (.ofList [(0xA1, some 'Ł')]),
        .addCombining 0x45 [0xE1, 0xE0]]
    let listing : CodeTable := .build 0x31
      [.insertPage 0x45 (.ofList [(0xA1, some 'Ł'), (0xAF, none)]), .addCombining 0x45 [0xE1, 0xE0]]
    (∃ p p' : CompiledTable,
      (compile t ⟨[], ⟨1⟩, .matchTree⟩).outcome = .ok p ∧
      (compile t' ⟨[], ⟨2⟩, .sortedArray⟩).outcome = .ok p' ∧
      render p .sortedArray = render p' .sortedArray ∧ p = p') ∧
    ∃ p q : CompiledTable,
      (compile t ⟨[], ⟨2⟩, .matchTree⟩).outcome = .ok p ∧
      (compile listing ⟨[], ⟨2⟩, .matchTree⟩).outcome = .ok q ∧
      ∀ form, CompiledTable.ofText? (render q form) = some q ∧ render p form ≠ render q form := by
  intro t t' listing
  let p : CompiledTable :=
    ⟨#[⟨0x45, #[0xE0, 0xE1]⟩], #[⟨0x45, .page [⟨Span.full, #[(0xA1, some 'Ł')]⟩]⟩]⟩
  let q : CompiledTable :=
    ⟨#[⟨0x45, #[0xE0, 0xE1]⟩],
      #[⟨0x45, .page [⟨Span.full, #[(0xA1, some 'Ł'), (0xAF, none)]⟩]⟩]⟩
  have hone : (compile t ⟨[], ⟨1⟩, .matchTree⟩).outcome = .ok p := by cbv
  have htwo : (compile t' ⟨[], ⟨2⟩, .sortedArray⟩).outcome = .ok p := by cbv
  have hp : (compile t ⟨[], ⟨2⟩, .matchTree⟩).outcome = .ok p := by cbv
  have hq : (compile listing ⟨[], ⟨2⟩, .matchTree⟩).outcome = .ok q := by cbv
  constructor
  · exact ⟨p, p, hone, htwo, rfl, render_loses_nothing.2 t t' _ _ p p hone htwo .sortedArray
      .sortedArray rfl⟩
  · refine ⟨p, q, hp, hq, fun form => ⟨render_loses_nothing.1 listing _ q hq form, fun heq => ?_⟩⟩
    have hpq : p = q := render_loses_nothing.2 t listing _ _ p q hp hq form form heq
    have hne : p ≠ q := by decide
    exact hne hpq

end Marc8
