/-
Marc8.Proofs.Fragment.Validity — the emitted text is valid code.

What a compiler would ask of a text in the emitted language, and what it would
warn about, is said of fragments: of a routine by itself (`Routine.Valid`), and
of names and calls across routines (`Valid`). What a reader of the text expects
to find, and where, is `LaidOut`.

  `kind_of_mem`      — a fragment has routines of five kinds, and each is valid;
  `Section.calls`,
  `Section.called`   — calls from a section stay in it, and only the routine
                       with the name of the charset is called from outside;
  `render_valid`     — the text of a compiled table is laid out and valid, and
                       its literals but one are escapes.
-/
import Marc8.Proofs.Coverage
import Marc8.Proofs.Fragment.Literals

namespace Marc8

/-! ## The size of blocks -/

section Size

variable {t : CodeTable} {policy : Policy} {p : CompiledTable} {multibyte selector : Selector}
  {page : Page} {charset : Charset}

/-- The blocks of a charset keep to the budget. -/
theorem size_le_of_compileCharset
    (h : (compileCharset policy multibyte selector page).outcome = .ok charset) :
    ∀ block ∈ charset.layout.blocks, block.entries.size ≤ policy.budget.room := by
  obtain ⟨_, blocks, rfl, hpart⟩ | ⟨_, blocks, rfl, tiling⟩ := compileCharset_cases h
  · obtain ⟨_, ⟨_, rfl⟩ | ⟨groups, rfl, tilings, _⟩⟩ :=
      tilings_of_partition (ascends_toArray_ascending page) hpart
    · simp [Layout.blocks]
    · exact tilings.size_le
  · exact tiling.size_le

/-- No block of a compiled table is over the budget. -/
theorem size_le_of_compile (h : (compile t policy).outcome = .ok p)
    (hcharset : charset ∈ p.charsets) :
    ∀ block ∈ charset.layout.blocks, block.entries.size ≤ policy.budget.room := by
  obtain ⟨_, _, hcompiled⟩ :=
    exists_left_of_forall₂ (compile_eq_ok_iff.mp h).2 (Array.mem_toList_iff.mpr hcharset)
  exact size_le_of_compileCharset hcompiled

end Size

namespace Fragment

/-! ## What is asked of a fragment -/

/-- The answers that a statement may give. -/
def Stmt.answers : Stmt → List Atom
  | returnIf _ answer => [answer]
  | pick .. | entries .. => []

/-- The answers that the last expression may give. -/
def Tail.answers : Tail → List Atom
  | atom answer => [answer]
  | choice _ arms other => arms.map (·.2) ++ [other]
  | orElse first second => [.call first, .call second]
  | search _ => []

/-- The answers that a routine may give, calls among them. -/
def Routine.answers (r : Routine) : List Atom := r.statements.flatMap Stmt.answers ++ r.tail.answers

/-- The test that a statement makes. -/
def Stmt.test? : Stmt → Option Test
  | pick _ test _ _ => some test
  | returnIf test _ => some test
  | entries .. => none

/-- What is asked of a routine by itself, when a unit has room for so many entries. -/
structure Routine.Valid (room : Nat) (r : Routine) : Prop where
  /-- No number has two arms. -/
  arms : ∀ x arms other, r.tail = .choice x arms other → (arms.map Prod.fst).Nodup
  /-- A test for several numbers has each of them once. -/
  numbers : ∀ x first others, .oneOf x first others ∈ r.answers → (first :: others).Nodup
  /-- A test for a span does not always fail. -/
  spans : ∀ stmt ∈ r.statements, ∀ span x, stmt.test? = some (.within span x) →
    span.first ≤ span.last
  /-- An array is as long as declared, and its codes ascend. -/
  arrays : ∀ length rows, .entries length rows ∈ r.statements →
    length = rows.length ∧ rows.Pairwise fun a b => a.1 < b.1
  /-- A unit has no more entries than it has room for. -/
  size_le : ∀ entries, r.entries? = some entries → entries.length ≤ room

/-- What is asked of the routines of a fragment. -/
structure Valid (room : Nat) (f : Fragment) : Prop where
  /-- No two share a name. -/
  names : (f.routines.map (·.name)).Nodup
  /-- What is called is there, and takes what is handed to it. -/
  calls : ∀ r ∈ f.routines, ∀ c, .call c ∈ r.answers → ∃ callee ∈ f.routines,
    callee.name = c.callee ∧ callee.parameters.length = c.operands.length
  /-- What cannot be called from outside is called. -/
  called : ∀ r ∈ f.routines, r.exported = false → ∃ caller ∈ f.routines, ∃ c,
    .call c ∈ caller.answers ∧ c.callee = r.name
  routines : ∀ r ∈ f.routines, r.Valid room

/-- The routines of a fragment stand in this order, and there are no others: three with fixed names,
of which the third cannot be called from outside, and then the sections of the charsets, by
ascending selector and with their units by ascending span. -/
structure LaidOut (p : CompiledTable) (f : Fragment) : Prop where
  routines : ∃ combining decode lookup sections,
    f.routines = [combining, decode, lookup] ++ sections.flatten ∧
    combining.name = "is_combining" ∧ decode.name = "decode" ∧ lookup.name = "lookup" ∧
    lookup.exported = false ∧ List.Forall₂ Section p.charsets.toList sections
  selectors : p.charsets.toList.Pairwise fun a b => a.selector < b.selector
  spans : ∀ charset ∈ p.charsets,
    charset.layout.blocks.Pairwise fun a b => a.span.last < b.span.first

/-! ## Units and routes -/

variable {r : Routine} {name : String} {entries : List Entry} {room : Nat}

/-- A unit calls nothing: it answers for its entries. -/
theorem Routine.IsUnit.answers (h : r.IsUnit name entries) :
    ∀ answer ∈ r.answers, ∃ value, answer = listed value := by
  intro answer hanswer
  rcases entries?_eq_some_iff.mp h.entries with ⟨hstatements, x, htail⟩ | ⟨hstatements, x, htail⟩
  · have hmem : (∃ e ∈ entries, listed e.2 = answer) ∨ answer = .unmapped := by
      simpa only [Routine.answers, hstatements, htail, Tail.answers, List.flatMap_nil,
        List.nil_append, List.map_map, List.mem_append, List.mem_map, Function.comp_apply,
        List.mem_singleton] using hanswer
    rcases hmem with ⟨e, _, rfl⟩ | rfl
    · exact ⟨e.2, rfl⟩
    · exact ⟨none, rfl⟩
  · simp [Routine.answers, hstatements, htail, Tail.answers, Stmt.answers] at hanswer

theorem Routine.IsUnit.valid (h : r.IsUnit name entries) (ascends : Ascends Prod.fst entries)
    (size_le : entries.length ≤ room) : r.Valid room where
  arms x arms other htail := by
    rcases entries?_eq_some_iff.mp h.entries with ⟨_, y, hchoice⟩ | ⟨_, y, hsearch⟩
    · obtain ⟨_, rfl, _⟩ := Tail.choice.inj (htail.symm.trans hchoice)
      rw [List.map_map]
      exact ascends.nodup_map
    · rw [hsearch] at htail
      cases htail
  numbers x first others hmem := by
    obtain ⟨value, heq⟩ := h.answers _ hmem
    cases value <;> cases heq
  spans stmt hstmt span x htest := by
    rcases entries?_eq_some_iff.mp h.entries with ⟨hstatements, _⟩ | ⟨hstatements, _⟩
    · rw [hstatements] at hstmt
      cases hstmt
    · rw [hstatements] at hstmt
      obtain rfl := List.mem_singleton.mp hstmt
      cases htest
  arrays length rows hmem := by
    rcases entries?_eq_some_iff.mp h.entries with ⟨hstatements, _⟩ | ⟨hstatements, _⟩
    · rw [hstatements] at hmem
      cases hmem
    · rw [hstatements] at hmem
      obtain ⟨rfl, rfl⟩ := Stmt.entries.inj (List.mem_singleton.mp hmem)
      exact ⟨rfl, ascends⟩
  size_le entries' hentries := by
    obtain rfl : entries = entries' := Option.some.inj (h.entries.symm.trans hentries)
    exact size_le

/-- A route answers by its calls, and with the answer for none. -/
theorem Routine.IsRoute.answers_eq {targets : List (Span × String)} (h : r.IsRoute name targets) :
    r.answers = targets.map (fun target => .call ⟨target.2, [.var "code"]⟩) ++ [.unmapped] := by
  obtain ⟨htail, hstatements⟩ := route?_eq_some_iff.mp h.targets
  have hanswers : ∀ targets : List (Span × String), (targets.map Stmt.handOn).flatMap Stmt.answers =
      targets.map fun target => .call ⟨target.2, [.var "code"]⟩ := by
    intro targets
    rw [List.flatMap_map, List.map_eq_flatMap]
    rfl
  rw [Routine.answers, htail, hstatements, hanswers]
  rfl

theorem Routine.IsRoute.valid {targets : List (Span × String)} (h : r.IsRoute name targets)
    (nonempty : ∀ target ∈ targets, target.1.first ≤ target.1.last) : r.Valid room where
  arms x arms other htail := by
    rw [(route?_eq_some_iff.mp h.targets).1] at htail
    cases htail
  numbers x first others hmem := by simp [h.answers_eq] at hmem
  spans stmt hstmt span x htest := by
    rw [(route?_eq_some_iff.mp h.targets).2] at hstmt
    obtain ⟨target, htarget, rfl⟩ := List.mem_map.mp hstmt
    obtain ⟨rfl, _⟩ := Test.within.inj (Option.some.inj htest)
    exact nonempty target htarget
  arrays length rows hmem := by
    rw [(route?_eq_some_iff.mp h.targets).2] at hmem
    obtain ⟨_, _, heq⟩ := List.mem_map.mp hmem
    cases heq
  size_le entries hentries := by
    rw [h.entries?_eq_none] at hentries
    cases hentries

/-! ## Sections -/

section Calls

variable {charset : Charset} {routines : List Routine} {c : Call}

/-- What is called from a section is in that section, and takes a code. -/
theorem Section.calls (h : Section charset routines) (hr : r ∈ routines)
    (hcall : .call c ∈ r.answers) : ∃ callee ∈ routines,
      callee.name = c.callee ∧ callee.parameters.length = c.operands.length := by
  rcases h.unit_or_route hr with ⟨block, _, name, isUnit⟩ | isRoute
  · obtain ⟨value, heq⟩ := isUnit.answers _ hcall
    cases value <;> cases heq
  · rw [isRoute.answers_eq, List.mem_append] at hcall
    rcases hcall with hcall | hcall
    · obtain ⟨target, htarget, heq⟩ := List.mem_map.mp hcall
      obtain rfl := Atom.call.inj heq
      obtain ⟨block, hblock, rfl⟩ := List.mem_map.mp htarget
      cases h with
      | whole only isUnit =>
        obtain rfl := List.mem_singleton.mp hr
        cases isRoute.entries?_eq_none.symm.trans isUnit.entries
      | routed several areUnits isRoute' =>
        obtain ⟨unit, hunit, isUnit⟩ := exists_right_of_forall₂ areUnits hblock
        exact ⟨unit, List.mem_append_left _ hunit, isUnit.name, isUnit.parameters⟩
    · cases List.mem_singleton.mp hcall

/-- A routine of a section has the name of the charset, or is called from the section. -/
theorem Section.called (h : Section charset routines) (hr : r ∈ routines) :
    r.name = charsetName charset ∨
      ∃ caller ∈ routines, ∃ c, .call c ∈ caller.answers ∧ c.callee = r.name := by
  cases h with
  | whole only isUnit =>
    obtain rfl := List.mem_singleton.mp hr
    exact .inl isUnit.name
  | @routed units route several areUnits isRoute =>
    rcases List.mem_append.mp hr with hr | hr
    · obtain ⟨block, hblock, isUnit⟩ := exists_left_of_forall₂ areUnits hr
      refine .inr ⟨route, by simp, ⟨blockName charset block.span, [.var "code"]⟩, ?_,
        isUnit.name.symm⟩
      rw [isRoute.answers_eq, targets, List.map_map]
      exact List.mem_append_left _ (List.mem_map.mpr ⟨block, hblock, rfl⟩)
    · obtain rfl := List.mem_singleton.mp hr
      exact .inl isRoute.name

end Calls

/-! ## The first three routines -/

theorem valid_combiningRoutine {p : CompiledTable} (h : p.WellFormed) :
    (combiningRoutine p.combining.toList).Valid room where
  arms x arms other htail := by
    obtain ⟨_, rfl, _⟩ := Tail.choice.inj htail
    rw [List.map_map]
    exact h.combining.nodup_map
  numbers x first others hmem := by
    have hset : ∃ set ∈ p.combining, combiningRoutine.member set.codes.toList =
        .oneOf x first others := by
      simpa [Routine.answers, combiningRoutine, Stmt.answers, Tail.answers] using hmem
    obtain ⟨set, hset, hmember⟩ := hset
    have ascends := h.codes set hset
    cases hcodes : set.codes.toList with
    | nil =>
      rw [hcodes] at hmember
      cases hmember
    | cons code more =>
      rw [hcodes] at hmember ascends
      obtain ⟨_, rfl, rfl⟩ := Atom.oneOf.inj hmember
      simpa using ascends.nodup_map
  spans stmt hstmt span x htest := by
    obtain rfl := List.mem_singleton.mp hstmt
    cases htest
  arrays length rows hmem := by simp [combiningRoutine] at hmem
  size_le entries hentries := by cases hentries

theorem valid_decodeRoutine : decodeRoutine.Valid room where
  arms x arms other htail := by cases htail
  numbers x first others hmem := by
    simp [Routine.answers, decodeRoutine, Tail.answers] at hmem
  spans stmt hstmt := by cases hstmt
  arrays length rows hmem := by cases hmem
  size_le entries hentries := by cases hentries

theorem answers_lookupRoutine (charsets : List Charset) : (lookupRoutine charsets).answers =
    .blank :: charsets.map (fun charset => .call ⟨charsetName charset, [.var "code"]⟩)
      ++ [.unknownCharset] := by
  simp [Routine.answers, lookupRoutine, Stmt.answers, Tail.answers, Function.comp_def]

theorem valid_lookupRoutine {p : CompiledTable} (h : p.WellFormed) :
    (lookupRoutine p.charsets.toList).Valid room where
  arms x arms other htail := by
    obtain ⟨_, rfl, _⟩ := Tail.choice.inj htail
    rw [List.map_map]
    exact h.charsets.nodup_map
  numbers x first others hmem := by simp [answers_lookupRoutine] at hmem
  spans stmt hstmt span x htest := by
    obtain rfl := List.mem_singleton.mp hstmt
    cases htest
  arrays length rows hmem := by simp [lookupRoutine] at hmem
  size_le entries hentries := by cases hentries

/-! ## The fragment of a compiled table -/

variable {p : CompiledTable} {form : BlockForm}

/-- The kinds of routines that the fragment of a compiled table has. -/
inductive Kind (p : CompiledTable) (form : BlockForm) : Routine → Prop
  | combining : Kind p form (combiningRoutine p.combining.toList)
  | decode : Kind p form decodeRoutine
  | lookup : Kind p form (lookupRoutine p.charsets.toList)
  | charset {charset r} (hcharset : charset ∈ p.charsets) (hr : r ∈ charsetRoutines form charset) :
      Kind p form r

theorem kind_of_mem (hr : r ∈ (ofCompiled p form).routines) : Kind p form r := by
  simp only [ofCompiled, List.mem_cons, List.mem_flatMap] at hr
  rcases hr with rfl | rfl | rfl | ⟨charset, hcharset, hr⟩
  · exact .combining
  · exact .decode
  · exact .lookup
  · exact .charset (Array.mem_toList_iff.mp hcharset) hr

theorem laidOut_ofCompiled (h : p.WellFormed) (form : BlockForm) :
    (ofCompiled p form).LaidOut p where
  routines := by
    refine ⟨combiningRoutine p.combining.toList, decodeRoutine, lookupRoutine p.charsets.toList,
      p.charsets.toList.map (charsetRoutines form), ?_, rfl, rfl, rfl, rfl, ?_⟩
    · rw [← List.flatMap_def]
      rfl
    · rw [List.forall₂_map_right_iff, List.forall₂_same]
      exact fun charset _ => section_charsetRoutines form charset
  selectors := h.charsets
  spans charset hcharset := by
    obtain ⟨entries, divides⟩ := h.divides charset hcharset
    exact divides.apart

/-- Each routine of a fragment is valid by itself, if the blocks are not larger than they may be. -/
theorem valid_of_kind (h : p.WellFormed)
    (size_le : ∀ charset ∈ p.charsets, ∀ block ∈ charset.layout.blocks, block.entries.size ≤ room)
    (hkind : Kind p form r) : r.Valid room := by
  cases hkind with
  | combining => exact valid_combiningRoutine h
  | decode => exact valid_decodeRoutine
  | lookup => exact valid_lookupRoutine h
  | @charset charset _ hcharset hr =>
    obtain ⟨entries, divides⟩ := h.divides charset hcharset
    rcases (section_charsetRoutines form charset).unit_or_route hr with
      ⟨block, hblock, name, isUnit⟩ | isRoute
    · exact isUnit.valid (divides.sound block hblock).ascends
        (by simpa using size_le charset hcharset block hblock)
    · refine isRoute.valid fun target htarget => ?_
      obtain ⟨block, hblock, rfl⟩ := List.mem_map.mp htarget
      exact (divides.sound block hblock).nonempty

/-- What a routine calls is in the fragment. -/
theorem calls_of_kind (hkind : Kind p form r) {c : Call} (hcall : .call c ∈ r.answers) :
    ∃ callee ∈ (ofCompiled p form).routines,
      callee.name = c.callee ∧ callee.parameters.length = c.operands.length := by
  cases hkind with
  | combining =>
    have hset : ∃ set ∈ p.combining, combiningRoutine.member set.codes.toList = .call c := by
      simpa [Routine.answers, combiningRoutine, Stmt.answers, Tail.answers] using hcall
    obtain ⟨set, _, hmember⟩ := hset
    cases hcodes : set.codes.toList <;> rw [hcodes] at hmember <;> cases hmember
  | decode =>
    refine ⟨lookupRoutine p.charsets.toList, by simp [ofCompiled], ?_⟩
    have hc : c = ⟨"lookup", [.var "code", .var "mode"]⟩ ∨
        c = ⟨"lookup", [.flip "code" twinBit, .var "mode"]⟩ := by
      simpa [Routine.answers, decodeRoutine, Tail.answers] using hcall
    rcases hc with rfl | rfl <;> exact ⟨rfl, rfl⟩
  | lookup =>
    have hcharset : ∃ charset ∈ p.charsets, ⟨charsetName charset, [.var "code"]⟩ = c := by
      simpa [answers_lookupRoutine] using hcall
    obtain ⟨charset, hcharset, rfl⟩ := hcharset
    obtain ⟨callee, hcallee, hname, hparameters⟩ :=
      (section_charsetRoutines form charset).exists_entrance
    exact ⟨callee, mem_charsetRoutines hcharset hcallee, hname, hparameters⟩
  | @charset charset _ hcharset hr =>
    obtain ⟨callee, hcallee, hagrees⟩ := (section_charsetRoutines form charset).calls hr hcall
    exact ⟨callee, mem_charsetRoutines hcharset hcallee, hagrees⟩

/-- A routine that cannot be called from outside is called in the fragment. -/
theorem called_of_kind (hkind : Kind p form r) (inner : r.exported = false) :
    ∃ caller ∈ (ofCompiled p form).routines, ∃ c, .call c ∈ caller.answers ∧ c.callee = r.name := by
  cases hkind with
  | combining => cases inner
  | decode => cases inner
  | lookup =>
    exact ⟨decodeRoutine, by simp [ofCompiled], ⟨"lookup", [.var "code", .var "mode"]⟩,
      List.mem_append_right _ List.mem_cons_self, rfl⟩
  | @charset charset _ hcharset hr =>
    rcases (section_charsetRoutines form charset).called hr with hname | ⟨caller, hcaller, hcalls⟩
    · refine ⟨lookupRoutine p.charsets.toList, by simp [ofCompiled],
        ⟨charsetName charset, [.var "code"]⟩, ?_, hname.symm⟩
      simpa [answers_lookupRoutine] using ⟨charset, hcharset, rfl⟩
    · exact ⟨caller, mem_charsetRoutines hcharset hcaller, hcalls⟩

/-- The fragment of a compiled table is valid, if its blocks are not larger than they may be. -/
theorem valid_ofCompiled (h : p.WellFormed) (form : BlockForm)
    (size_le : ∀ charset ∈ p.charsets, ∀ block ∈ charset.layout.blocks,
      block.entries.size ≤ room) : (ofCompiled p form).Valid room where
  names := nodup_names h form
  calls _ hr _ hcall := calls_of_kind (kind_of_mem hr) hcall
  called _ hr inner := called_of_kind (kind_of_mem hr) inner
  routines _ hr := valid_of_kind h size_le (kind_of_mem hr)

end Fragment

open Fragment Fragment.Token

/-- The text of a compiled table defines the routines of the table in their order and nothing else,
and they are valid, with no unit over the budget. Its first literal is the space of the answer for
the space, and all others are escapes. -/
theorem render_valid {t : CodeTable} {policy : Policy} {p : CompiledTable}
    (h : (compile t policy).outcome = .ok p) (form : BlockForm) :
    (∃ f, Fragment.ofText? (render p form) = some f ∧ f.LaidOut p ∧
      f.Valid (max 1 policy.budget.maxEntries)) ∧
    ∃ escapes, literals (ofText (render p form)) = [' '] :: escapes ∧
      ∀ body ∈ escapes, Escaped body := by
  have wellFormed := compile_wellFormed h
  refine ⟨⟨_, ofText?_render p form, laidOut_ofCompiled wellFormed form, ?_⟩,
    literals_render p form⟩
  rw [max_comm]
  exact valid_ofCompiled wellFormed form fun _ hcharset => size_le_of_compile h hcharset

/-- A multi-byte charset of which one band is cut and one has no entries, a charset of one block and
one that is cut: the names stand in the order of the routines, whichever form the blocks have. -/
theorem render_valid_three_charsets :
    let t : CodeTable := .build 0x31
      [.insertPage 0x31 (.ofList [(0x213021, some 'a'), (0x21307E, some 'b')]),
        .insertPage 0x42 (.ofList [(0x41, some 'A')]),
        .insertPage 0x45 (.ofList [(0xA1, some 'Ł'), (0xAF, none)]),
        .addCombining 0x45 [0xE1, 0xE0]]
    let p : CompiledTable :=
      ⟨#[⟨0x45, #[0xE0, 0xE1]⟩],
        #[⟨0x31, .multibyte
            [⟨⟨0x210000, 0x21307D⟩, #[(0x213021, some 'a')]⟩,
              ⟨⟨0x21307E, 0x214FFF⟩, #[(0x21307E, some 'b')]⟩, ⟨⟨0x215000, 0x21FFFF⟩, #[]⟩]⟩,
          ⟨0x42, .page [⟨Span.full, #[(0x41, some 'A')]⟩]⟩,
          ⟨0x45, .page
            [⟨⟨0, 0xAE⟩, #[(0xA1, some 'Ł')]⟩, ⟨⟨0xAF, 0xFFFFFFFF⟩, #[(0xAF, none)]⟩]⟩]⟩
    (compile t ⟨[⟨0x210000, 0x214FFF⟩, ⟨0x215000, 0x21FFFF⟩], ⟨0⟩, .matchTree⟩).outcome = .ok p ∧
    ∀ form, (∃ f, Fragment.ofText? (render p form) = some f ∧ f.LaidOut p ∧ f.Valid 1 ∧
        f.routines.map (·.name) =
          ["is_combining", "decode", "lookup", "lookup_multibyte_210000_21307d",
            "lookup_multibyte_21307e_214fff", "lookup_multibyte_215000_21ffff", "lookup_multibyte",
            "lookup_charset_42", "lookup_charset_45_0_ae", "lookup_charset_45_af_ffffffff",
            "lookup_charset_45"]) ∧
      ∃ escapes, literals (ofText (render p form)) = [' '] :: escapes ∧
        ∀ body ∈ escapes, Escaped body := by
  intro t p
  have h : (compile t ⟨[⟨0x210000, 0x214FFF⟩, ⟨0x215000, 0x21FFFF⟩], ⟨0⟩, .matchTree⟩).outcome =
      .ok p := by cbv
  refine ⟨h, fun form => ?_⟩
  obtain ⟨⟨f, hread, laidOut, valid⟩, hliterals⟩ := render_valid h form
  refine ⟨⟨f, hread, laidOut, valid, ?_⟩, hliterals⟩
  obtain rfl : ofCompiled p form = f := Option.some.inj ((ofText?_render p form).symm.trans hread)
  rw [map_name_ofCompiled]
  decide +kernel

/-- The text of the table without charsets has a literal that is no escape, the space in the answer
for the space. -/
theorem literal_of_space_not_escaped :
    let p : CompiledTable := ⟨#[], #[]⟩
    (compile (.empty 0x31) .standard).outcome = .ok p ∧
      ∀ form, [' '] ∈ literals (ofText (render p form)) ∧ ¬ Escaped [' '] := by
  intro p
  have h : (compile (.empty 0x31) .standard).outcome = .ok p := by cbv
  refine ⟨h, fun form => ⟨?_, not_escaped_space⟩⟩
  obtain ⟨escapes, hliterals, _⟩ := literals_render p form
  rw [hliterals]
  exact List.mem_cons_self

end Marc8
