/-
Marc8.Proofs.Listing.Acceptance — the reader accepts the grammar and builds the
table described.

A draft is compared with the directives that have been read so far:
`Draft.Reflects` says that these are consistent and that the draft holds what
they say. A directive that fits them is taken and one that does not is refused
(`exists_takes_iff`), and what is taken is reflected again, whichever kind it
is of (`Draft.Reflects.takes`). So lines are read as long as their directives
are consistent with those before (`readLines_eq_ok_iff_run`), and:

  `read_accepts_grammar` — a text is read exactly when it spells well-formed
                           directives, and the table is the one they describe.
-/
import Marc8.Proofs.Listing.Grammar
import Marc8.Proofs.Listing.Steps

namespace Marc8.Listing

open Text

/-! ## Directives and drafts -/

/-- What a directive that can be taken makes of a draft. -/
inductive Draft.Takes (d : Draft) : Directive → Draft → Prop
  | multibyte {n} (unnamed : d.multibyte = none) :
      Takes d (.multibyte n) { d with multibyte := some n }
  | charset {selector} (absent : d.pages.contains selector = false) :
      Takes d (.charset selector)
        { d with current := some selector, pages := d.pages.insert selector .empty }
  | combining {selector codes} : Takes d (.combining selector codes)
      { d with combining :=
        d.combining.insert selector ((d.combining.find? selector).getD [] ++ codes) }
  | entry {selector code value} (opened : d.current = some selector)
      (absent : ((d.pages.find? selector).getD .empty).contains code = false) :
      Takes d (.entry code value)
        { d with pages :=
          d.pages.insert selector (((d.pages.find? selector).getD .empty).insert code value) }

/-- A run of a draft through directives. -/
inductive Draft.Run : Draft → List Directive → Draft → Prop
  | nil (d) : Run d [] d
  | cons {d dir between ds d'} (first : d.Takes dir between) (rest : Run between ds d') :
      Run d (dir :: ds) d'

variable {d d' : Draft} {ds more : List Directive} {dir : Directive}

/-! ## Lines -/

theorem ofFields_eq_none_iff {words : List Field} :
    Statement.ofFields words = .ok none ↔ words = [] := by
  unfold Statement.ofFields
  split
  · simp
  · split_ifs <;> split <;> simp

/-- The fields of a line that is a statement. -/
def fieldsOf : Statement → List Field
  | .multibyte selector => ["multibyte".toList, selector]
  | .charset selector => ["charset".toList, selector]
  | .combining selector codes => "combining".toList :: selector :: codes
  | .entry code value => [code, value]

/-- An entry does not begin with a keyword. -/
def Unambiguous : Statement → Prop
  | .entry code _ => code ∉ keywords
  | _ => True

theorem not_mem_keywords_iff {word : Field} : word ∉ keywords ↔
    word ≠ "multibyte".toList ∧ word ≠ "charset".toList ∧ word ≠ "combining".toList := by
  rw [keywords, List.mem_cons, List.mem_cons, List.mem_singleton, not_or, not_or]

/-- Fields make a statement when they are its fields and cannot be taken for another's. -/
theorem ofFields_eq_some_iff {words : List Field} {statement : Statement} :
    Statement.ofFields words = .ok (some statement) ↔
      words = fieldsOf statement ∧ Unambiguous statement := by
  constructor
  · intro h
    unfold Statement.ofFields at h
    split at h
    · cases h
    · next keyword arguments =>
      split_ifs at h with hmultibyte hcharset hcombining
      · split at h
        · cases h
          exact ⟨by rw [hmultibyte, fieldsOf], trivial⟩
        · cases h
      · split at h
        · cases h
          exact ⟨by rw [hcharset, fieldsOf], trivial⟩
        · cases h
      · split at h
        · cases h
          exact ⟨by rw [hcombining, fieldsOf], trivial⟩
        · cases h
      · split at h
        · cases h
          exact ⟨rfl, not_mem_keywords_iff.mpr ⟨hmultibyte, hcharset, hcombining⟩⟩
        · cases h
  · rintro ⟨rfl, clear⟩
    cases statement with
    | multibyte selector => rfl
    | charset selector => rfl
    | combining selector codes => rfl
    | entry code value =>
      obtain ⟨hmultibyte, hcharset, hcombining⟩ := not_mem_keywords_iff.mp clear
      rw [fieldsOf, Statement.ofFields, if_neg hmultibyte, if_neg hcharset, if_neg hcombining]

/-- A statement with the numbers of its fields. -/
inductive Means : Statement → Directive → Prop
  | multibyte {field n} (selector : number field = .ok n) : Means (.multibyte field) (.multibyte n)
  | charset {field n} (selector : number field = .ok n) : Means (.charset field) (.charset n)
  | combining {field n fields ns} (selector : number field = .ok n)
      (codes : numbers fields = .ok ns) : Means (.combining field fields) (.combining n ns)
  | entry {field n field' v} (code : number field = .ok n) (value : target field' = .ok v) :
      Means (.entry field field') (.entry n v)

theorem Means.unique {statement : Statement} {dir' : Directive} (h : Means statement dir)
    (h' : Means statement dir') : dir = dir' := by
  cases h <;> cases h' <;> simp_all

/-- Fields say the directive that their statement means. -/
theorem says_iff_means {words : List Field} : Says words dir ↔
    ∃ statement, Statement.ofFields words = .ok (some statement) ∧ Means statement dir := by
  simp only [ofFields_eq_some_iff]
  constructor
  · intro said
    cases said with
    | multibyte selector =>
      exact ⟨.multibyte _, ⟨rfl, trivial⟩, .multibyte (number_eq_ok_iff.mpr selector)⟩
    | charset selector =>
      exact ⟨.charset _, ⟨rfl, trivial⟩, .charset (number_eq_ok_iff.mpr selector)⟩
    | combining selector codes =>
      exact ⟨.combining _ _, ⟨rfl, trivial⟩,
        .combining (number_eq_ok_iff.mpr selector) (numbers_eq_ok_iff.mpr codes)⟩
    | entry clear code value =>
      exact ⟨.entry _ _, ⟨rfl, clear⟩, .entry (number_eq_ok_iff.mpr code)
        (target_eq_ok_iff.mpr (.inr ⟨_, value, rfl⟩))⟩
    | hole clear code =>
      exact ⟨.entry _ _, ⟨rfl, clear⟩, .entry (number_eq_ok_iff.mpr code)
        (target_eq_ok_iff.mpr (.inl ⟨rfl, rfl⟩))⟩
  · rintro ⟨statement, ⟨rfl, clear⟩, means⟩
    cases means with
    | multibyte selector => exact .multibyte (number_eq_ok_iff.mp selector)
    | charset selector => exact .charset (number_eq_ok_iff.mp selector)
    | combining selector codes =>
      exact .combining (number_eq_ok_iff.mp selector) (numbers_eq_ok_iff.mp codes)
    | entry code value =>
      rcases target_eq_ok_iff.mp value with ⟨rfl, rfl⟩ | ⟨c, denotes, rfl⟩
      · exact .hole clear (number_eq_ok_iff.mp code)
      · exact .entry clear (number_eq_ok_iff.mp code) denotes

/-- What fields say is told by the fields. -/
theorem Says.unique {words : List Field} {dir' : Directive} (h : Says words dir)
    (h' : Says words dir') : dir = dir' := by
  obtain ⟨statement, hstatement, means⟩ := says_iff_means.mp h
  obtain ⟨statement', hstatement', means'⟩ := says_iff_means.mp h'
  obtain rfl : statement = statement' := by simpa [hstatement] using hstatement'
  exact means.unique means'

/-- A statement takes the step of the directive that it means. -/
theorem step_iff_takes {statement : Statement} :
    d.Step statement d' ↔ ∃ dir, Means statement dir ∧ d.Takes dir d' := by
  constructor
  · intro step
    cases step with
    | multibyte unnamed selector => exact ⟨_, .multibyte selector, .multibyte unnamed⟩
    | charset selector absent => exact ⟨_, .charset selector, .charset absent⟩
    | combining selector codes => exact ⟨_, .combining selector codes, .combining⟩
    | entry opened code value absent => exact ⟨_, .entry code value, .entry opened absent⟩
  · rintro ⟨dir, means, taken⟩
    cases means with
    | multibyte selector =>
      cases taken with
      | multibyte unnamed => exact .multibyte unnamed selector
    | charset selector =>
      cases taken with
      | charset absent => exact .charset selector absent
    | combining selector codes =>
      cases taken with
      | combining => exact .combining selector codes
    | entry code value =>
      cases taken with
      | entry opened absent => exact .entry opened code value absent

/-- A line without fields leaves a draft as it is. -/
theorem readLine_eq_ok_iff_of_blank {line : List Char} (blank : fields (withoutComment line) = []) :
    d.readLine line = .ok d' ↔ d = d' := by
  have hline : Statement.ofLine line = .ok none := ofFields_eq_none_iff.mpr blank
  simp [readLine_eq_ok_iff, hline]

/-- A line with fields is read when these say a directive that is taken. -/
theorem readLine_eq_ok_iff_takes {line : List Char} (ne : fields (withoutComment line) ≠ []) :
    d.readLine line = .ok d' ↔ ∃ dir, Says (fields (withoutComment line)) dir ∧ d.Takes dir d' := by
  have hline : Statement.ofLine line ≠ .ok none := mt ofFields_eq_none_iff.mp ne
  rw [readLine_eq_ok_iff]
  simp only [hline, false_and, false_or, step_iff_takes, says_iff_means]
  constructor
  · rintro ⟨statement, hstatement, dir, means, taken⟩
    exact ⟨dir, ⟨statement, hstatement, means⟩, taken⟩
  · rintro ⟨dir, ⟨statement, hstatement, means⟩, taken⟩
    exact ⟨statement, hstatement, dir, means, taken⟩

/-- Lines are read along a run through the directives that they say. -/
theorem readLines_eq_ok_iff_run {lines : List (List Char)} {d d' : Draft} {first : Nat} :
    d.readLines first lines = .ok d' ↔
      ∃ ds, List.Forall₂ Says (said lines) ds ∧ d.Run ds d' := by
  induction lines generalizing d first with
  | nil =>
    simp only [Draft.readLines, Except.ok.injEq, said, List.map_nil, List.filter_nil,
      List.forall₂_nil_left_iff, exists_eq_left]
    exact ⟨fun h => h ▸ .nil d, fun h => by cases h; rfl⟩
  | cons line rest ih =>
    rw [readLines_cons_eq_ok_iff]
    simp only [ih]
    by_cases blank : fields (withoutComment line) = []
    · have hsaid : said (line :: rest) = said rest := by simp [said, blank]
      simp only [hsaid, readLine_eq_ok_iff_of_blank blank, exists_eq_left']
    · have hsaid : said (line :: rest) = fields (withoutComment line) :: said rest := by
        simp [said, blank]
      simp only [hsaid, readLine_eq_ok_iff_takes blank, List.forall₂_cons_left_iff]
      constructor
      · rintro ⟨between, ⟨dir, hdir, takes⟩, ds, hds, run⟩
        exact ⟨dir :: ds, ⟨dir, ds, hdir, hds, rfl⟩, .cons takes run⟩
      · rintro ⟨_, ⟨dir, ds, hdir, hds, rfl⟩, run⟩
        cases run with
        | cons takes run => exact ⟨_, ⟨dir, hdir, takes⟩, ds, hds, run⟩

/-! ## What a draft holds -/

/-- The draft holds what the directives say that have been read, and these are consistent. -/
structure Draft.Reflects (ds : List Directive) (d : Draft) : Prop where
  consistent : Consistent ds
  multibyte : ∀ n, d.multibyte = some n ↔ .multibyte n ∈ ds
  current : d.current = opened ds
  pages : ∀ selector, d.pages.contains selector = true ↔ .charset selector ∈ ds
  entries : ∀ selector page, d.pages.find? selector = some page →
    ∀ code value, page.find? code = some value ↔ Under ds selector code value
  combining : ∀ selector,
    d.combining.contains selector = true ↔ ∃ codes, .combining selector codes ∈ ds
  codes : ∀ selector,
    (d.combining.find? selector).getD [] = ds.flatMap (Directive.adds selector)

theorem reflects_nil : Draft.Reflects [] {} where
  consistent := by
    refine ⟨List.Pairwise.nil, List.Pairwise.nil, ?_, ?_⟩
    · intro front code value back h
      simp at h
    · intro front code value between value' back h
      simp at h
  multibyte := by simp
  current := rfl
  pages := by simp [Assoc.contains]
  entries := by simp
  combining := by simp [Assoc.contains]
  codes := by simp

/-- The open page of a draft has an entry for the code. -/
theorem Draft.Reflects.contains_iff (h : d.Reflects ds) {selector : Selector}
    (hopened : d.current = some selector) {code : Code} :
    ((d.pages.find? selector).getD .empty).contains code = true ↔
      ∃ value, Under ds selector code value := by
  have hmem : d.pages.contains selector = true :=
    (h.pages selector).mpr (mem_of_opened (h.current ▸ hopened))
  obtain ⟨page, hpage⟩ := Option.isSome_iff_exists.mp hmem
  rw [hpage, Option.getD_some, Assoc.contains, Option.isSome_iff_exists]
  simp only [h.entries selector page hpage]

/-- A draft takes the directives that fit those read before, and no others. -/
theorem exists_takes_iff (h : d.Reflects ds) : (∃ d', d.Takes dir d') ↔ Fits ds dir := by
  cases dir with
  | multibyte n =>
    have hnone : d.multibyte = none ↔ ∀ n, .multibyte n ∉ ds := by
      simp only [Option.eq_none_iff_forall_ne_some, ne_eq, h.multibyte]
    constructor
    · rintro ⟨d', _ | _⟩
      exact hnone.mp ‹_›
    · exact fun fits => ⟨_, .multibyte (hnone.mpr fits)⟩
  | charset selector =>
    have habsent : d.pages.contains selector = false ↔ .charset selector ∉ ds := by
      rw [← h.pages, Bool.not_eq_true]
    constructor
    · rintro ⟨d', _ | _⟩
      exact habsent.mp ‹_›
    · exact fun fits => ⟨_, .charset (habsent.mpr fits)⟩
  | combining selector codes => exact ⟨fun _ => trivial, fun _ => ⟨_, .combining⟩⟩
  | entry code value =>
    constructor
    · rintro ⟨d', _ | _⟩
      rename_i selector hopened absent
      have hcurrent : opened ds = some selector := h.current ▸ hopened
      refine ⟨⟨selector, mem_of_opened hcurrent⟩, fun front value' between split => ?_⟩
      by_contra hbetween
      have under := (under_opened_iff h.consistent hcurrent).mpr
        ⟨front, between, split, not_exists.mp hbetween⟩
      rw [(h.contains_iff hopened).mpr ⟨value', under⟩] at absent
      cases absent
    · rintro ⟨⟨selector', hselector'⟩, hcodes⟩
      cases hcurrent : opened ds with
      | none => exact absurd hselector' (opened_eq_none_iff.mp hcurrent selector')
      | some selector =>
        have hopened : d.current = some selector := h.current.trans hcurrent
        refine ⟨_, .entry hopened (Bool.eq_false_iff.mpr fun hcontains => ?_)⟩
        obtain ⟨value', under⟩ := (h.contains_iff hopened).mp hcontains
        obtain ⟨front, between, split, hbetween⟩ :=
          (under_opened_iff h.consistent hcurrent).mp under
        obtain ⟨other, hother⟩ := hcodes front value' between split
        exact hbetween other hother

/-! ## What a draft holds behind one directive more -/

theorem Draft.Reflects.takes_multibyte (h : d.Reflects ds) {n : Selector}
    (fits : Fits ds (.multibyte n)) :
    Draft.Reflects (ds ++ [.multibyte n]) { d with multibyte := some n } where
  consistent := consistent_concat_iff.mpr ⟨h.consistent, fits⟩
  multibyte n' := by
    have unnamed : ∀ n, .multibyte n ∉ ds := fits
    simp [unnamed, eq_comm]
  current := by
    rw [opened_append, h.current]
    rfl
  pages := by simp [h.pages]
  entries selector page hpage code value := by
    rw [h.entries selector page hpage, under_concat_iff]
    simp
  combining := by simp [h.combining]
  codes := by simp [h.codes, Directive.adds]

theorem Draft.Reflects.takes_charset (h : d.Reflects ds) {selector : Selector}
    (fits : Fits ds (.charset selector)) :
    Draft.Reflects (ds ++ [.charset selector])
      { d with current := some selector, pages := d.pages.insert selector .empty } where
  consistent := consistent_concat_iff.mpr ⟨h.consistent, fits⟩
  multibyte := by simp [h.multibyte]
  current := by
    rw [opened_append]
    rfl
  pages selector' := by simp [Assoc.contains_insert, h.pages, or_comm]
  entries selector' page hpage code value := by
    rw [under_concat_iff]
    rw [Assoc.find?_insert] at hpage
    split at hpage
    · next heq =>
      -- Nothing stands under a charset that was not opened yet, and its page is empty.
      subst heq
      have unopened : .charset selector' ∉ ds := fits
      obtain rfl : .empty = page := by simpa using hpage
      have vacant : ¬ Under ds selector' code value := fun under => unopened under.mem
      simp [vacant]
    · rw [h.entries selector' page hpage]
      simp
  combining := by simp [h.combining]
  codes := by simp [h.codes, Directive.adds]

theorem Draft.Reflects.takes_combining (h : d.Reflects ds) (selector : Selector)
    (codes : List Code) :
    Draft.Reflects (ds ++ [.combining selector codes])
      { d with combining :=
        d.combining.insert selector ((d.combining.find? selector).getD [] ++ codes) } where
  consistent := consistent_concat_iff.mpr ⟨h.consistent, trivial⟩
  multibyte := by simp [h.multibyte]
  current := by
    rw [opened_append, h.current]
    rfl
  pages := by simp [h.pages]
  entries selector' page hpage code value := by
    rw [h.entries selector' page hpage, under_concat_iff]
    simp
  combining selector' := by
    rw [Assoc.contains_insert, h.combining]
    constructor
    · rintro (rfl | ⟨codes', hcodes'⟩)
      · exact ⟨codes, by simp⟩
      · exact ⟨codes', by simp [hcodes']⟩
    · rintro ⟨codes', hcodes'⟩
      rcases List.mem_append.mp hcodes' with hcodes' | hcodes'
      · exact .inr ⟨codes', hcodes'⟩
      · obtain ⟨rfl, rfl⟩ : selector' = selector ∧ codes' = codes := by simpa using hcodes'
        exact .inl rfl
  codes selector' := by
    rw [Assoc.find?_insert, List.flatMap_append, ← h.codes selector']
    by_cases heq : selector' = selector
    · simp [heq, Directive.adds]
    · simp [heq, Ne.symm heq, Directive.adds]

/-- A page with a new entry holds what stands under its charset, and the entry. -/
theorem Draft.Reflects.find?_insert_iff (h : d.Reflects ds) {selector : Selector}
    {page : Page} (hpage : d.pages.find? selector = some page)
    {code code' : Code} {value value' : Option Char} (absent : page.contains code = false) :
    (page.insert code value).find? code' = some value' ↔
      Under ds selector code' value' ∨ code' = code ∧ value' = value := by
  rw [Assoc.find?_insert]
  by_cases heq : code' = code
  · subst heq
    -- The code had no entry before, so this one is its only one.
    have vacant : ¬ Under ds selector code' value' := fun under => by
      rw [Assoc.contains, (h.entries selector page hpage code' value').mpr under] at absent
      cases absent
    simp [vacant, eq_comm]
  · simp [heq, h.entries selector page hpage]

theorem Draft.Reflects.takes_entry (h : d.Reflects ds) {selector : Selector} {code : Code}
    {value : Option Char} (fits : Fits ds (.entry code value)) (hopened : d.current = some selector)
    (absent : ((d.pages.find? selector).getD .empty).contains code = false) :
    Draft.Reflects (ds ++ [.entry code value])
      { d with pages :=
        d.pages.insert selector (((d.pages.find? selector).getD .empty).insert code value) } := by
  have hcurrent : opened ds = some selector := h.current ▸ hopened
  have hmem : .charset selector ∈ ds := mem_of_opened hcurrent
  obtain ⟨old, hold⟩ := Option.isSome_iff_exists.mp ((h.pages selector).mpr hmem)
  rw [hold, Option.getD_some] at absent ⊢
  exact {
    consistent := consistent_concat_iff.mpr ⟨h.consistent, fits⟩
    multibyte := by simp [h.multibyte]
    current := by
      rw [opened_append, h.current]
      rfl
    pages := by
      intro selector'
      have known : selector' = selector → .charset selector' ∈ ds := fun heq => heq ▸ hmem
      simpa [Assoc.contains_insert, h.pages] using known
    entries := by
      intro selector' page hpage code' value'
      rw [under_concat_iff, hcurrent]
      rw [Assoc.find?_insert] at hpage
      split at hpage
      · next heq =>
        subst heq
        obtain rfl : old.insert code value = page := by simpa using hpage
        rw [h.find?_insert_iff hold absent]
        simp [eq_comm]
      · next hne => simp [h.entries selector' page hpage, Ne.symm hne]
    combining := by simp [h.combining]
    codes := by simp [h.codes, Directive.adds] }

/-- A draft that has taken one directive more reflects it. -/
theorem Draft.Reflects.takes (h : d.Reflects ds) (taken : d.Takes dir d') :
    d'.Reflects (ds ++ [dir]) := by
  have fits : Fits ds dir := (exists_takes_iff h).mp ⟨d', taken⟩
  cases taken with
  | multibyte => exact h.takes_multibyte fits
  | charset => exact h.takes_charset fits
  | combining => exact h.takes_combining _ _
  | entry opened absent => exact h.takes_entry fits opened absent

/-- A run reflects the directives it has gone through. -/
theorem Draft.Reflects.run (h : d.Reflects ds) (run : d.Run more d') :
    d'.Reflects (ds ++ more) := by
  induction run generalizing ds with
  | nil => simpa using h
  | cons taken _ ih => simpa using ih (h.takes taken)

/-- There is a run through directives that are consistent with those read before. -/
theorem exists_run (h : d.Reflects ds) (consistent : Consistent (ds ++ more)) :
    ∃ d', d.Run more d' := by
  induction more generalizing ds d with
  | nil => exact ⟨d, .nil d⟩
  | cons dir rest ih =>
    rw [List.append_cons] at consistent
    obtain ⟨between, taken⟩ :=
      (exists_takes_iff h).mpr (consistent_concat_iff.mp consistent.of_append).2
    obtain ⟨d', run⟩ := ih (h.takes taken) consistent
    exact ⟨d', .cons taken run⟩

/-! ## Listings -/

/-- A text is read when it spells directives with a run that names the multi-byte charset. -/
theorem read_eq_ok_iff_run {text : String} {t : CodeTable} : read text = .ok t ↔
    ∃ ds d, Spelled text ds ∧ ({} : Draft).Run ds d ∧ d.multibyte = some t.multibyte ∧
      t.pages = d.pages ∧ t.combining = d.combining := by
  constructor
  · intro h
    obtain ⟨d, multibyte, hlines, hmultibyte, rfl⟩ := exists_draft_of_read h
    obtain ⟨ds, spelled, run⟩ := readLines_eq_ok_iff_run.mp hlines
    exact ⟨ds, d, spelled, run, hmultibyte, rfl, rfl⟩
  · rintro ⟨ds, d, spelled, run, hmultibyte, hpages, hcombining⟩
    have hlines := (@readLines_eq_ok_iff_run _ _ _ 1).mpr ⟨ds, spelled, run⟩
    obtain ⟨multibyte, pages, combining⟩ := t
    simp only at hmultibyte hpages hcombining
    rw [read, hlines, hpages, hcombining]
    simp [Draft.close, hmultibyte]

/-- What a text spells is told by the text. -/
theorem Spelled.unique {text : String} {ds' : List Directive} (h : Spelled text ds)
    (h' : Spelled text ds') : ds = ds' := by
  have all : ∀ {words : List (List Field)} {ds ds' : List Directive}, List.Forall₂ Says words ds →
      List.Forall₂ Says words ds' → ds = ds' := by
    intro words ds ds' h h'
    induction h generalizing ds' with
    | nil =>
      cases h'
      rfl
    | cons first _ ih =>
      cases h' with
      | cons first' rest' => rw [first.unique first', ih rest']
  exact all h h'

/-- A draft that reflects directives and names the multi-byte charset holds the table described. -/
theorem Draft.Reflects.describes (h : d.Reflects ds) {t : CodeTable}
    (hmultibyte : d.multibyte = some t.multibyte) (hpages : t.pages = d.pages)
    (hcombining : t.combining = d.combining) : Describes ds t where
  multibyte := (h.multibyte _).mp hmultibyte
  pages := hpages ▸ h.pages
  entries := hpages ▸ h.entries
  combining := hcombining ▸ h.combining
  codes selector codes hcodes := by
    rw [← h.codes, ← hcombining, hcodes, Option.getD_some]

/-- A text that spells well-formed directives is read, to the table that they describe. -/
theorem exists_read_of_spelled {text : String} (spelled : Spelled text ds)
    (wellFormed : WellFormed ds) :
    ∃ t, read text = .ok t ∧ Describes ds t := by
  obtain ⟨n, named⟩ := wellFormed.named
  obtain ⟨d, run⟩ : ∃ d, ({} : Draft).Run ds d := exists_run reflects_nil wellFormed.toConsistent
  have reflects := reflects_nil.run run
  have hmultibyte := (reflects.multibyte n).mpr named
  exact ⟨⟨n, d.pages, d.combining⟩,
    read_eq_ok_iff_run.mpr ⟨ds, d, spelled, run, hmultibyte, rfl, rfl⟩,
    reflects.describes hmultibyte rfl rfl⟩

/-- A text that is read spells well-formed directives, and they describe the table. -/
theorem exists_spelled_of_read {text : String} {t : CodeTable} (h : read text = .ok t) :
    ∃ ds, Spelled text ds ∧ WellFormed ds ∧ Describes ds t := by
  obtain ⟨ds, d, spelled, run, hmultibyte, hpages, hcombining⟩ := read_eq_ok_iff_run.mp h
  have reflects := reflects_nil.run run
  exact ⟨ds, spelled, ⟨reflects.consistent, _, (reflects.multibyte _).mp hmultibyte⟩,
    reflects.describes hmultibyte hpages hcombining⟩

/-- A text is read exactly when its lines spell well-formed directives, and whatever directives it
spells describe the table. -/
theorem read_accepts_grammar (text : String) :
    ((∃ t, read text = .ok t) ↔ ∃ ds, Spelled text ds ∧ WellFormed ds) ∧
    ∀ t, read text = .ok t → ∀ ds, Spelled text ds → Describes ds t := by
  refine ⟨⟨?_, ?_⟩, ?_⟩
  · rintro ⟨t, h⟩
    obtain ⟨ds, d, spelled, run, hmultibyte, _⟩ := read_eq_ok_iff_run.mp h
    have reflects := reflects_nil.run run
    exact ⟨ds, spelled, reflects.consistent, _, (reflects.multibyte _).mp hmultibyte⟩
  · rintro ⟨ds, spelled, consistent, n, named⟩
    obtain ⟨d, run⟩ : ∃ d, ({} : Draft).Run ds d := exists_run reflects_nil consistent
    have hmultibyte := ((reflects_nil.run run).multibyte n).mpr named
    exact ⟨⟨n, d.pages, d.combining⟩,
      read_eq_ok_iff_run.mpr ⟨ds, d, spelled, run, hmultibyte, rfl, rfl⟩⟩
  · intro t h ds spelled
    obtain ⟨ds', d, spelled', run, hmultibyte, hpages, hcombining⟩ := read_eq_ok_iff_run.mp h
    obtain rfl := spelled.unique spelled'
    exact (reflects_nil.run run).describes hmultibyte hpages hcombining

/-- A listing whose lines are mixed: an entry behind combining codes still stands under the charset
in front of them, and a selector may get its combining codes in pieces, of which one is empty. -/
theorem read_accepts_grammar_mixed_lines :
    let text := "charset 0x42 # Latin\n0x41 0x+0041\ncombining 0x45 0xE2\r\n\n0x042 -\n" ++
      "multibyte 0x31\ncharset 0x45\n0x41 0xE000\ncombining 0x45\ncombining 0x45 0xe1 0xE2"
    let ds : List Directive :=
      [.charset 0x42, .entry 0x41 (some 'A'), .combining 0x45 [0xE2], .entry 0x42 none,
        .multibyte 0x31, .charset 0x45, .entry 0x41 (some '\uE000'), .combining 0x45 [],
        .combining 0x45 [0xE1, 0xE2]]
    ∃ t, read text = .ok t ∧ WellFormed ds ∧ Describes ds t := by
  intro text ds
  have hread : (read text).toBool = true := by decide +kernel
  have spelled : Spelled text ds := by
    have hsaid : said (lines text.toList) =
        [["charset".toList, "0x42".toList], ["0x41".toList, "0x+0041".toList],
          ["combining".toList, "0x45".toList, "0xE2".toList], ["0x042".toList, ['-']],
          ["multibyte".toList, "0x31".toList], ["charset".toList, "0x45".toList],
          ["0x41".toList, "0xE000".toList], ["combining".toList, "0x45".toList],
          ["combining".toList, "0x45".toList, "0xe1".toList, "0xE2".toList]] := by
      decide +kernel
    have denotes : ∀ {field n}, number field = .ok n → Numeral.Denotes field n :=
      fun h => number_eq_ok_iff.mp h
    rw [Spelled, hsaid]
    refine .cons (.charset (denotes rfl)) (.cons (.entry (by decide) (denotes rfl) (denotes rfl)) ?_)
    refine .cons (.combining (denotes rfl) (.cons (denotes rfl) .nil)) ?_
    refine .cons (.hole (by decide) (denotes rfl)) (.cons (.multibyte (denotes rfl)) ?_)
    refine .cons (.charset (denotes rfl)) (.cons (.entry (by decide) (denotes rfl) (denotes rfl)) ?_)
    refine .cons (.combining (denotes rfl) .nil) ?_
    exact .cons (.combining (denotes rfl) (.cons (denotes rfl) (.cons (denotes rfl) .nil))) .nil
  obtain ⟨accepts, describes⟩ := read_accepts_grammar text
  cases h : read text with
  | error e =>
    rw [h] at hread
    cases hread
  | ok t =>
    obtain ⟨ds', spelled', wellFormed⟩ := accepts.mp ⟨t, h⟩
    exact ⟨t, rfl, spelled.unique spelled' ▸ wellFormed, describes t h ds spelled⟩

end Marc8.Listing
