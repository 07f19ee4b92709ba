/-
Marc8.Proofs.Listing.Rearranging — what may be changed about a listing without a
change to what is generated from it.

A text is laid out from rows of words (`Laid`), and whatever is laid out from
the same rows reads alike. Rows may be changed too, in the ways that
`Rearranged` lists; each keeps the facts that they state (`facts`), if not their
order, and the facts are all that a table and its compilation hang on.

  `Rearranged.rowsSay` — rearranged rows say directives with the same facts;
  `compile_eq_of_relaid` — a text that is changed in these ways, in any order and
                      any number of times, is read, and compiled alike.
-/
import Marc8.Proofs.Listing.Acceptance
import Marc8.Proofs.Listing.Facts
import Marc8.Proofs.Listing.Layout
import Mathlib.Data.List.Perm.Basic
import Mathlib.Logic.Relation

namespace Marc8.Listing

open Text

/-! ## Changes -/

/-- The same word, or two numerals for the same number. -/
inductive Respelled : Field → Field → Prop
  | same {word} : Respelled word word
  | numeral {word word' n} (before : Numeral.Denotes word n) (behind : Numeral.Denotes word' n) :
      Respelled word word'

/-- The row names the multi-byte charset or gives combining codes. -/
def Movable (row : List Field) : Prop :=
  row.head? = some "multibyte".toList ∨ row.head? = some "combining".toList

/-- The first of the rows opens a charset; the block reaches as far as the rows do. -/
def IsBlock (rows : List (List Field)) : Prop :=
  ∃ selector rest, rows = ["charset".toList, selector] :: rest

/-- A change to the rows of a listing. -/
inductive Rearranged : List (List Field) → List (List Field) → Prop
  /-- A row without words comes in. -/
  | add {front back} : Rearranged (front ++ back) (front ++ [] :: back)
  /-- A row without words goes out. -/
  | drop {front back} : Rearranged (front ++ [] :: back) (front ++ back)
  /-- Numbers are written in another way, or no word is changed. -/
  | respell {rows rows'} (words : List.Forall₂ (List.Forall₂ Respelled) rows rows') :
      Rearranged rows rows'
  /-- The row of the multi-byte charset, or one with combining codes, is put elsewhere. -/
  | move {row front back front' back'} (movable : Movable row)
      (others : front ++ back = front' ++ back') :
      Rearranged (front ++ row :: back) (front' ++ row :: back')
  /-- The combining codes of a row change places. -/
  | codes {front selector codes codes' back} (perm : codes.Perm codes') :
      Rearranged (front ++ ("combining".toList :: selector :: codes) :: back)
        (front ++ ("combining".toList :: selector :: codes') :: back)
  /-- The charsets change places, each with the rows up to the next. -/
  | blocks {front} {blocks blocks' : List (List (List Field))}
      (isBlock : ∀ block ∈ blocks, IsBlock block)
      (perm : blocks.Perm blocks') :
      Rearranged (front ++ blocks.flatten) (front ++ blocks'.flatten)
  /-- Rows between which no charset is opened change places. -/
  | rows {front rows rows' back} (closed : ∀ row ∈ rows, row.head? ≠ some "charset".toList)
      (perm : rows.Perm rows') :
      Rearranged (front ++ rows ++ back) (front ++ rows' ++ back)

/-- The rows of the second text are got from those of the first by such changes, any number of them
in any order. Blanks, remarks and the ends of lines are free in both. -/
def Relaid (text text' : String) : Prop :=
  ∃ rows rows', Laid rows text.toList ∧ Laid rows' text'.toList ∧
    Relation.ReflTransGen Rearranged rows rows'

/-! ## What rows say -/

/-- The rows with words say the directives. -/
abbrev RowsSay (rows : List (List Field)) (ds : List Directive) : Prop :=
  List.Forall₂ Says (rows.filter (· ≠ [])) ds

variable {rows rows' front back : List (List Field)} {row row' : List Field}
  {ds : List Directive} {dir : Directive} {word word' : Field} {n : UInt32} {text text' : String}

theorem spelled_iff_rowsSay (h : Laid rows text.toList) : Spelled text ds ↔ RowsSay rows ds := by
  rw [Spelled, h.said_eq]

theorem rowsSay_append_iff : RowsSay (front ++ back) ds ↔
    ∃ ds₁ ds₂, RowsSay front ds₁ ∧ RowsSay back ds₂ ∧ ds = ds₁ ++ ds₂ := by
  rw [RowsSay, List.filter_append, forall₂_append_left_iff]

theorem rowsSay_cons_iff (words : row ≠ []) : RowsSay (row :: rows) ds ↔
    ∃ dir rest, Says row dir ∧ RowsSay rows rest ∧ ds = dir :: rest := by
  rw [RowsSay, List.filter_cons_of_pos (by simpa using words), List.forall₂_cons_left_iff]

/-- A row among others says one directive among others. -/
theorem rowsSay_append_cons_iff (words : row ≠ []) : RowsSay (front ++ row :: back) ds ↔
    ∃ ds₁ dir ds₂, RowsSay front ds₁ ∧ Says row dir ∧ RowsSay back ds₂ ∧
      ds = ds₁ ++ dir :: ds₂ := by
  rw [rowsSay_append_iff]
  constructor
  · rintro ⟨ds₁, _, hfront, hrows, rfl⟩
    obtain ⟨dir, ds₂, hrow, hback, rfl⟩ := (rowsSay_cons_iff words).mp hrows
    exact ⟨ds₁, dir, ds₂, hfront, hrow, hback, rfl⟩
  · rintro ⟨ds₁, dir, ds₂, hfront, hrow, hback, rfl⟩
    exact ⟨ds₁, _, hfront, (rowsSay_cons_iff words).mpr ⟨dir, ds₂, hrow, hback, rfl⟩, rfl⟩

/-- Rows in another order say the directives in another order. -/
theorem exists_perm_of_rowsSay (h : RowsSay rows ds) (perm : rows.Perm rows') :
    ∃ ds', RowsSay rows' ds' ∧ ds.Perm ds' := by
  obtain ⟨ds', h', hperm⟩ := List.perm_comp_forall₂ (perm.symm.filter _) h
  exact ⟨ds', h', hperm.symm⟩

/-! ## Numbers in another spelling -/

/-- A numeral stands for one number. -/
theorem Numeral.Denotes.unique {n' : UInt32} (h : Numeral.Denotes word n)
    (h' : Numeral.Denotes word n') : n = n' := by
  rw [← number_eq_ok_iff] at h h'
  exact Except.ok.inj (h.symm.trans h')

/-- A numeral is told from other words by its mark. -/
theorem Numeral.Denotes.head (h : Numeral.Denotes word n) : word.head? = some '0' := by
  obtain ⟨sign, digits, rfl, _⟩ := h
  rfl

theorem Numeral.Denotes.not_mem_keywords (h : Numeral.Denotes word n) : word ∉ keywords := by
  intro hmem
  have no_zero : ∀ keyword ∈ keywords, keyword.head? ≠ some '0' := by decide
  exact no_zero word hmem h.head

theorem Respelled.denotes (h : Respelled word word') (denotes : Numeral.Denotes word n) :
    Numeral.Denotes word' n := by
  cases h with
  | same => exact denotes
  | numeral before behind => rwa [denotes.unique before]

/-- A word that is no numeral is spelled in one way. -/
theorem Respelled.eq_of_head (h : Respelled word word') (head : word.head? ≠ some '0') :
    word = word' := by
  cases h with
  | same => rfl
  | numeral before _ => exact absurd before.head head

theorem forall₂_denotes_respelled {fields fields' : List Field} {ns : List UInt32}
    (words : List.Forall₂ Respelled fields fields')
    (h : List.Forall₂ Numeral.Denotes fields ns) : List.Forall₂ Numeral.Denotes fields' ns := by
  induction words generalizing ns with
  | nil => exact h
  | cons word _ ih =>
    obtain ⟨n, ns, denotes, rest, rfl⟩ := List.forall₂_cons_left_iff.mp h
    exact .cons (word.denotes denotes) (ih rest)

/-- Rows with their numbers in another spelling say the same. -/
theorem Says.respelled (h : Says row dir) (words : List.Forall₂ Respelled row row') :
    Says row' dir := by
  obtain _ | ⟨first, words⟩ := words
  · cases h
  cases h with
  | multibyte selector =>
    obtain rfl := first.eq_of_head (by decide)
    obtain _ | ⟨field, _ | _⟩ := words
    exact .multibyte (field.denotes selector)
  | charset selector =>
    obtain rfl := first.eq_of_head (by decide)
    obtain _ | ⟨field, _ | _⟩ := words
    exact .charset (field.denotes selector)
  | combining selector codes =>
    obtain rfl := first.eq_of_head (by decide)
    obtain _ | ⟨field, fields⟩ := words
    exact .combining (field.denotes selector) (forall₂_denotes_respelled fields codes)
  | entry _ code value =>
    obtain _ | ⟨field, _ | _⟩ := words
    exact .entry (first.denotes code).not_mem_keywords (first.denotes code) (field.denotes value)
  | hole _ code =>
    obtain _ | ⟨dash, _ | _⟩ := words
    obtain rfl := dash.eq_of_head (by decide)
    exact .hole (first.denotes code).not_mem_keywords (first.denotes code)

theorem RowsSay.respelled (h : RowsSay rows ds)
    (words : List.Forall₂ (List.Forall₂ Respelled) rows rows') : RowsSay rows' ds := by
  induction words generalizing ds with
  | nil => exact h
  | @cons row row' rows rows' first _ ih =>
    by_cases empty : row = []
    · subst empty
      obtain rfl := List.forall₂_nil_left_iff.mp first
      rw [RowsSay, List.filter_cons_of_neg (by simp)] at h ⊢
      exact ih h
    · have empty' : row' ≠ [] := by
        intro heq
        subst heq
        exact empty (List.forall₂_nil_right_iff.mp first)
      obtain ⟨dir, rest, hrow, hrest, rfl⟩ := (rowsSay_cons_iff empty).mp h
      exact (rowsSay_cons_iff empty').mpr ⟨dir, rest, hrow.respelled first, ih hrest, rfl⟩

/-! ## Rows in another order -/

/-- A row that is no opening of a charset says a directive that is none. -/
theorem Says.opens?_eq_none (h : Says row dir) (closed : row.head? ≠ some "charset".toList) :
    dir.opens? = none := by
  cases h with
  | charset _ => exact absurd rfl closed
  | _ => rfl

/-- What a movable row says does not hang on where it stands, and opens no charset. -/
theorem Movable.free (h : Movable row) (saying : Says row dir) :
    dir.opens? = none ∧ ∀ current current', dir.facts current = dir.facts current' := by
  have keyword : ∀ {word : Field} {rest : List Field}, Movable (word :: rest) → word ∈ keywords := by
    intro word rest h
    rcases h with h | h <;> obtain rfl := Option.some.inj h <;> decide
  cases saying with
  | multibyte _ => exact ⟨rfl, fun _ _ => rfl⟩
  | charset _ => rcases h with h | h <;> exact absurd (Option.some.inj h) (by decide)
  | combining _ _ => exact ⟨rfl, fun _ _ => rfl⟩
  | entry clear _ _ => exact absurd (keyword h) clear
  | hole clear _ => exact absurd (keyword h) clear

/-- A row with combining codes says which codes, in their order. -/
theorem says_combining_iff {selector : Field} {codes : List Field} :
    Says ("combining".toList :: selector :: codes) dir ↔ ∃ n ns, Numeral.Denotes selector n ∧
      List.Forall₂ Numeral.Denotes codes ns ∧ dir = .combining n ns := by
  constructor
  · intro saying
    obtain ⟨statement, hstatement, means⟩ := says_iff_means.mp saying
    have hfields : Statement.ofFields ("combining".toList :: selector :: codes) =
        .ok (some (.combining selector codes)) := rfl
    obtain rfl : .combining selector codes = statement :=
      Option.some.inj (Except.ok.inj (hfields.symm.trans hstatement))
    cases means with
    | combining hselector hcodes =>
      exact ⟨_, _, number_eq_ok_iff.mp hselector, numbers_eq_ok_iff.mp hcodes, rfl⟩
  · rintro ⟨n, ns, hselector, hcodes, rfl⟩
    exact .combining hselector hcodes

/-- A block says the opening of a charset and what follows. -/
theorem IsBlock.begins (h : IsBlock rows) (saying : RowsSay rows ds) :
    ∃ selector rest, ds = .charset selector :: rest := by
  obtain ⟨selector, rest, rfl⟩ := h
  obtain ⟨dir, ds, hrow, _, rfl⟩ := (rowsSay_cons_iff (by simp)).mp saying
  cases hrow with
  | charset _ => exact ⟨_, ds, rfl⟩
  | entry clear _ _ => exact absurd (by decide) clear
  | hole clear _ => exact absurd (by decide) clear

/-- Rows put together from groups say what the groups say. -/
theorem rowsSay_flatten_iff : ∀ {groups : List (List (List Field))} {ds : List Directive},
    RowsSay groups.flatten ds ↔ ∃ dss, List.Forall₂ RowsSay groups dss ∧ ds = dss.flatten
  | [], ds => by simp [RowsSay]
  | group :: groups, ds => by
    rw [List.flatten_cons, rowsSay_append_iff]
    simp only [rowsSay_flatten_iff, List.forall₂_cons_left_iff]
    constructor
    · rintro ⟨ds₁, _, hgroup, ⟨dss, hgroups, rfl⟩, rfl⟩
      exact ⟨ds₁ :: dss, ⟨ds₁, dss, hgroup, hgroups, rfl⟩, rfl⟩
    · rintro ⟨_, ⟨ds₁, dss, hgroup, hgroups, rfl⟩, rfl⟩
      exact ⟨ds₁, dss.flatten, hgroup, ⟨dss, hgroups, rfl⟩, rfl⟩

/-! ## Each change -/

/-- A row that neither opens a charset nor stands under one says the same wherever it stands. -/
theorem RowsSay.move_row {front' back' : List (List Field)} (saying : RowsSay (front ++ row :: back) ds)
    (movable : Movable row) (others : front ++ back = front' ++ back') :
    ∃ ds', RowsSay (front' ++ row :: back') ds' ∧ (facts none ds).Perm (facts none ds') := by
  have words : row ≠ [] := by
    intro heq
    subst heq
    rcases movable with h | h <;> cases h
  obtain ⟨ds₁, dir, ds₂, hfront, hrow, hback, rfl⟩ := (rowsSay_append_cons_iff words).mp saying
  obtain ⟨opens, free⟩ := movable.free hrow
  have rest : RowsSay (front' ++ back') (ds₁ ++ ds₂) :=
    others ▸ rowsSay_append_iff.mpr ⟨ds₁, ds₂, hfront, hback, rfl⟩
  obtain ⟨ds₁', ds₂', hfront', hback', heq⟩ := rowsSay_append_iff.mp rest
  refine ⟨ds₁' ++ dir :: ds₂',
    (rowsSay_append_cons_iff words).mpr ⟨ds₁', dir, ds₂', hfront', hrow, hback', rfl⟩, ?_⟩
  have perm := facts_insert_perm free opens none ds₁' ds₂'
  rw [← heq] at perm
  exact (facts_insert_perm free opens none ds₁ ds₂).trans perm.symm

theorem RowsSay.permute_codes {selector : Field} {codes codes' : List Field}
    (saying : RowsSay (front ++ ("combining".toList :: selector :: codes) :: back) ds)
    (perm : codes.Perm codes') :
    ∃ ds', RowsSay (front ++ ("combining".toList :: selector :: codes') :: back) ds' ∧
      (facts none ds).Perm (facts none ds') := by
  obtain ⟨ds₁, dir, ds₂, hfront, hrow, hback, rfl⟩ := (rowsSay_append_cons_iff (by simp)).mp saying
  obtain ⟨n, ns, hselector, hcodes, rfl⟩ := says_combining_iff.mp hrow
  obtain ⟨ns', hcodes', hperm⟩ := List.perm_comp_forall₂ perm.symm hcodes
  refine ⟨ds₁ ++ .combining n ns' :: ds₂, (rowsSay_append_cons_iff (by simp)).mpr
    ⟨ds₁, _, ds₂, hfront, .combining hselector hcodes', hback, rfl⟩, ?_⟩
  rw [facts_append, facts_append, facts, facts]
  exact .append_left _ (.append_right _ ((hperm.symm.map _).cons _))

/-- Every block opens its own charset, so its entries stand under this one wherever the block is. -/
theorem RowsSay.permute_blocks {blocks blocks' : List (List (List Field))}
    (saying : RowsSay (front ++ blocks.flatten) ds) (isBlock : ∀ block ∈ blocks, IsBlock block)
    (perm : blocks.Perm blocks') :
    ∃ ds', RowsSay (front ++ blocks'.flatten) ds' ∧ (facts none ds).Perm (facts none ds') := by
  obtain ⟨ds₁, _, hfront, hblocks, rfl⟩ := rowsSay_append_iff.mp saying
  obtain ⟨dss, hgroups, rfl⟩ := rowsSay_flatten_iff.mp hblocks
  obtain ⟨dss', hgroups', hperm⟩ := List.perm_comp_forall₂ perm.symm hgroups
  refine ⟨ds₁ ++ dss'.flatten, rowsSay_append_iff.mpr ⟨ds₁, _, hfront,
    rowsSay_flatten_iff.mpr ⟨dss', hgroups', rfl⟩, rfl⟩, ?_⟩
  refine facts_perm_of_groups (fun group hgroup => ?_) hperm.symm ds₁
  obtain ⟨block, hblock, saying⟩ := exists_left_of_forall₂ hgroups hgroup
  exact (isBlock block hblock).begins saying

theorem RowsSay.permute_rows (saying : RowsSay (front ++ rows ++ back) ds)
    (closed : ∀ row ∈ rows, row.head? ≠ some "charset".toList) (perm : rows.Perm rows') :
    ∃ ds', RowsSay (front ++ rows' ++ back) ds' ∧ (facts none ds).Perm (facts none ds') := by
  obtain ⟨_, ds₃, hupTo, hback, rfl⟩ := rowsSay_append_iff.mp saying
  obtain ⟨ds₁, ds₂, hfront, hrows, rfl⟩ := rowsSay_append_iff.mp hupTo
  obtain ⟨ds₂', hrows', hperm⟩ := exists_perm_of_rowsSay hrows perm
  refine ⟨ds₁ ++ ds₂' ++ ds₃, rowsSay_append_iff.mpr ⟨_, ds₃,
    rowsSay_append_iff.mpr ⟨ds₁, ds₂', hfront, hrows', rfl⟩, hback, rfl⟩, ?_⟩
  refine facts_perm_of_closed (fun dir hdir => ?_) hperm none ds₁ ds₃
  obtain ⟨row, hrow, saying⟩ := exists_left_of_forall₂ hrows hdir
  exact saying.opens?_eq_none (closed row (List.mem_filter.mp hrow).1)

/-- Rearranged rows say directives with the same facts. -/
theorem Rearranged.rowsSay (h : Rearranged rows rows') (saying : RowsSay rows ds) :
    ∃ ds', RowsSay rows' ds' ∧ (facts none ds).Perm (facts none ds') := by
  cases h with
  | add =>
    refine ⟨ds, ?_, .refl _⟩
    rwa [RowsSay, List.filter_append, List.filter_cons_of_neg (by simp), ← List.filter_append]
  | drop =>
    refine ⟨ds, ?_, .refl _⟩
    rwa [RowsSay, List.filter_append, List.filter_cons_of_neg (by simp), ← List.filter_append] at saying
  | respell words => exact ⟨ds, saying.respelled words, .refl _⟩
  | move movable others => exact saying.move_row movable others
  | codes perm => exact saying.permute_codes perm
  | blocks isBlock perm => exact saying.permute_blocks isBlock perm
  | rows closed perm => exact saying.permute_rows closed perm

/-! ## The table and its compilation -/

/-- However often rows are rearranged, the facts stay the same. -/
theorem RowsSay.exists_of_changes (h : RowsSay rows ds)
    (changes : Relation.ReflTransGen Rearranged rows rows') :
    ∃ ds', RowsSay rows' ds' ∧ (facts none ds).Perm (facts none ds') := by
  induction changes with
  | refl => exact ⟨ds, h, .refl _⟩
  | tail _ change ih =>
    obtain ⟨ds₁, h₁, perm⟩ := ih
    obtain ⟨ds', h', perm'⟩ := change.rowsSay h₁
    exact ⟨ds', h', perm.trans perm'⟩

/-- Every text is laid out from one list of rows. And however these are rearranged and laid out
anew, a text that is read stays one, and its table is compiled alike under every policy: to the same
compiled table and text, or with the same failure. -/
theorem compile_eq_of_relaid :
    (∀ text : String, ∃! rows, Laid rows text.toList) ∧
    ∀ text text' t, Relaid text text' → read text = .ok t →
      ∃ t', read text' = .ok t' ∧ ∀ policy : Policy,
        compile t policy = compile t' policy ∧ composeText t policy = composeText t' policy := by
  refine ⟨fun text => by simp only [laid_iff, existsUnique_eq], fun text text' t relaid h => ?_⟩
  obtain ⟨rows, rows', laid, laid', changes⟩ := relaid
  obtain ⟨ds, spelled, wellFormed, describes⟩ := exists_spelled_of_read h
  obtain ⟨ds', say, perm⟩ := ((spelled_iff_rowsSay laid).mp spelled).exists_of_changes changes
  have wellFormed' := wellFormed.of_facts_perm perm
  obtain ⟨t', h', describes'⟩ :=
    exists_read_of_spelled ((spelled_iff_rowsSay laid').mpr say) wellFormed'
  have same : SameContent t t' := describes.sameContent describes' wellFormed'.toConsistent perm
  refine ⟨t', h', fun policy => ?_⟩
  have heq := compile_eq_of_sameContent same policy
  exact ⟨heq, by rw [composeText, composeText, heq]⟩

/-- A small listing, and the same with every kind of change: a remark and a blank line, other blanks
and ends of lines, numbers in another spelling, the first row put last, combining codes, entries and
charsets in another order. -/
theorem compile_eq_of_relaid_every_change :
    let text := "multibyte 0x31\ncharset 0x42\n0x41 0x0041\n0x42 -\n" ++
      "charset 0x31\ncombining 0x45 0xE0 0xE1\n"
    let text' := "# selectors\r\n\tcharset 0x031\r\ncombining 0x45 0xE1 0xe0\r\n" ++
      "charset  0x42 # Latin\n0x42 -\n0x+41 0x41\nmultibyte 0x31"
    Relaid text text' ∧ ∃ t t', read text = .ok t ∧ read text' = .ok t' ∧
      compile t ⟨[], ⟨1⟩, .matchTree⟩ = compile t' ⟨[], ⟨1⟩, .matchTree⟩ := by
  intro text text'
  let named : List Field := ["multibyte".toList, "0x31".toList]
  let latin : List Field := ["charset".toList, "0x42".toList]
  let letter : List Field := ["0x41".toList, "0x0041".toList]
  let hole : List Field := ["0x42".toList, ['-']]
  let east : List Field := ["charset".toList, "0x31".toList]
  let marks : List Field := ["combining".toList, "0x45".toList, "0xE0".toList, "0xE1".toList]
  let marks' : List Field := ["combining".toList, "0x45".toList, "0xE1".toList, "0xE0".toList]
  let rows' : List (List Field) := [[], ["charset".toList, "0x031".toList],
    ["combining".toList, "0x45".toList, "0xE1".toList, "0xe0".toList], latin, hole,
    ["0x+41".toList, "0x41".toList], named]
  have laid : Laid [named, latin, letter, hole, east, marks, []] text.toList :=
    laid_iff.mpr (by decide +kernel)
  have laid' : Laid rows' text'.toList := laid_iff.mpr (by decide +kernel)
  have drop : Rearranged [named, latin, letter, hole, east, marks, []]
      [named, latin, letter, hole, east, marks] :=
    @Rearranged.drop [named, latin, letter, hole, east, marks] []
  have charsets : Rearranged [named, latin, letter, hole, east, marks]
      [named, east, marks, latin, letter, hole] :=
    @Rearranged.blocks [named] [[latin, letter, hole], [east, marks]]
      [[east, marks], [latin, letter, hole]]
      (by simpa using ⟨⟨_, _, rfl⟩, ⟨_, _, rfl⟩⟩) (.swap _ _ _)
  have entries : Rearranged [named, east, marks, latin, letter, hole]
      [named, east, marks, latin, hole, letter] :=
    @Rearranged.rows [named, east, marks, latin] [letter, hole] [hole, letter] [] (by decide)
      (.swap _ _ _)
  have move : Rearranged [named, east, marks, latin, hole, letter]
      [east, marks, latin, hole, letter, named] :=
    @Rearranged.move named [] [east, marks, latin, hole, letter]
      [east, marks, latin, hole, letter] [] (.inl rfl) rfl
  have codes : Rearranged [east, marks, latin, hole, letter, named]
      [east, marks', latin, hole, letter, named] :=
    @Rearranged.codes [east] _ _ _ [latin, hole, letter, named] (.swap _ _ _)
  have add : Rearranged [east, marks', latin, hole, letter, named]
      [[], east, marks', latin, hole, letter, named] :=
    @Rearranged.add [] [east, marks', latin, hole, letter, named]
  have same : ∀ row : List Field, List.Forall₂ Respelled row row := fun row =>
    List.forall₂_same.mpr fun _ _ => .same
  have numeral : ∀ {word word' : Field} {n : UInt32}, number word = .ok n → number word' = .ok n →
      Respelled word word' := fun h h' =>
    .numeral (number_eq_ok_iff.mp h) (number_eq_ok_iff.mp h')
  have respell : Rearranged [[], east, marks', latin, hole, letter, named] rows' := by
    refine .respell (.cons .nil (.cons ?_ (.cons ?_ (.cons (same _) (.cons (same _)
      (.cons ?_ (.cons (same _) .nil)))))))
    · exact .cons .same (.cons (@numeral _ _ 0x31 rfl rfl) .nil)
    · exact .cons .same (.cons .same (.cons .same (.cons (@numeral _ _ 0xE0 rfl rfl) .nil)))
    · exact .cons (@numeral _ _ 0x41 rfl rfl) (.cons (@numeral _ _ 0x41 rfl rfl) .nil)
  have relaid : Relaid text text' := by
    refine ⟨_, rows', laid, laid', ?_⟩
    exact .head drop (.head charsets (.head entries (.head move (.head codes (.head add
      (.single respell))))))
  have hread : (read text).toBool = true := by decide +kernel
  cases h : read text with
  | error e =>
    rw [h] at hread
    cases hread
  | ok t =>
    obtain ⟨t', h', alike⟩ := compile_eq_of_relaid.2 text text' t relaid h
    exact ⟨relaid, t, t', rfl, h', (alike _).1⟩

end Marc8.Listing
