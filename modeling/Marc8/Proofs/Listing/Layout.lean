/-
Marc8.Proofs.Listing.Layout — how words are laid out in a text.

A text is told by its rows: the words of each of its lines. `Laid` builds the
texts of some rows up, with any blanks around the words, any remarks behind
them, and a line feed between two lines; a carriage return in front of it is one
more blank, or belongs to the remark. A line feed at the end makes one more row,
without words.

  `Laid.said_eq` — the lines of such a text say what the rows say;
  `laid_iff`     — every text is laid out from rows, and from one list of them only.
-/
import Marc8.Proofs.Listing.Grammar

namespace Marc8.Listing

open Text

/-! ## Words -/

/-- A character that may stand between words. -/
def Blank (c : Char) : Prop := isBlank c = true ∧ c ≠ '\n'

/-- A word has a character at least, and no blanks; the mark of a remark ends it. -/
def Word (word : Field) : Prop := word ≠ [] ∧ ∀ c ∈ word, isBlank c = false ∧ c ≠ '#'

/-- The words with blanks around them, and with one at least between two of them. -/
inductive Spaced : List Field → List Char → Prop
  | none {gap} (blank : ∀ c ∈ gap, Blank c) : Spaced [] gap
  | last {gap word} (blank : ∀ c ∈ gap, Blank c) (isWord : Word word) : Spaced [word] (gap ++ word)
  | more {gap word c words rest} (blank : ∀ c ∈ gap, Blank c) (isWord : Word word) (apart : Blank c)
      (behind : Spaced words rest) : Spaced (word :: words) (gap ++ word ++ c :: rest)

/-- Nothing, or a mark and any text behind it on the same line. -/
inductive Remark : List Char → Prop
  | none : Remark []
  | some {text} (oneLine : '\n' ∉ text) : Remark ('#' :: text)

/-- A line with the words, and possibly a remark behind them. -/
inductive Row (words : List Field) : List Char → Prop
  | mk {data remark} (spaced : Spaced words data) (behind : Remark remark) :
      Row words (data ++ remark)

/-- A text whose lines have the words of the rows. -/
inductive Laid : List (List Field) → List Char → Prop
  | last {words line} (row : Row words line) : Laid [words] line
  | more {words line rows text} (row : Row words line) (behind : Laid rows text) :
      Laid (words :: rows) (line ++ '\n' :: text)

variable {c : Char} {word : Field} {words : List Field} {rows : List (List Field)}
  {gap data line text : List Char}

/-! ## The words of a line -/

/-- A text is one piece when it has nothing to be cut at. -/
theorem pieces_eq_singleton {p : Char → Bool} : ∀ {text : List Char}, (∀ c ∈ text, p c = false) →
    pieces p text = [text]
  | [], _ => rfl
  | c :: rest, h => by
    rw [pieces, if_neg (by simp [h c (by simp)]),
      pieces_eq_singleton fun d hd => h d (List.mem_cons_of_mem _ hd)]

/-- A blank keeps what is in front of it apart from what is behind. -/
theorem fields_append_cons (blank : isBlank c = true) (front back : List Char) :
    fields (front ++ c :: back) = fields front ++ fields back := by
  rw [fields, pieces_append_cons blank, List.filter_append]
  rfl

theorem fields_cons_blank (blank : isBlank c = true) (back : List Char) :
    fields (c :: back) = fields back := by
  simpa [fields, pieces] using fields_append_cons blank [] back

/-- Blanks in front of words do not count. -/
theorem fields_gap_append (blank : ∀ c ∈ gap, Blank c) (back : List Char) :
    fields (gap ++ back) = fields back := by
  induction gap with
  | nil => rfl
  | cons c rest ih =>
    rw [List.cons_append, fields_cons_blank (blank c (by simp)).1,
      ih fun d hd => blank d (List.mem_cons_of_mem _ hd)]

theorem Word.fields_eq (h : Word word) : fields word = [word] := by
  rw [fields, pieces_eq_singleton fun c hc => (h.2 c hc).1, List.filter_cons_of_pos (by simpa using h.1)]
  rfl

/-- The fields of spaced words are the words. -/
theorem Spaced.fields_eq (h : Spaced words data) : fields data = words := by
  induction h with
  | @none gap blank => simpa [fields, pieces] using fields_gap_append blank []
  | last blank isWord => rw [fields_gap_append blank, isWord.fields_eq]
  | more blank isWord apart _ ih =>
    rw [fields_append_cons apart.1, fields_gap_append blank, isWord.fields_eq, ih]
    rfl

theorem isBlank_lineFeed : isBlank '\n' = true := by decide

/-- Among spaced words there is neither the mark of a remark nor a line feed. -/
theorem Spaced.plain (h : Spaced words data) : ∀ c ∈ data, c ≠ '#' ∧ c ≠ '\n' := by
  have blank_plain : ∀ {c}, Blank c → c ≠ '#' ∧ c ≠ '\n' := by
    intro c blank
    refine ⟨fun heq => ?_, blank.2⟩
    subst heq
    exact absurd blank.1 (by decide)
  have word_plain : ∀ {word : Field}, Word word → ∀ c ∈ word, c ≠ '#' ∧ c ≠ '\n' := by
    intro word isWord c hc
    obtain ⟨solid, unmarked⟩ := isWord.2 c hc
    refine ⟨unmarked, fun heq => ?_⟩
    rw [heq, isBlank_lineFeed] at solid
    cases solid
  induction h with
  | none blank => exact fun c hc => blank_plain (blank c hc)
  | last blank isWord =>
    intro c hc
    rcases List.mem_append.mp hc with hc | hc
    · exact blank_plain (blank c hc)
    · exact word_plain isWord c hc
  | more blank isWord apart _ ih =>
    intro c hc
    rcases List.mem_append.mp hc with hc | hc
    · rcases List.mem_append.mp hc with hc | hc
      · exact blank_plain (blank c hc)
      · exact word_plain isWord c hc
    · rcases List.mem_cons.mp hc with rfl | hc
      · exact blank_plain apart
      · exact ih c hc

/-- The fields of a line, up to its remark, are its words. -/
theorem Row.fields_eq (h : Row words line) : fields (withoutComment line) = words := by
  obtain ⟨spaced, behind⟩ := h
  rw [withoutComment, List.takeWhile_append_of_pos fun c hc => by simpa using (spaced.plain c hc).1]
  cases behind with
  | none => simpa using spaced.fields_eq
  | some _ => simpa using spaced.fields_eq

theorem Row.lineFeed_not_mem (h : Row words line) : '\n' ∉ line := by
  obtain ⟨spaced, behind⟩ := h
  intro hmem
  rcases List.mem_append.mp hmem with hmem | hmem
  · exact (spaced.plain _ hmem).2 rfl
  · cases behind with
    | none => cases hmem
    | some oneLine =>
      rcases List.mem_cons.mp hmem with heq | hmem
      · exact absurd heq (by decide)
      · exact oneLine hmem

/-- A text without line feeds is not cut. -/
theorem pieces_of_oneLine (oneLine : '\n' ∉ line) : pieces (· = '\n') line = [line] := by
  refine pieces_eq_singleton fun c hc => ?_
  have hne : c ≠ '\n' := fun heq => oneLine (heq ▸ hc)
  simpa using hne

theorem Row.pieces_eq (h : Row words line) : pieces (· = '\n') line = [line] :=
  pieces_of_oneLine h.lineFeed_not_mem

/-- A carriage return at the end of a line is a blank or belongs to the remark. -/
theorem fields_stripReturn (line : List Char) :
    fields (withoutComment (stripReturn line)) = fields (withoutComment line) := by
  unfold stripReturn
  split
  · next hlast =>
    obtain ⟨front, rfl⟩ := List.getLast?_eq_some_iff.mp hlast
    rw [List.dropLast_concat]
    rw [withoutComment, withoutComment, List.takeWhile_append]
    split
    · next unmarked =>
      rw [(List.takeWhile_prefix _).eq_of_length unmarked, List.takeWhile_cons_of_pos (by decide),
        List.takeWhile_nil, fields_append_cons (by decide)]
      exact (List.append_nil _).symm
    · rfl
  · rfl

/-! ## The lines of a text -/

/-- A text without line feeds is one line, if it is not empty. -/
theorem lines_of_oneLine (oneLine : '\n' ∉ line) : lines line = [line].filter (· ≠ []) := by
  cases line <;> simp [lines, pieces_of_oneLine oneLine]

/-- A line feed ends a line. -/
theorem lines_concat (oneLine : '\n' ∉ line) : lines (line ++ ['\n']) = [stripReturn line] := by
  simp [lines, pieces_append_cons, pieces_of_oneLine oneLine, pieces]

theorem said_append (front back : List (List Char)) : said (front ++ back) = said front ++ said back := by
  rw [said, List.map_append, List.filter_append, said, said]

/-- The lines that some text is laid out in say what its rows say. -/
theorem Laid.said_eq (h : Laid rows text) : said (lines text) = rows.filter (· ≠ []) := by
  induction h with
  | @last words line row =>
    rw [lines_of_oneLine row.lineFeed_not_mem]
    cases line with
    | nil =>
      obtain rfl : [] = words := row.fields_eq
      rfl
    | cons c rest => simp [said, row.fields_eq]
  | @more words line rows text row _ ih =>
    rw [lines_append_cons, said_append, ih, lines_concat row.lineFeed_not_mem, said,
      List.map_singleton, fields_stripReturn, row.fields_eq]
    exact (List.filter_append [words] rows).symm

/-- The rows of a text are told by the text. -/
theorem Laid.rows_eq (h : Laid rows text) :
    rows = (pieces (· = '\n') text).map fun line => fields (withoutComment line) := by
  induction h with
  | last row => rw [row.pieces_eq, List.map_singleton, row.fields_eq]
  | more row _ ih =>
    rw [pieces_append_cons (by simp), row.pieces_eq, List.map_append, ← ih, List.map_singleton,
      row.fields_eq]
    rfl

/-! ## Every text is laid out -/

/-- One more blank in front. -/
theorem Spaced.cons_blank (h : Spaced words data) (blank : Blank c) : Spaced words (c :: data) := by
  have longer : ∀ {gap : List Char}, (∀ d ∈ gap, Blank d) → ∀ d ∈ c :: gap, Blank d := by
    intro gap hgap
    exact List.forall_mem_cons.mpr ⟨blank, hgap⟩
  cases h with
  | none hgap => exact .none (longer hgap)
  | last hgap isWord => exact .last (longer hgap) isWord
  | more hgap isWord apart behind => exact .more (longer hgap) isWord apart behind

/-- One more character in front makes a word longer, or a word of its own. -/
theorem Spaced.cons_char (h : Spaced words data) (solid : isBlank c = false) (unmarked : c ≠ '#') :
    ∃ words', Spaced words' (c :: data) := by
  have alone : Word [c] := ⟨by simp, by simpa using ⟨solid, unmarked⟩⟩
  have longer : ∀ {word : Field}, Word word → Word (c :: word) := fun isWord =>
    ⟨by simp, List.forall_mem_cons.mpr ⟨⟨solid, unmarked⟩, isWord.2⟩⟩
  have no_gap : ∀ d ∈ ([] : List Char), Blank d := by simp
  cases h with
  | none blank =>
    cases data with
    | nil => exact ⟨_, .last no_gap alone⟩
    | cons d gap =>
      obtain ⟨first, rest⟩ := List.forall_mem_cons.mp blank
      exact ⟨_, .more no_gap alone first (.none rest)⟩
  | @last gap word blank isWord =>
    cases gap with
    | nil => exact ⟨_, .last no_gap (longer isWord)⟩
    | cons d gap =>
      obtain ⟨first, rest⟩ := List.forall_mem_cons.mp blank
      exact ⟨_, .more no_gap alone first (.last rest isWord)⟩
  | @more gap word d words rest blank isWord apart behind =>
    cases gap with
    | nil => exact ⟨_, .more no_gap (longer isWord) apart behind⟩
    | cons e gap =>
      obtain ⟨first, gap_rest⟩ := List.forall_mem_cons.mp blank
      exact ⟨_, .more no_gap alone first (.more gap_rest isWord apart behind)⟩

/-- Every line has some words. -/
theorem exists_row (oneLine : '\n' ∉ line) : ∃ words, Row words line := by
  induction line with
  | nil => exact ⟨[], @Row.mk [] [] [] (.none (by simp)) .none⟩
  | cons c rest ih =>
    obtain ⟨hne, hrest⟩ : '\n' ≠ c ∧ '\n' ∉ rest := by simpa using oneLine
    obtain ⟨words, @⟨data, remark, spaced, behind⟩⟩ := ih hrest
    by_cases marked : c = '#'
    · subst marked
      exact ⟨[], @Row.mk [] [] _ (.none (by simp)) (.some hrest)⟩
    · cases hblank : isBlank c with
      | true => exact ⟨words, .mk (spaced.cons_blank ⟨hblank, Ne.symm hne⟩) behind⟩
      | false =>
        obtain ⟨words', spaced'⟩ := spaced.cons_char hblank marked
        exact ⟨words', .mk spaced' behind⟩

theorem exists_laid (text : List Char) : ∃ rows, Laid rows text := by
  by_cases h : '\n' ∈ text
  · obtain ⟨line, rest, rfl, oneLine⟩ := List.eq_append_cons_of_mem h
    obtain ⟨words, row⟩ := exists_row oneLine
    obtain ⟨rows, laid⟩ := exists_laid rest
    exact ⟨words :: rows, .more row laid⟩
  · obtain ⟨words, row⟩ := exists_row h
    exact ⟨[words], .last row⟩
termination_by text.length

/-- Every text is laid out from the words of its lines, and from no other rows. -/
theorem laid_iff {text : List Char} : Laid rows text ↔
    rows = (pieces (· = '\n') text).map fun line => fields (withoutComment line) := by
  constructor
  · exact Laid.rows_eq
  · intro heq
    obtain ⟨rows', laid⟩ := exists_laid text
    rw [heq, ← laid.rows_eq]
    exact laid

end Marc8.Listing
