/-
Marc8.Proofs.Fragment.Literals — the literals of an emitted text.

A character of the table is written by its number, so that no line depends on
how a character looks: its literal is an escape (`Escaped`). The one literal
besides stands in `lookup`, in the answer for the space, which is the same for
every table.

  `literals_ofText`         — a text without quotes has no literals, so the fixed
                              pieces of an emitted text have none;
  `Routine.literals_tokens` — a routine has those of its answers and entries;
  `literals_render`         — the first literal of a text is the space, and all
                              others are escapes.
-/
import Marc8.Proofs.Emission
import Marc8.Proofs.Fragment.Sections

namespace Marc8.Fragment

open Text

/-! ## The literals among some tokens -/

namespace Token

/-- What a literal has between its quotes. -/
def literal? : Token → Option (List Char)
  | quoted body => some body
  | _ => none

/-- The literals among some tokens, without their quotes. -/
def literals (tokens : List Token) : List (List Char) := tokens.filterMap literal?

@[simp] theorem literals_nil : literals [] = [] := rfl

@[simp] theorem literals_word (text : List Char) (rest : List Token) :
    literals (.word text :: rest) = literals rest := rfl

@[simp] theorem literals_quoted (body : List Char) (rest : List Token) :
    literals (.quoted body :: rest) = body :: literals rest := rfl

@[simp] theorem literals_append (s t : List Token) :
    literals (s ++ t) = literals s ++ literals t := List.filterMap_append

@[simp] theorem literals_flatMap {α : Type} (tokens : α → List Token) (xs : List α) :
    literals (xs.flatMap tokens) = xs.flatMap fun a => literals (tokens a) := by
  simp [literals, List.filterMap_flatMap]

/-- Is a literal open? -/
def State.inLiteral : State → Bool
  | .quoted _ => true
  | _ => false

/-- Nothing but a quote opens a literal. -/
theorem start_of_ne_quote {c : Char} (hc : c ≠ '\'') :
    (start c).1.inLiteral = false ∧ literals (start c).2 = [] := by
  unfold start
  split_ifs
  all_goals exact ⟨rfl, rfl⟩

theorem step_of_ne_quote {s : State} {c : Char} (hs : s.inLiteral = false) (hc : c ≠ '\'') :
    (step s c).1.inLiteral = false ∧ literals (step s c).2 = [] := by
  obtain ⟨hstart, hliterals⟩ := start_of_ne_quote hc
  cases s with
  | quoted sofar => cases hs
  | between => exact ⟨hstart, hliterals⟩
  | word sofar =>
    simp only [step]
    split_ifs
    · exact ⟨rfl, rfl⟩
    · exact ⟨hstart, hliterals⟩
  | slash =>
    simp only [step]
    split_ifs
    · exact ⟨rfl, rfl⟩
    · exact ⟨hstart, hliterals⟩
  | slashes =>
    simp only [step]
    split_ifs
    all_goals exact ⟨rfl, rfl⟩
  | comment =>
    simp only [step]
    split_ifs
    all_goals exact ⟨rfl, rfl⟩
  | documentation sofar =>
    simp only [step]
    split_ifs
    all_goals exact ⟨rfl, rfl⟩

/-- No literal comes of characters without a quote, as long as none was open. -/
theorem scan_of_quote_not_mem {chars : List Char} (h : '\'' ∉ chars) :
    ∀ {s : State}, s.inLiteral = false →
      (scan s chars).1.inLiteral = false ∧ literals (scan s chars).2 = [] := by
  induction chars with
  | nil => exact fun hs => ⟨hs, rfl⟩
  | cons c rest ih =>
    intro s hs
    obtain ⟨hc, hrest⟩ := not_or.mp (mt List.mem_cons.mpr h)
    obtain ⟨hstep, hliterals⟩ := step_of_ne_quote hs (Ne.symm hc)
    obtain ⟨hscan, hmore⟩ := ih hrest hstep
    refine ⟨hscan, ?_⟩
    rw [scan, literals_append, hliterals, hmore, List.append_nil]

/-- A text without quotes has no literals. -/
theorem literals_ofText {text : String} (h : '\'' ∉ text.toList) : literals (ofText text) = [] := by
  obtain ⟨hstate, hliterals⟩ := scan_of_quote_not_mem h (s := .between) rfl
  rw [ofText, literals_append, hliterals, List.nil_append]
  cases hscan : (scan .between text.toList).1 with
  | quoted sofar => rw [hscan] at hstate; cases hstate
  | _ => rfl

end Token

open Token

/-! ## The literals of a routine -/

/-- What an answer has between quotes. -/
def Atom.quotes : Atom → List (List Char)
  | found c => [charBody c]
  | blank => [[' ']]
  | never | oneOf .. | unmapped | unknownCharset | call _ => []

/-- What a statement has between quotes. -/
def Stmt.quotes : Stmt → List (List Char)
  | pick .. => []
  | returnIf _ answer => answer.quotes
  | entries _ rows => rows.flatMap fun row => (listed row.2).quotes

/-- What the last expression has between quotes. -/
def Tail.quotes : Tail → List (List Char)
  | atom answer => answer.quotes
  | choice _ arms other => (arms.flatMap fun arm => arm.2.quotes) ++ other.quotes
  | orElse .. => []
  | search _ => []

/-- What a routine has between quotes. -/
def Routine.quotes (r : Routine) : List (List Char) :=
  r.statements.flatMap Stmt.quotes ++ r.tail.quotes

theorem literals_listTokens {α : Type} {tokens : α → List Token}
    (h : ∀ a, literals (tokens a) = []) (items : List α) :
    literals (listTokens tokens items) = [] := by
  cases items <;> simp (disch := decide) [listTokens, literals_ofText, h]

theorem Operand.literals_tokens (o : Operand) : literals o.tokens = [] := by
  cases o <;> simp (disch := decide) [tokens, literals_ofText]

theorem Call.literals_tokens (c : Call) : literals c.tokens = [] := by
  simp (disch := decide) [tokens, literals_ofText, literals_listTokens Operand.literals_tokens]

theorem Test.literals_tokens (test : Test) : literals test.tokens = [] := by
  cases test <;> simp (disch := decide) [tokens, literals_ofText]

theorem Atom.literals_tokens (answer : Atom) : literals answer.tokens = answer.quotes := by
  cases answer <;>
    simp (disch := decide) [tokens, quotes, literals_ofText, Call.literals_tokens]

theorem literals_cellTokens (value : Option Char) :
    literals (cellTokens value) = (listed value).quotes := by
  cases value <;> simp (disch := decide) [cellTokens, listed, Atom.quotes, literals_ofText]

theorem Stmt.literals_tokens (stmt : Stmt) : literals stmt.tokens = stmt.quotes := by
  cases stmt <;>
    simp (disch := decide) [tokens, quotes, rowTokens, literals_ofText, Test.literals_tokens,
      Atom.literals_tokens, literals_cellTokens]

theorem Tail.literals_tokens (tail : Tail) : literals tail.tokens = tail.quotes := by
  cases tail <;>
    simp (disch := decide) [tokens, quotes, armTokens, literals_ofText, Call.literals_tokens,
      Atom.literals_tokens]

/-- The literals of a routine are those of its answers and entries. -/
theorem Routine.literals_tokens (r : Routine) : literals r.tokens = r.quotes := by
  have hparameters : literals (listTokens parameterTokens r.parameters) = [] :=
    literals_listTokens (fun x => by simp (disch := decide) [parameterTokens, literals_ofText]) _
  have hcomment :
      literals (r.comment.toList.map fun c => .documentation (' ' :: c.toList)) = [] := by
    cases r.comment <;> rfl
  have hpub : literals (if r.exported then ofText "pub" else []) = [] := by
    split_ifs
    · exact literals_ofText (by decide)
    · rfl
  have hresult : literals (ofText r.result.text) = [] := by
    cases r.result <;> exact literals_ofText (by decide)
  simp (disch := decide) [tokens, quotes, literals_ofText, hparameters, hcomment, hpub, hresult,
    Stmt.literals_tokens, Tail.literals_tokens]

/-! ## Escapes -/

/-- An escape: one digit or more and no more than six, in base sixteen, that are the number of a
character. -/
def Escaped (body : List Char) : Prop :=
  ∃ digits n, body = '\\' :: 'u' :: '\x7b' :: (digits ++ ['\x7d']) ∧
    1 ≤ digits.length ∧ digits.length ≤ 6 ∧ Hex.ofDigits? digits = some n ∧ n.isValidChar

theorem escaped_charBody (c : Char) : Escaped (charBody c) := by
  have hne : 0 < (Hex.upper c.val).length := by
    rw [Hex.upper, List.length_map]
    exact List.length_pos_of_ne_nil (Hex.nibbles_ne_nil c.val)
  exact ⟨Hex.upper c.val, c.val.toNat, rfl, hne, Reader.length_upper_val_le c,
    (Hex.ofDigits?_upper c.val).1, c.valid⟩

/-- The space, written as itself, is no escape. -/
theorem not_escaped_space : ¬ Escaped [' '] := by
  rintro ⟨digits, n, hbody, _⟩
  simp at hbody

theorem escaped_of_mem_quotes_listed {value : Option Char} {body : List Char}
    (h : body ∈ (listed value).quotes) : Escaped body := by
  cases value with
  | none => cases h
  | some c =>
    obtain rfl := List.mem_singleton.mp h
    exact escaped_charBody c

/-- A unit has the escapes of its entries, in either form. -/
theorem Routine.IsUnit.escaped {unit : Routine} {name : String} {entries : List Entry}
    (h : unit.IsUnit name entries) {body : List Char} (hbody : body ∈ unit.quotes) :
    Escaped body := by
  have hentries : ∃ e ∈ entries, body ∈ (listed e.2).quotes := by
    rcases entries?_eq_some_iff.mp h.entries with ⟨hstatements, x, htail⟩ | ⟨hstatements, x, htail⟩
    · simpa [quotes, hstatements, htail, Tail.quotes, List.flatMap_map, Atom.quotes] using hbody
    · simpa [quotes, hstatements, htail, Tail.quotes, Stmt.quotes] using hbody
  obtain ⟨e, _, hmem⟩ := hentries
  exact escaped_of_mem_quotes_listed hmem

/-- A route has no literals. -/
theorem Routine.IsRoute.quotes_eq_nil {route : Routine} {name : String}
    {targets : List (Span × String)} (h : route.IsRoute name targets) : route.quotes = [] := by
  obtain ⟨htail, hstatements⟩ := route?_eq_some_iff.mp h.targets
  have hunmapped : (Tail.atom .unmapped).quotes = [] := rfl
  have hhandOn : ∀ target, (Stmt.handOn target).quotes = [] := fun _ => rfl
  simp only [quotes, htail, hstatements, hunmapped, List.flatMap_map, hhandOn,
    List.flatMap_eq_nil_iff, implies_true, List.append_nil]

theorem quotes_combiningRoutine (sets : List CombiningSet) :
    (combiningRoutine sets).quotes = [] := by
  have hmember : ∀ codes, (combiningRoutine.member codes).quotes = [] := by
    intro codes
    cases codes <;> rfl
  have hnever : Atom.never.quotes = [] := rfl
  simp [Routine.quotes, combiningRoutine, Stmt.quotes, Tail.quotes, List.flatMap_map, hmember,
    hnever]

theorem quotes_lookupRoutine (charsets : List Charset) :
    (lookupRoutine charsets).quotes = [[' ']] := by
  simp [Routine.quotes, lookupRoutine, Stmt.quotes, Tail.quotes, List.flatMap_map, Atom.quotes]

/-! ## The literals of a text -/

/-- The literals of a text are those of its routines. -/
theorem literals_ofText_render (p : CompiledTable) (form : BlockForm) :
    literals (ofText (render p form)) = (ofCompiled p form).routines.flatMap Routine.quotes := by
  rw [render, ofText_text (printable_ofCompiled p form), Fragment.tokens, literals_flatMap]
  simp only [Routine.literals_tokens]

/-- The first literal of a text is the space, and all others are escapes. -/
theorem literals_render (p : CompiledTable) (form : BlockForm) :
    ∃ escapes, literals (ofText (render p form)) = [' '] :: escapes ∧
      ∀ body ∈ escapes, Escaped body := by
  have hdecode : decodeRoutine.quotes = [] := rfl
  refine ⟨(p.charsets.toList.flatMap (charsetRoutines form)).flatMap Routine.quotes, ?_, ?_⟩
  · rw [literals_ofText_render, ofCompiled]
    simp only [List.flatMap_cons, quotes_combiningRoutine, hdecode, quotes_lookupRoutine,
      List.nil_append, List.cons_append]
  · intro body hbody
    obtain ⟨r, hr, hbody⟩ := List.mem_flatMap.mp hbody
    obtain ⟨charset, _, hr⟩ := List.mem_flatMap.mp hr
    rcases (section_charsetRoutines form charset).unit_or_route hr with
      ⟨block, _, name, isUnit⟩ | isRoute
    · exact isUnit.escaped hbody
    · rw [isRoute.quotes_eq_nil] at hbody
      cases hbody

end Marc8.Fragment
