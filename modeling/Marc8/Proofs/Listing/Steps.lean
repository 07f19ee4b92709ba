/-
Marc8.Proofs.Listing.Steps — reading a listing step by step.

`Draft.Step` says what a statement makes of a draft when it is carried out, one
rule for each kind of statement, with all that is asked of the draft and of the
fields. Statements that are refused have no step:

  `carryOut_eq_ok_iff`   — a statement is carried out along its step;
  `readLine_eq_ok_iff`   — a line says nothing, or takes the step of its statement;
  `readLines_append_eq`  — lines are read one after another;
  `readLines_eq_error_iff` — the first one that is refused ends the reading;
  `readLines_keeps`      — what every line keeps holds at the end;
  `exists_draft_of_read` — a table that can be read is what the last draft holds.
-/
import Marc8.Listing.Reader

namespace Marc8

namespace Listing

open Text

/-! ## One statement -/

/-- What a statement that can be carried out makes of a draft. -/
inductive Draft.Step (d : Draft) : Statement → Draft → Prop
  | multibyte {field selector} (unnamed : d.multibyte = none)
      (selector_eq : number field = .ok selector) :
      Step d (.multibyte field) { d with multibyte := some selector }
  | charset {field selector} (selector_eq : number field = .ok selector)
      (absent : d.pages.contains selector = false) :
      Step d (.charset field)
        { d with current := some selector, pages := d.pages.insert selector .empty }
  | combining {field codes selector more} (selector_eq : number field = .ok selector)
      (codes_eq : numbers codes = .ok more) :
      Step d (.combining field codes)
        { d with combining :=
          d.combining.insert selector ((d.combining.find? selector).getD [] ++ more) }
  | entry {codeField valueField selector code value} (opened : d.current = some selector)
      (code_eq : number codeField = .ok code) (value_eq : target valueField = .ok value)
      (absent : ((d.pages.find? selector).getD .empty).contains code = false) :
      Step d (.entry codeField valueField)
        { d with pages :=
          d.pages.insert selector (((d.pages.find? selector).getD .empty).insert code value) }

theorem step_of_carryOut {d d' : Draft} {statement : Statement}
    (h : d.carryOut statement = .ok d') : d.Step statement d' := by
  cases statement with
  | multibyte field =>
    cases hnamed : d.multibyte with
    | some selector => simp [Draft.carryOut, hnamed] at h
    | none =>
      cases hnumber : number field with
      | error fault => simp [Draft.carryOut, hnamed, hnumber] at h
      | ok selector =>
        obtain rfl : _ = d' := by simpa [Draft.carryOut, hnamed, hnumber] using h
        exact .multibyte hnamed hnumber
  | charset field =>
    cases hnumber : number field with
    | error fault => simp [Draft.carryOut, hnumber] at h
    | ok selector =>
      cases hcontains : d.pages.contains selector with
      | true => simp [Draft.carryOut, hnumber, hcontains] at h
      | false =>
        obtain rfl : _ = d' := by simpa [Draft.carryOut, hnumber, hcontains] using h
        exact .charset hnumber hcontains
  | combining field codes =>
    cases hnumber : number field with
    | error fault => simp [Draft.carryOut, hnumber] at h
    | ok selector =>
      cases hcodes : numbers codes with
      | error fault => simp [Draft.carryOut, hnumber, hcodes] at h
      | ok more =>
        obtain rfl : _ = d' := by simpa [Draft.carryOut, hnumber, hcodes] using h
        exact .combining hnumber hcodes
  | entry codeField valueField =>
    obtain ⟨multibyte, current, pages, combining⟩ := d
    cases current with
    | none => simp [Draft.carryOut] at h
    | some selector =>
      cases hcode : number codeField with
      | error fault => simp [Draft.carryOut, hcode] at h
      | ok code =>
        cases hvalue : target valueField with
        | error fault => simp [Draft.carryOut, hcode, hvalue] at h
        | ok value =>
          cases hcontains : ((pages.find? selector).getD .empty).contains code with
          | true => simp [Draft.carryOut, hcode, hvalue, hcontains] at h
          | false =>
            obtain rfl : _ = d' := by simpa [Draft.carryOut, hcode, hvalue, hcontains] using h
            exact .entry rfl hcode hvalue hcontains

/-- A statement is carried out along its step. -/
theorem carryOut_eq_ok_iff {d d' : Draft} {statement : Statement} :
    d.carryOut statement = .ok d' ↔ d.Step statement d' := by
  refine ⟨step_of_carryOut, fun step => ?_⟩
  cases step with
  | multibyte unnamed selector_eq => simp [Draft.carryOut, unnamed, selector_eq]
  | charset selector_eq absent => simp [Draft.carryOut, selector_eq, absent]
  | combining selector_eq codes_eq => simp [Draft.carryOut, selector_eq, codes_eq]
  | entry opened code_eq value_eq absent =>
    simp [Draft.carryOut, opened, code_eq, value_eq, absent]

/-! ## Reading line by line -/

/-- Lines are read when the first is, and the others are from what it has left. -/
theorem readLines_cons_eq_ok_iff {d d' : Draft} {first : Nat} {line : List Char}
    {rest : List (List Char)} : d.readLines first (line :: rest) = .ok d' ↔
      ∃ between, d.readLine line = .ok between ∧ between.readLines (first + 1) rest = .ok d' := by
  rw [Draft.readLines]
  cases d.readLine line <;> simp

/-- Lines are read one after another, the second part from the draft that the first has left. Behind
a line that is refused nothing is read. -/
theorem readLines_append_eq (d : Draft) (first : Nat) (front back : List (List Char)) :
    d.readLines first (front ++ back) =
      match d.readLines first front with
      | .error e => .error e
      | .ok between => between.readLines (first + front.length) back := by
  induction front generalizing d first with
  | nil => rfl
  | cons line rest ih =>
    rw [List.cons_append, Draft.readLines, Draft.readLines]
    cases d.readLine line with
    | error fault => rfl
    | ok next =>
      simp only
      rw [ih, List.length_cons, Nat.add_assoc, Nat.add_comm 1]

/-- When all lines are read, the second part is read from what the first has left. -/
theorem readLines_append {front back : List (List Char)} {d d' : Draft} {first : Nat}
    (h : d.readLines first (front ++ back) = .ok d') :
    ∃ between, d.readLines first front = .ok between ∧
      between.readLines (first + front.length) back = .ok d' := by
  rw [readLines_append_eq] at h
  cases hfront : d.readLines first front with
  | error e => simp [hfront] at h
  | ok between => exact ⟨between, rfl, by simpa [hfront] using h⟩

/-- What every line keeps holds at the end. -/
theorem readLines_keeps {keeps : Draft → Prop} : ∀ {lines : List (List Char)} {d d' : Draft}
    {first : Nat}, (∀ line ∈ lines, ∀ d d', keeps d → d.readLine line = .ok d' → keeps d') →
      keeps d → d.readLines first lines = .ok d' → keeps d'
  | [], d, d', _, _, hd, h => by
    obtain rfl : d = d' := by simpa [Draft.readLines] using h
    exact hd
  | line :: rest, d, d', first, step, hd, h => by
    obtain ⟨next, hline, hrest⟩ := readLines_cons_eq_ok_iff.mp h
    have hnext := step line (by simp) d next hd hline
    exact readLines_keeps (fun l hl => step l (List.mem_cons_of_mem _ hl)) hnext hrest

/-- Where lines are not read, one is refused behind others that are read, and it is named. -/
theorem readLines_eq_error_iff {lines : List (List Char)} {d : Draft} {first : Nat} {e : Error} :
    d.readLines first lines = .error e ↔
      ∃ front line back between fault, lines = front ++ line :: back ∧
        d.readLines first front = .ok between ∧ between.readLine line = .error fault ∧
        e = ⟨first + front.length, fault⟩ := by
  constructor
  · intro h
    induction lines generalizing d first with
    | nil => cases h
    | cons line rest ih =>
      rw [Draft.readLines] at h
      cases hline : d.readLine line with
      | error fault =>
        obtain rfl : ⟨first, fault⟩ = e := by simpa [hline] using h
        exact ⟨[], line, rest, d, fault, rfl, rfl, hline, rfl⟩
      | ok next =>
        obtain ⟨front, refused, back, between, fault, rfl, hfront, hrefused, rfl⟩ :=
          ih (by simpa [hline] using h)
        refine ⟨line :: front, refused, back, between, fault, rfl, ?_, hrefused, ?_⟩
        · exact readLines_cons_eq_ok_iff.mpr ⟨next, hline, hfront⟩
        · rw [List.length_cons, Nat.add_assoc, Nat.add_comm 1]
  · rintro ⟨front, line, back, between, fault, rfl, hfront, hline, rfl⟩
    simp [readLines_append_eq, hfront, Draft.readLines, hline]

/-- A line is read when it says nothing, or a statement that can be carried out. -/
theorem readLine_eq_ok_iff {d d' : Draft} {line : List Char} : d.readLine line = .ok d' ↔
    (Statement.ofLine line = .ok none ∧ d = d') ∨
      ∃ statement, Statement.ofLine line = .ok (some statement) ∧ d.Step statement d' := by
  unfold Draft.readLine
  cases hstatement : Statement.ofLine line with
  | error fault => simp
  | ok statement? =>
    cases statement? with
    | none => simp
    | some statement => simp [carryOut_eq_ok_iff]

/-- A table that can be read is what the last draft holds. -/
theorem exists_draft_of_read {text : String} {t : CodeTable} (h : read text = .ok t) :
    ∃ d multibyte, ({} : Draft).readLines 1 (lines text.toList) = .ok d ∧
      d.multibyte = some multibyte ∧ t = ⟨multibyte, d.pages, d.combining⟩ := by
  unfold read at h
  cases hlines : ({} : Draft).readLines 1 (lines text.toList) with
  | error e => simp [hlines] at h
  | ok d =>
    cases hmultibyte : d.multibyte with
    | none => simp [hlines, Draft.close, hmultibyte] at h
    | some multibyte =>
      refine ⟨d, multibyte, rfl, hmultibyte, ?_⟩
      simpa [hlines, Draft.close, hmultibyte] using h.symm

end Listing

end Marc8
