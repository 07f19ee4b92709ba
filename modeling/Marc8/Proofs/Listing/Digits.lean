/-
Marc8.Proofs.Listing.Digits — how a numeral is read, digit by digit.

A field is taken apart without the reader: `Body` is what stands behind its mark
and its sign, and `Leads` are the digits with which a body begins, up to the
first character that is none. Digits are told by their characters (`IsDigit`).
The number of these leading digits decides about the field, and does so before
the character behind them:

  `readDigits_of_leads` — the reader gives the number if these digits are all
                          there is and it fits, and one of two faults otherwise;
  `read_eq_iff`         — so what is read from a field, a number or a fault, is
                          its `Verdict`.
-/
import Marc8.Listing.Error
import Marc8.Proofs.Lists

namespace Marc8.Listing.Numeral

open Text

/-! ## Digits -/

/-- The character is a digit in base sixteen, with a capital or a small letter, of this value. -/
def IsDigit (c : Char) (d : Nat) : Prop :=
  d < 16 ∧ (c = Hex.digitChar 'A' d ∨ c = Hex.digitChar 'a' d)

/-- The value of a digit is read off its character, in either case. -/
theorem digitValue?_eq_some_iff {c : Char} {d : Nat} :
    Hex.digitValue? c = some d ↔ IsDigit c d := by
  constructor
  · intro h
    have all : ∀ n ∈ List.range 103, ∀ e ∈ Hex.digitValue? (Char.ofNat n),
        e < 16 ∧ (Char.ofNat n = Hex.digitChar 'A' e ∨ Char.ofNat n = Hex.digitChar 'a' e) := by
      decide
    -- There is no digit above the last small letter.
    have hc : c.toNat < 103 := by
      refine Nat.lt_of_not_le fun hle => ?_
      have above : ∀ last ≤ 'f', ¬ c ≤ last := fun last hlast hc => by
        have hnat : c.toNat ≤ 102 := UInt32.le_iff_toNat_le.mp (Char.le_trans hc hlast)
        omega
      simp [Hex.digitValue?, above '9' (by decide), above 'F' (by decide), above 'f' (by decide)]
        at h
    have hdigit := all c.toNat (List.mem_range.mpr hc) d
    rw [Char.ofNat_toNat] at hdigit
    exact hdigit h
  · rintro ⟨small, rfl | rfl⟩
    · exact (Hex.digitValue?_digitChar small).1
    · exact (Hex.digitValue?_digitChar small).2

/-- Some characters are a number when all of them are digits and there is one at least. -/
theorem ofDigits?_eq_some_iff {text : List Char} {n : Nat} :
    Hex.ofDigits? text = some n ↔
      text ≠ [] ∧ ∃ digits, List.Forall₂ IsDigit text digits ∧ Hex.value 0 digits = n := by
  rw [Hex.ofDigits?]
  by_cases ne : text = []
  · simp [ne]
  · simp [ne, Option.map_eq_some_iff, mapM_eq_some_iff, digitValue?_eq_some_iff]

/-- More digits make no smaller number. -/
theorem le_value (digits : List Nat) (acc : Nat) : acc ≤ Hex.value acc digits := by
  induction digits generalizing acc with
  | nil => exact Nat.le_refl _
  | cons d rest ih =>
    calc acc ≤ acc * 16 + d := by omega
      _ ≤ Hex.value (acc * 16 + d) rest := ih _

/-- The digits with which a text begins, and the rest of it from the first character on that is no
digit. -/
inductive Leads : List Nat → List Char → List Char → Prop
  | stop {rest} (other : ∀ c ∈ rest.head?, ∀ d, ¬ IsDigit c d) : Leads [] rest rest
  | digit {c d digits text rest} (digit : IsDigit c d) (more : Leads digits text rest) :
      Leads (d :: digits) (c :: text) rest

theorem exists_leads : ∀ text, ∃ digits rest, Leads digits text rest
  | [] => ⟨[], [], .stop (by simp)⟩
  | c :: text => by
    cases hdigit : Hex.digitValue? c with
    | none =>
      refine ⟨[], c :: text, .stop fun c' hc' d hd => ?_⟩
      obtain rfl : c = c' := by simpa using hc'
      rw [digitValue?_eq_some_iff.mpr hd] at hdigit
      cases hdigit
    | some d =>
      obtain ⟨digits, rest, more⟩ := exists_leads text
      exact ⟨d :: digits, rest, .digit (digitValue?_eq_some_iff.mp hdigit) more⟩

/-- With nothing behind them the leading digits are the whole text. -/
theorem leads_nil_iff {digits : List Nat} {text : List Char} :
    Leads digits text [] ↔ List.Forall₂ IsDigit text digits := by
  constructor
  · intro h
    generalize hrest : [] = rest at h
    induction h with
    | stop => rw [← hrest]; exact .nil
    | digit digit _ ih => exact .cons digit (ih hrest)
  · intro h
    induction h with
    | nil => exact .stop (by simp)
    | cons digit _ ih => exact .digit digit ih

/-- A text with leading digits, or with something behind them, is not empty. -/
theorem Leads.ne_nil {digits : List Nat} {text rest : List Char} (leads : Leads digits text rest)
    (h : digits ≠ [] ∨ rest ≠ []) : text ≠ [] := by
  cases leads with
  | stop => simpa using h
  | digit => simp

/-- The leading digits are read up to the one that makes the number too large. If there is none, it
hangs on what stands behind them. -/
theorem readDigits_of_leads {digits : List Nat} {text rest : List Char}
    (leads : Leads digits text rest) {acc : Nat} (fits : acc < UInt32.size) :
    readDigits acc text =
      if Hex.value acc digits < UInt32.size then
        if rest = [] then .ok (.ofNat (Hex.value acc digits)) else .error .invalidDigit
      else .error .tooLarge := by
  induction leads generalizing acc with
  | @stop rest other =>
    have hvalue : Hex.value acc [] = acc := rfl
    rw [hvalue, if_pos fits]
    cases rest with
    | nil => rfl
    | cons c rest =>
      have hdigit : Hex.digitValue? c = none := by
        refine Option.eq_none_iff_forall_ne_some.mpr fun d hd => ?_
        exact other c rfl d (digitValue?_eq_some_iff.mp hd)
      simp [readDigits, hdigit]
  | @digit c d digits text rest digit _ ih =>
    have hvalue : Hex.value acc (d :: digits) = Hex.value (acc * 16 + d) digits := rfl
    rw [readDigits, digitValue?_eq_some_iff.mpr digit, hvalue]
    by_cases hfits : acc * 16 + d < UInt32.size
    · simp only [if_pos hfits]
      exact ih hfits
    · -- The number so far is too large, and more digits do not make it smaller.
      have hlarge : ¬ Hex.value (acc * 16 + d) digits < UInt32.size := fun hlt =>
        hfits (Nat.lt_of_le_of_lt (le_value digits _) hlt)
      simp only [if_neg hfits, if_neg hlarge]

/-! ## Fields -/

/-- What stands in a field behind the mark, and behind the plus sign if there is one. A second sign
is part of it. -/
inductive Body : Field → List Char → Prop
  | signed (body) : Body ('0' :: 'x' :: '+' :: body) body
  | unsigned {body} (sign : body.head? ≠ some '+') : Body ('0' :: 'x' :: body) body

/-- A field with the mark has a body. -/
theorem exists_body {field : Field} (mark : ['0', 'x'] <+: field) : ∃ body, Body field body := by
  obtain ⟨magnitude, rfl⟩ := mark
  by_cases sign : magnitude.head? = some '+'
  · obtain ⟨body, rfl⟩ := List.head?_eq_some_iff.mp sign
    exact ⟨body, .signed body⟩
  · exact ⟨magnitude, .unsigned sign⟩

/-- The number of a field, or the one thing that is wrong with it. What counts first are the digits
in front of any other character: if their number is too large, this is noticed before the
character. -/
inductive Verdict : Field → Except Fault UInt32 → Prop
  | number {field body digits} (stands : Body field body) (leads : Leads digits body [])
      (nonempty : digits ≠ []) (fits : Hex.value 0 digits < UInt32.size) :
      Verdict field (.ok (.ofNat (Hex.value 0 digits)))
  | noMark {field} (mark : ¬ ['0', 'x'] <+: field) : Verdict field (.error .noMark)
  | empty : Verdict ['0', 'x'] (.error .empty)
  | loneSign : Verdict ['0', 'x', '+'] (.error .invalidDigit)
  | invalidDigit {field body digits c rest} (stands : Body field body)
      (leads : Leads digits body (c :: rest)) (fits : Hex.value 0 digits < UInt32.size) :
      Verdict field (.error .invalidDigit)
  | tooLarge {field body digits rest} (stands : Body field body) (leads : Leads digits body rest)
      (large : UInt32.size ≤ Hex.value 0 digits) : Verdict field (.error .tooLarge)

theorem read_of_noMark {field : Field} (mark : ¬ ['0', 'x'] <+: field) :
    read field = .error .noMark := by
  unfold read
  split
  · exact absurd (List.prefix_append ['0', 'x'] _) mark
  · rfl

/-- A body that is not empty is read as its leading digits say. -/
theorem read_of_leads {field : Field} {body rest : List Char} {digits : List Nat}
    (stands : Body field body) (ne : body ≠ []) (leads : Leads digits body rest) :
    read field =
      if Hex.value 0 digits < UInt32.size then
        if rest = [] then .ok (.ofNat (Hex.value 0 digits)) else .error .invalidDigit
      else .error .tooLarge := by
  have hread : read field = readDigits 0 body := by
    obtain ⟨c, text, rfl⟩ := List.exists_cons_of_ne_nil ne
    cases stands with
    | signed => rfl
    | unsigned sign =>
      have hc : c ≠ '+' := fun h => sign (by rw [h]; rfl)
      show readMagnitude (c :: text) = _
      unfold readMagnitude
      split <;> simp_all
  rw [hread, readDigits_of_leads leads (by decide)]

/-- What is read from a field is its verdict. -/
theorem verdict_read (field : Field) : Verdict field (read field) := by
  by_cases mark : ['0', 'x'] <+: field
  · obtain ⟨body, stands⟩ := exists_body mark
    by_cases ne : body = []
    · subst ne
      cases stands with
      | signed => exact .loneSign
      | unsigned => exact .empty
    · obtain ⟨digits, rest, leads⟩ := exists_leads body
      rw [read_of_leads stands ne leads]
      by_cases fits : Hex.value 0 digits < UInt32.size
      · rw [if_pos fits]
        cases rest with
        | nil =>
          refine .number stands leads (fun hdigits => ne ?_) fits
          rw [hdigits, leads_nil_iff] at leads
          exact List.forall₂_nil_right_iff.mp leads
        | cons c rest => exact .invalidDigit stands leads fits
      · rw [if_neg fits]
        exact .tooLarge stands leads (Nat.le_of_not_lt fits)
  · rw [read_of_noMark mark]
    exact .noMark mark

/-- A field has one verdict only, that of the reader. -/
theorem Verdict.read_eq {field : Field} {result : Except Fault UInt32} (h : Verdict field result) :
    read field = result := by
  cases h with
  | number stands leads nonempty fits =>
    rw [read_of_leads stands (leads.ne_nil (.inl nonempty)) leads, if_pos fits, if_pos rfl]
  | noMark mark => exact read_of_noMark mark
  | empty => rfl
  | loneSign => rfl
  | @invalidDigit _ _ _ c rest stands leads fits =>
    have ne : c :: rest ≠ [] := List.cons_ne_nil c rest
    rw [read_of_leads stands (leads.ne_nil (.inr ne)) leads, if_pos fits, if_neg ne]
  | @tooLarge _ _ digits _ stands leads large =>
    -- Without digits the number would be zero.
    have nonempty : digits ≠ [] := fun h => by
      rw [h] at large
      exact absurd large (by decide)
    rw [read_of_leads stands (leads.ne_nil (.inl nonempty)) leads, if_neg (Nat.not_lt_of_le large)]

theorem read_eq_iff {field : Field} {result : Except Fault UInt32} :
    read field = result ↔ Verdict field result :=
  ⟨fun h => h ▸ verdict_read field, Verdict.read_eq⟩

end Marc8.Listing.Numeral
