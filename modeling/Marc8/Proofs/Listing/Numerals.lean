/-
Marc8.Proofs.Listing.Numerals — which fields are numbers, and of which value.

`Numeral.Denotes` says it without the reader: the mark, at most one plus sign,
and digits, at least one and of either case, which add up to the number.

  `Numeral.read_eq_ok_iff` — the reader accepts these fields, with this number;
  `numbers_eq_ok_iff`      — the same for several fields;
  `target_eq_ok_iff`       — what an entry may map its code to;
  `number_read_or_refused` — every field has its number or its fault, and what
                             the program writes as a number is one.
-/
import Marc8.Listing.Reader
import Marc8.Proofs.Listing.Digits

namespace Marc8.Listing

open Text

/-- The field is the mark, at most one plus sign, and digits for the number. The number fits 32 bits
by its type. -/
def Numeral.Denotes (field : Field) (n : UInt32) : Prop :=
  ∃ sign digits, field = ['0', 'x'] ++ sign ++ digits ∧ (sign = [] ∨ sign = ['+']) ∧
    Hex.ofDigits? digits = some n.toNat

namespace Numeral

/-- The fields that denote a number, with their digits one by one. -/
theorem denotes_iff {field : Field} {n : UInt32} :
    Denotes field n ↔ ∃ sign text digits, field = ['0', 'x'] ++ sign ++ text ∧
      (sign = [] ∨ sign = ['+']) ∧ text ≠ [] ∧ List.Forall₂ IsDigit text digits ∧
      Hex.value 0 digits = n.toNat := by
  simp only [Denotes, ofDigits?_eq_some_iff, exists_and_left]

/-- A plus sign is no digit. -/
theorem not_isDigit_plus (d : Nat) : ¬ IsDigit '+' d := by
  have hplus : Hex.digitValue? '+' = none := by decide
  rw [← digitValue?_eq_some_iff, hplus]
  simp

/-- These fields are those with a number for their verdict. -/
theorem denotes_iff_verdict {field : Field} {n : UInt32} :
    Denotes field n ↔ Verdict field (.ok n) := by
  rw [denotes_iff]
  constructor
  · rintro ⟨sign, text, digits, rfl, hsign, ne, spelled, value⟩
    have fits : Hex.value 0 digits < UInt32.size := value ▸ n.toNat_lt_size
    have nonempty : digits ≠ [] := fun h => by
      rw [h] at spelled
      exact ne (List.forall₂_nil_right_iff.mp spelled)
    have stands : Body (['0', 'x'] ++ sign ++ text) text := by
      rcases hsign with rfl | rfl
      · refine .unsigned fun head => ?_
        cases spelled with
        | nil => exact ne rfl
        | cons digit _ =>
          obtain rfl : _ = '+' := by simpa using head
          exact not_isDigit_plus _ digit
      · exact .signed text
    have verdict := Verdict.number stands (leads_nil_iff.mpr spelled) nonempty fits
    rwa [value, UInt32.ofNat_toNat] at verdict
  · intro h
    generalize hresult : Except.ok n = result at h
    cases h with
    | @number _ text digits stands leads nonempty fits =>
      obtain rfl : n = .ofNat (Hex.value 0 digits) := Except.ok.inj hresult
      have spelled := leads_nil_iff.mp leads
      have ne := leads.ne_nil (.inl nonempty)
      have value : Hex.value 0 digits = (UInt32.ofNat (Hex.value 0 digits)).toNat :=
        (UInt32.toNat_ofNat_of_lt' fits).symm
      cases stands with
      | signed => exact ⟨['+'], text, digits, rfl, .inr rfl, ne, spelled, value⟩
      | unsigned => exact ⟨[], text, digits, rfl, .inl rfl, ne, spelled, value⟩
    | _ => cases hresult

/-- The reader of numbers accepts the fields that are one, with their number. -/
theorem read_eq_ok_iff {field : Field} {n : UInt32} : read field = .ok n ↔ Denotes field n := by
  rw [read_eq_iff, denotes_iff_verdict]

end Numeral

/-! ## Fields of a statement -/

/-- A field that is no number is refused for the fault that is its verdict. -/
theorem number_eq_error_iff {field : Field} {fault : Fault} :
    number field = .error fault ↔
      ∃ cause, Numeral.Verdict field (.error cause) ∧ fault = .numeral field cause := by
  simp only [← Numeral.read_eq_iff, number]
  cases Numeral.read field <;> simp [eq_comm]

theorem number_eq_ok_iff {field : Field} {n : UInt32} :
    number field = .ok n ↔ Numeral.Denotes field n := by
  rw [← Numeral.read_eq_ok_iff, number]
  cases Numeral.read field <;> simp

/-- Several fields are read when each is a number. -/
theorem numbers_eq_ok_iff {fields : List Field} {ns : List UInt32} :
    numbers fields = .ok ns ↔ List.Forall₂ Numeral.Denotes fields ns := by
  induction fields generalizing ns with
  | nil =>
    rw [numbers, List.forall₂_nil_left_iff]
    simp [eq_comm]
  | cons field rest ih =>
    rw [List.forall₂_cons_left_iff]
    simp only [← number_eq_ok_iff, ← ih, numbers]
    cases number field with
    | error fault => simp
    | ok n =>
      cases numbers rest with
      | error fault => simp
      | ok more => simp [eq_comm]

/-- An entry maps its code to nothing, or to the character with a given number. -/
theorem target_eq_ok_iff {field : Field} {value : Option Char} :
    target field = .ok value ↔ (field = ['-'] ∧ value = none) ∨
      ∃ c : Char, Numeral.Denotes field c.val ∧ value = some c := by
  unfold target
  split
  · next hdash =>
    subst hdash
    have none_denoted : ∀ n, ¬ Numeral.Denotes ['-'] n := fun n ⟨sign, digits, heq, _⟩ =>
      nomatch heq
    simp [none_denoted, eq_comm]
  · next hdash =>
    simp only [← number_eq_ok_iff, hdash, false_and, false_or]
    cases number field with
    | error fault => simp
    | ok n =>
      simp only [character?, Except.ok.injEq]
      by_cases valid : n.isValidChar
      · simp only [valid, dite_true, Except.ok.injEq]
        constructor
        · rintro rfl
          exact ⟨⟨n, valid⟩, rfl, rfl⟩
        · rintro ⟨c, rfl, rfl⟩
          rfl
      · simp only [valid, dite_false, reduceCtorEq, false_iff, not_exists, not_and]
        rintro c rfl
        exact absurd c.valid valid

/-! ## Numbers of characters -/

/-- The number is neither a surrogate nor beyond the last plane. -/
def IsScalar (n : UInt32) : Prop := n.toNat < 0xD800 ∨ 0xDFFF < n.toNat ∧ n.toNat < 0x110000

/-- These numbers are those of the characters. -/
theorem isScalar_iff {n : UInt32} : IsScalar n ↔ ∃ c : Char, c.val = n :=
  ⟨fun valid => ⟨⟨n, valid⟩, rfl⟩, fun ⟨c, hc⟩ => hc ▸ c.valid⟩

/-- A field stands for the character whose number it is. -/
theorem target_eq_char_iff {field : Field} {c : Char} :
    target field = .ok (some c) ↔ number field = .ok c.val := by
  rw [target_eq_ok_iff, number_eq_ok_iff]
  simp

/-- Where a character has to stand, fields are refused that are no numbers, and numbers that are
none of a character. -/
theorem target_eq_error_iff {field : Field} {fault : Fault} :
    target field = .error fault ↔ field ≠ ['-'] ∧
      (number field = .error fault ∨
        ∃ n, number field = .ok n ∧ ¬ IsScalar n ∧ fault = .notCharacter n) := by
  unfold target
  by_cases hdash : field = ['-']
  · simp [hdash]
  · rw [if_neg hdash]
    cases number field with
    | error cause => simp [hdash]
    | ok n =>
      by_cases valid : n.isValidChar
      · have scalar : IsScalar n := valid
        simp [character?, valid, scalar]
      · have notScalar : ¬ IsScalar n := valid
        simp [character?, valid, notScalar, hdash, eq_comm]

/-! ## Every field -/

/-- A number literal is read as the number that it has been written for. -/
theorem number_literal (n : UInt32) : number (Hex.literal n).toList = .ok n := by
  rw [number_eq_ok_iff]
  refine ⟨[], Hex.upper n, ?_, .inl rfl, (Hex.ofDigits?_upper n).1⟩
  simp [Hex.literal]

/-- A field is a number when it is the mark, at most one plus sign and digits, at least one, whose
number fits 32 bits. Any other field is refused for the one fault that is its verdict. Literals that
are written are read as the numbers they stand for. Where a character has to stand, the numbers of
characters are accepted, and no others. -/
theorem number_read_or_refused :
    (∀ (field : Field) (n : UInt32), number field = .ok n ↔
      ∃ sign text digits, field = ['0', 'x'] ++ sign ++ text ∧ (sign = [] ∨ sign = ['+']) ∧
        text ≠ [] ∧ List.Forall₂ Numeral.IsDigit text digits ∧ Hex.value 0 digits = n.toNat) ∧
    (∀ (field : Field) (fault : Fault), number field = .error fault ↔
      ∃ cause, Numeral.Verdict field (.error cause) ∧ fault = .numeral field cause) ∧
    (∀ n : UInt32, number (Hex.literal n).toList = .ok n) ∧
    (∀ (field : Field) (c : Char), target field = .ok (some c) ↔ number field = .ok c.val) ∧
    (∀ n : UInt32, IsScalar n ↔ ∃ c : Char, c.val = n) ∧
    ∀ (field : Field) (fault : Fault), target field = .error fault ↔ field ≠ ['-'] ∧
      (number field = .error fault ∨
        ∃ n, number field = .ok n ∧ ¬ IsScalar n ∧ fault = .notCharacter n) := by
  refine ⟨fun field n => ?_, fun _ _ => number_eq_error_iff, number_literal,
    fun _ _ => target_eq_char_iff, fun _ => isScalar_iff, fun _ _ => target_eq_error_iff⟩
  rw [number_eq_ok_iff, Numeral.denotes_iff]

end Marc8.Listing
