/-
Marc8.Text.Hex — 32-bit words in base sixteen.

A word is written with the fewest digits (zero has one), most significant
first, with letters of either case. `digitValue?` reads one digit of either
case. `value_nibbles` says that the digits add up to the word.
-/

namespace Marc8.Text.Hex

/-- What a one stands for at each of the eight places. -/
def places : List Nat := [0x10000000, 0x1000000, 0x100000, 0x10000, 0x1000, 0x100, 0x10, 1]

/-- The digits of a word, most significant first, without leading zeros. -/
def nibbles (n : UInt32) : List Nat :=
  match (places.map fun place => n.toNat / place % 16).dropWhile (· = 0) with
  | [] => [0]
  | digits => digits

/-- The character of a digit, letters counted from `letter`. -/
def digitChar (letter : Char) (d : Nat) : Char :=
  if d < 10 then Char.ofNat ('0'.toNat + d) else Char.ofNat (letter.toNat + (d - 10))

/-- The value of a digit of either case. -/
def digitValue? (c : Char) : Option Nat :=
  if '0' ≤ c ∧ c ≤ '9' then some (c.toNat - '0'.toNat)
  else if 'A' ≤ c ∧ c ≤ 'F' then some (c.toNat - 'A'.toNat + 10)
  else if 'a' ≤ c ∧ c ≤ 'f' then some (c.toNat - 'a'.toNat + 10)
  else none

/-- The number that a list of digits stands for, continuing from `acc`. -/
def value (acc : Nat) (digits : List Nat) : Nat := digits.foldl (fun n d => n * 16 + d) acc

/-- The number of some digits of either case; there has to be one at least. -/
def ofDigits? (digits : List Char) : Option Nat :=
  if digits = [] then none else (digits.mapM digitValue?).map (value 0)

/-- The word with capital letters. -/
def upper (n : UInt32) : List Char := (nibbles n).map (digitChar 'A')

/-- The word with small letters. -/
def lower (n : UInt32) : List Char := (nibbles n).map (digitChar 'a')

/-- The word as a number literal: `0x` and capital letters. -/
def literal (n : UInt32) : String := "0x" ++ String.ofList (upper n)

/-- The word with capital letters and zeros in front, up to at least `width` digits. -/
def upperPadded (width : Nat) (n : UInt32) : List Char :=
  List.replicate (width - (nibbles n).length) '0' ++ upper n

/-- A digit reads back from its character, in either case. -/
theorem digitValue?_digitChar {d : Nat} (h : d < 16) :
    digitValue? (digitChar 'A' d) = some d ∧ digitValue? (digitChar 'a' d) = some d := by
  have all : ∀ e ∈ List.range 16,
      digitValue? (digitChar 'A' e) = some e ∧ digitValue? (digitChar 'a' e) = some e := by decide
  exact all d (List.mem_range.mpr h)

/-- Every digit is below sixteen. -/
theorem lt_of_mem_nibbles {n : UInt32} {d : Nat} (h : d ∈ nibbles n) : d < 16 := by
  unfold nibbles at h
  split at h
  · simp at h; omega
  · next digits _ =>
    have hd := (List.dropWhile_sublist _).subset h
    simp only [List.mem_map] at hd
    obtain ⟨i, _, rfl⟩ := hd
    omega

/-- A word has at least one digit. -/
theorem nibbles_ne_nil (n : UInt32) : nibbles n ≠ [] := by
  unfold nibbles
  split
  · simp
  · next digits h => exact h

/-- Leading zeros count for nothing. -/
theorem value_dropWhile_zero (digits : List Nat) :
    value 0 (digits.dropWhile (· = 0)) = value 0 digits := by
  induction digits with
  | nil => rfl
  | cons d rest ih =>
    by_cases h : d = 0
    · simpa [value, h] using ih
    · simp [h]

/-- The digits of a word add up to the word. -/
theorem value_nibbles (n : UInt32) : value 0 (nibbles n) = n.toNat := by
  have hn : n.toNat < 4294967296 := n.toNat_lt
  have hall : value 0 (places.map fun place => n.toNat / place % 16) = n.toNat := by
    simp only [places, List.map_cons, List.map_nil, value, List.foldl_cons, List.foldl_nil]
    omega
  rw [← value_dropWhile_zero] at hall
  unfold nibbles
  split
  · next h => rw [h] at hall; simpa [value] using hall
  · exact hall

/-- The digits of a word, written with capital letters or with small ones, read back as the word. -/
theorem ofDigits?_upper (n : UInt32) :
    ofDigits? (upper n) = some n.toNat ∧ ofDigits? (lower n) = some n.toNat := by
  have read : ∀ digits : List Nat, (∀ d ∈ digits, d < 16) →
      (digits.map (digitChar 'A')).mapM digitValue? = some digits ∧
        (digits.map (digitChar 'a')).mapM digitValue? = some digits := by
    intro digits h
    induction digits with
    | nil => exact ⟨rfl, rfl⟩
    | cons d rest ih =>
      have hd := digitValue?_digitChar (h d (by simp))
      have hr := ih fun e he => h e (by simp [he])
      simp [List.mapM_cons, hd.1, hd.2, hr.1, hr.2]
  have hr := read (nibbles n) fun _ => lt_of_mem_nibbles
  simp [ofDigits?, upper, lower, nibbles_ne_nil, hr.1, hr.2, value_nibbles]

example : upper 0x214FFF = "214FFF".toList ∧ lower 0 = ['0'] := by decide
example : upperPadded 4 0x41 = "0041".toList ∧ upperPadded 4 0x10FFFF = "10FFFF".toList := by decide

end Marc8.Text.Hex
