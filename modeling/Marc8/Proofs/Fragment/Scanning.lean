/-
Marc8.Proofs.Fragment.Scanning — which tokens the pieces of an emitted text are.

A text is scanned piece by piece, and a piece says which tokens it is without
regard to what stands around it. There are two ways to end:

  `Closed` — the piece leaves nothing open, so anything may follow;
  `Spells` — it may end in a word, so what follows must not continue one.

Pieces are put together by `Closed.then`, `Closed.append` and `Spells.then`,
`Spells.append`, the last two of which ask that the second piece begins apart
from a word (`Apart`, `Separates`). Fixed pieces are decided; the others are
words (names and numbers), characters written by their number, and lines of
documentation.
-/
import Marc8.Fragment.Text
import Marc8.Fragment.Token

namespace Marc8.Fragment.Token

open Marc8.Text

/-! ## Pieces -/

/-- Scanned from between two tokens, the text is these tokens and leaves nothing open. -/
def Closed (text : String) (tokens : List Token) : Prop :=
  scan .between text.toList = (.between, tokens)

instance (text : String) (tokens : List Token) : Decidable (Closed text tokens) :=
  inferInstanceAs (Decidable (_ = _))

/-- Scanned from between two tokens, the text is these tokens as soon as something follows that
does not continue a word. -/
def Spells (text : String) (tokens : List Token) : Prop :=
  ∀ c, isWordChar c = false →
    scan .between (text.toList ++ [c]) = ((start c).1, tokens ++ (start c).2)

/-- The text begins with a character that does not continue a word. -/
def Apart (text : String) : Prop := (text.toList.head?.any fun c => !isWordChar c) = true

instance (text : String) : Decidable (Apart text) := inferInstanceAs (Decidable (_ = _))

/-- The text is these tokens, leaves nothing open, and may stand behind a word. -/
def Separates (text : String) (tokens : List Token) : Prop := Closed text tokens ∧ Apart text

instance (text : String) (tokens : List Token) : Decidable (Separates text tokens) :=
  inferInstanceAs (Decidable (_ ∧ _))

variable {a b : String} {s t : List Token}

theorem Closed.spells (h : Closed a s) : Spells a s := by
  intro c _
  rw [scan_append, h]
  simp [scan, step]

theorem Closed.append (ha : Closed a s) (hb : Closed b t) : Closed (a ++ b) (s ++ t) := by
  rw [Closed, String.toList_append, scan_append, ha, hb]

theorem Closed.then (ha : Closed a s) (hb : Spells b t) : Spells (a ++ b) (s ++ t) := by
  intro c hc
  rw [String.toList_append, List.append_assoc, scan_append, ha, hb c hc, List.append_assoc]

/-- What comes behind a piece and begins apart from a word is scanned as if nothing were open. -/
theorem Spells.scan_append (h : Spells a s) (hb : Apart b) :
    scan .between (a ++ b).toList =
      ((scan .between b.toList).1, s ++ (scan .between b.toList).2) := by
  rw [String.toList_append]
  cases hchars : b.toList with
  | nil => simp [Apart, hchars] at hb
  | cons c rest =>
    have hc : isWordChar c = false := by simpa [Apart, hchars] using hb
    have hsplit : a.toList ++ c :: rest = (a.toList ++ [c]) ++ rest := by simp
    rw [hsplit, Token.scan_append, h c hc]
    simp [scan, step]

theorem Spells.append (ha : Spells a s) (hb : Separates b t) : Closed (a ++ b) (s ++ t) := by
  obtain ⟨closed, apart⟩ := hb
  rw [Closed, ha.scan_append apart, closed]

theorem Spells.then (ha : Spells a s) (hb : Spells b t) (apart : Apart b) :
    Spells (a ++ b) (s ++ t) := by
  intro c hc
  have hb' : Apart (b ++ String.singleton c) := by
    unfold Apart at apart ⊢
    cases h : b.toList with
    | nil => simp [h] at apart
    | cons d rest => simpa [h] using apart
  have hscan := ha.scan_append hb'
  rw [← String.append_assoc] at hscan
  simpa [hb c hc] using hscan

/-- A text that leaves nothing open has its tokens whatever stands around it. -/
theorem ofText_of_closed (h : Closed a s) : ofText a = s := by
  rw [ofText, h]
  simp [finish]

/-! ## Fixed pieces -/

/-- Can a word be all that the state has left open? -/
def State.settled : State → Bool
  | .between => true
  | .word _ => true
  | _ => false

/-- A fixed text that ends in a word spells its tokens. -/
theorem spells_ofText (h : (scan .between a.toList).1.settled = true) : Spells a (ofText a) := by
  intro c hc
  rw [Token.scan_append, ofText]
  cases hstate : (scan .between a.toList).1 with
  | between => simp [scan, step, finish]
  | word sofar => simp [scan, step, finish, hc]
  | _ => simp [hstate, State.settled] at h

/-! ## Words -/

/-- All characters of the text continue a word, and there is one at least. -/
def IsWord (text : String) : Prop := text.toList ≠ [] ∧ ∀ c ∈ text.toList, isWordChar c = true

instance (text : String) : Decidable (IsWord text) :=
  decidable_of_iff (text.toList ≠ [] ∧ text.toList.all isWordChar = true)
    (and_congr_right fun _ => List.all_eq_true)

theorem scan_word {sofar chars : List Char} (h : ∀ c ∈ chars, isWordChar c = true) :
    scan (.word sofar) chars = (.word (sofar ++ chars), []) := by
  induction chars generalizing sofar with
  | nil => simp [scan]
  | cons c rest ih =>
    simp [scan, step, h c (by simp), ih fun d hd => h d (by simp [hd])]

theorem spells_word (h : IsWord a) : Spells a [.word a.toList] := by
  obtain ⟨hne, hall⟩ := h
  intro c hc
  cases hchars : a.toList with
  | nil => exact absurd hchars hne
  | cons d rest =>
    rw [hchars] at hall
    have hd : isWordChar d = true := hall d (by simp)
    have hrest : scan (.word [d]) rest = (.word (d :: rest), []) :=
      scan_word fun e he => hall e (by simp [he])
    rw [List.cons_append, scan, Token.scan_append]
    simp [step, start, hd, hrest, scan, hc]

theorem isWordChar_digitChar {d : Nat} (h : d < 16) :
    isWordChar (Hex.digitChar 'A' d) = true ∧ isWordChar (Hex.digitChar 'a' d) = true := by
  have all : ∀ e ∈ List.range 16, isWordChar (Hex.digitChar 'A' e) = true ∧
      isWordChar (Hex.digitChar 'a' e) = true := by decide
  exact all d (List.mem_range.mpr h)

theorem IsWord.append (ha : IsWord a) (hb : IsWord b) : IsWord (a ++ b) := by
  refine ⟨by simp [ha.1], fun c hc => ?_⟩
  rw [String.toList_append, List.mem_append] at hc
  exact hc.elim (ha.2 c) (hb.2 c)

/-- Digits in base sixteen are a word, in either case. -/
theorem isWord_hex (n : UInt32) :
    IsWord (String.ofList (Hex.upper n)) ∧ IsWord (String.ofList (Hex.lower n)) := by
  have hne := Hex.nibbles_ne_nil n
  refine ⟨⟨by simp [Hex.upper, hne], fun c hc => ?_⟩, ⟨by simp [Hex.lower, hne], fun c hc => ?_⟩⟩
  · obtain ⟨d, hd, rfl⟩ := List.mem_map.mp (String.toList_ofList ▸ hc)
    exact (isWordChar_digitChar (Hex.lt_of_mem_nibbles hd)).1
  · obtain ⟨d, hd, rfl⟩ := List.mem_map.mp (String.toList_ofList ▸ hc)
    exact (isWordChar_digitChar (Hex.lt_of_mem_nibbles hd)).2

theorem isWord_literal (n : UInt32) : IsWord (Hex.literal n) :=
  IsWord.append (by decide) (isWord_hex n).1

theorem isWord_toString (n : Nat) : IsWord (toString n) := by
  have htext : (toString n).toList = Nat.toDigits 10 n := Nat.toList_repr
  refine ⟨by rw [htext]; exact Nat.toDigits_ne_nil, fun c hc => ?_⟩
  rw [htext] at hc
  have hdigit : c.isDigit = true := Nat.isDigit_of_mem_toDigits (by decide) (by decide) hc
  simp [isWordChar, Char.isAlphanum, hdigit]

/-! ## Characters and comments -/

/-- A character by its number, as it stands between the quotes. -/
def charBody (c : Char) : List Char := '\\' :: 'u' :: '\x7b' :: (Hex.upper c.val ++ ['\x7d'])

theorem scan_quoted {sofar chars : List Char} (h : ∀ c ∈ chars, c ≠ '\'') :
    scan (.quoted sofar) chars = (.quoted (sofar ++ chars), []) := by
  induction chars generalizing sofar with
  | nil => simp [scan]
  | cons c rest ih =>
    simp [scan, step, h c (by simp), ih fun d hd => h d (by simp [hd])]

theorem toList_charLiteral (c : Char) : (charLiteral c).toList = '\'' :: (charBody c ++ ['\'']) := by
  simp [charLiteral, charBody, opening, closing]

theorem not_quote_of_mem_charBody {c d : Char} (h : d ∈ charBody c) : d ≠ '\'' := by
  rintro rfl
  simp only [charBody, List.mem_cons, List.mem_append] at h
  rcases h with h | h | h | h | h | h
  · cases h
  · cases h
  · cases h
  · obtain ⟨e, he, hquote⟩ := List.mem_map.mp h
    have hword := (isWordChar_digitChar (Hex.lt_of_mem_nibbles he)).1
    rw [hquote] at hword
    cases hword
  · cases h
  · cases h

theorem closed_charLiteral (c : Char) : Closed (charLiteral c) [.quoted (charBody c)] := by
  have hbody : scan (.quoted []) (charBody c) = (.quoted (charBody c), []) :=
    scan_quoted fun d hd => not_quote_of_mem_charBody hd
  have hopen : step .between '\'' = (.quoted [], []) := by decide
  have hclose : step (.quoted (charBody c)) '\'' = (.between, [.quoted (charBody c)]) := by
    simp [step, charBody]
  rw [Closed, toList_charLiteral, scan, hopen]
  simp only [Token.scan_append, hbody, scan, hclose]
  rfl

theorem scan_documentation {sofar chars : List Char} (h : '\n' ∉ chars) :
    scan (.documentation sofar) chars = (.documentation (sofar ++ chars), []) := by
  induction chars generalizing sofar with
  | nil => simp [scan]
  | cons c rest ih =>
    have hc : c ≠ '\n' := fun heq => h (by simp [heq])
    have hrest : '\n' ∉ rest := fun hmem => h (by simp [hmem])
    simp [scan, step, hc, ih hrest]

/-- A line of documentation is one token. -/
theorem closed_documentation (h : '\n' ∉ a.toList) :
    Closed ("/// " ++ a ++ "\n") [.documentation (' ' :: a.toList)] := by
  have hmark : scan .between "/// ".toList = (.documentation [' '], []) := by decide
  simp only [Closed, String.toList_append, Token.scan_append, hmark, scan_documentation h]
  simp [scan, step]

/-- Whether a fixed line is a comment is seen from its characters. -/
theorem closed_comment {chars : List Char} {rest : List String}
    (h : scan .between (chars ++ ['\n']) = (.between, [])) (hrest : Closed (ofLines rest) t) :
    Closed (ofLines (String.ofList chars :: rest)) t := by
  have line : Closed (String.ofList chars ++ "\n") [] := by
    rw [Closed, String.toList_append, String.toList_ofList]
    exact h
  rw [ofLines_cons]
  exact line.append hrest

theorem closed_header : Closed (ofLines header) [] :=
  closed_comment (by decide) (closed_comment (by decide) (closed_comment (by decide) rfl))

end Marc8.Fragment.Token
