/-
Marc8.Proofs.Listing.Grammar — which texts are listings, and of which table.

A listing is told without its reader. Its lines, each up to the first `#` and
cut into fields, say one directive each (`Says`); lines without fields say
nothing. The directives have to go together (`WellFormed`): one names the
multi-byte charset, no charset is opened twice, every entry stands under a
charset, and no charset has two entries for one code. The table that they
describe (`Describes`) is told by where the entries stand (`Under`).

What goes together is asked of the directives as a whole. For a reader that goes
from line to line it is taken apart: a directive has to fit those in front of it
(`Fits`), and these have to be consistent already (`consistent_concat_iff`).
-/
import Marc8.Proofs.Listing.Numerals
import Mathlib.Data.List.Induction

namespace Marc8.Listing

open Text

/-! ## Lines -/

/-- What a line says, with its numbers. -/
inductive Directive
  | multibyte (selector : Selector)
  | charset (selector : Selector)
  | combining (selector : Selector) (codes : List Code)
  | entry (code : Code) (value : Option Char)
  deriving DecidableEq

/-- The words that begin a line which is no entry. -/
def keywords : List Field := ["multibyte".toList, "charset".toList, "combining".toList]

/-- The fields of a line say a directive. Numbers count by their value, and a character has to be
one: its number is that of a Unicode scalar value. -/
inductive Says : List Field → Directive → Prop
  | multibyte {field n} (selector : Numeral.Denotes field n) :
      Says ["multibyte".toList, field] (.multibyte n)
  | charset {field n} (selector : Numeral.Denotes field n) :
      Says ["charset".toList, field] (.charset n)
  | combining {field n fields ns} (selector : Numeral.Denotes field n)
      (codes : List.Forall₂ Numeral.Denotes fields ns) :
      Says ("combining".toList :: field :: fields) (.combining n ns)
  | entry {field n field'} {c : Char} (entry : field ∉ keywords) (code : Numeral.Denotes field n)
      (value : Numeral.Denotes field' c.val) : Says [field, field'] (.entry n (some c))
  | hole {field n} (entry : field ∉ keywords) (code : Numeral.Denotes field n) :
      Says [field, ['-']] (.entry n none)

/-- The lines of a text that say something, as their fields. -/
def said (lines : List (List Char)) : List (List Field) :=
  (lines.map fun line => fields (withoutComment line)).filter (· ≠ [])

/-- The text says the directives, line by line. -/
def Spelled (text : String) (ds : List Directive) : Prop :=
  List.Forall₂ Says (said (lines text.toList)) ds

/-! ## Directives that go together -/

/-- The entry stands under the charset: no other charset is opened in between. -/
def Under (ds : List Directive) (selector : Selector) (code : Code) (value : Option Char) : Prop :=
  ∃ front between back,
    ds = front ++ .charset selector :: between ++ .entry code value :: back ∧
      ∀ other, .charset other ∉ between

/-- Directives that do not contradict each other, and leave no entry without a charset. -/
structure Consistent (ds : List Directive) : Prop where
  /-- The multi-byte charset is not named twice. -/
  multibyte : ds.Pairwise fun a b => ∀ n n', a = .multibyte n → b ≠ .multibyte n'
  /-- No charset is opened twice. -/
  charsets : ds.Pairwise fun a b => ∀ selector, a = .charset selector → b ≠ .charset selector
  /-- Every entry stands behind the opening of a charset. -/
  opened : ∀ front code value back, ds = front ++ .entry code value :: back →
    ∃ selector, .charset selector ∈ front
  /-- Between two entries for one code a charset is opened. -/
  codes : ∀ front code value between value' back,
    ds = front ++ .entry code value :: between ++ .entry code value' :: back →
      ∃ selector, .charset selector ∈ between

/-- The directives of a listing: they name the multi-byte charset, and are consistent. -/
structure WellFormed (ds : List Directive) : Prop extends Consistent ds where
  named : ∃ n, .multibyte n ∈ ds

/-- The codes that a directive adds to the combining codes of a selector. -/
def Directive.adds (selector : Selector) : Directive → List Code
  | .combining selector' codes => if selector' = selector then codes else []
  | _ => []

/-- The selector of the charset that a directive opens. -/
def Directive.opens? : Directive → Option Selector
  | .charset selector => some selector
  | _ => none

/-- The table holds what the directives say. -/
structure Describes (ds : List Directive) (t : CodeTable) : Prop where
  /-- The multi-byte charset is the one that is named. -/
  multibyte : .multibyte t.multibyte ∈ ds
  /-- There is a page for each charset that is opened, and no other. -/
  pages : ∀ selector, t.pages.contains selector = true ↔ .charset selector ∈ ds
  /-- A page holds the entries that stand under its charset. -/
  entries : ∀ selector page, t.pages.find? selector = some page →
    ∀ code value, page.find? code = some value ↔ Under ds selector code value
  /-- The selectors with combining codes are those of the lines that give some, or give none. -/
  combining : ∀ selector,
    t.combining.contains selector = true ↔ ∃ codes, .combining selector codes ∈ ds
  /-- The combining codes of a selector stand in the order of the lines. -/
  codes : ∀ selector codes, t.combining.find? selector = some codes →
    codes = ds.flatMap (Directive.adds selector)

/-! ## The charset that is open -/

/-- The charset that is open behind some directives: the last one that they open. -/
def opened (ds : List Directive) : Option Selector := (ds.filterMap Directive.opens?).getLast?

variable {ds front back : List Directive} {dir : Directive} {selector : Selector} {code : Code}
  {value : Option Char}

theorem opened_append (front back : List Directive) :
    opened (front ++ back) = (opened back).or (opened front) := by
  rw [opened, List.filterMap_append, List.getLast?_append, opened, opened]

theorem mem_filterMap_opens? : selector ∈ ds.filterMap Directive.opens? ↔ .charset selector ∈ ds := by
  rw [List.mem_filterMap]
  constructor
  · rintro ⟨dir, hmem, hopens⟩
    cases dir with
    | charset s =>
      obtain rfl : s = selector := by simpa [Directive.opens?] using hopens
      exact hmem
    | _ => cases hopens
  · exact fun hmem => ⟨_, hmem, rfl⟩

theorem opened_eq_none_iff : opened ds = none ↔ ∀ other, .charset other ∉ ds := by
  rw [opened, List.getLast?_eq_none_iff, List.eq_nil_iff_forall_not_mem]
  simp only [mem_filterMap_opens?]

theorem mem_of_opened (h : opened ds = some selector) : .charset selector ∈ ds :=
  mem_filterMap_opens?.mp (List.mem_of_getLast? h)

/-- The charset that is open was opened somewhere, and none behind it. -/
theorem exists_of_opened (h : opened ds = some selector) :
    ∃ front between, ds = front ++ .charset selector :: between ∧
      ∀ other, .charset other ∉ between := by
  induction ds using List.reverseRecOn with
  | nil => cases h
  | append_singleton ds dir ih =>
    rw [opened_append] at h
    cases hlast : opened [dir] with
    | none =>
      obtain ⟨front, between, rfl, hbetween⟩ := ih (by simpa [hlast] using h)
      refine ⟨front, between ++ [dir], by simp, fun other hmem => ?_⟩
      rcases List.mem_append.mp hmem with hmem | hmem
      · exact hbetween other hmem
      · exact opened_eq_none_iff.mp hlast other hmem
    | some last =>
      obtain rfl : last = selector := by simpa [hlast] using h
      obtain rfl : .charset last = dir := by simpa using mem_of_opened hlast
      exact ⟨ds, [], rfl, by simp⟩

/-! ## One directive more -/

/-- The directive can stand behind the others without contradicting them. -/
def Fits (ds : List Directive) : Directive → Prop
  | .multibyte _ => ∀ n, .multibyte n ∉ ds
  | .charset selector => .charset selector ∉ ds
  | .combining _ _ => True
  | .entry code _ => (∃ selector, .charset selector ∈ ds) ∧
      ∀ front value between, ds = front ++ .entry code value :: between →
        ∃ selector, .charset selector ∈ between

/-- A split of directives in front of the last one, or at it. -/
theorem concat_eq_append_cons {a : Directive} (h : ds ++ [dir] = front ++ a :: back) :
    (back = [] ∧ front = ds ∧ a = dir) ∨ ∃ rest, back = rest ++ [dir] ∧ ds = front ++ a :: rest := by
  rcases List.eq_nil_or_concat' back with rfl | ⟨rest, last, rfl⟩
  · obtain ⟨rfl, hlast⟩ := List.append_inj' h rfl
    exact .inl ⟨rfl, rfl, by simpa using hlast.symm⟩
  · rw [← List.cons_append, ← List.append_assoc] at h
    obtain ⟨rfl, hlast⟩ := List.append_inj' h rfl
    obtain rfl : dir = last := by simpa using hlast
    exact .inr ⟨rest, rfl, rfl⟩

/-- What is in front of consistent directives is consistent, and they fit behind it. -/
theorem consistent_concat_iff : Consistent (ds ++ [dir]) ↔ Consistent ds ∧ Fits ds dir := by
  constructor
  · intro h
    have multibyte := List.pairwise_append.mp h.multibyte
    have charsets := List.pairwise_append.mp h.charsets
    refine ⟨⟨multibyte.1, charsets.1, ?_, ?_⟩, ?_⟩
    · rintro front code value back rfl
      exact h.opened front code value (back ++ [dir]) (by simp)
    · rintro front code value between value' back rfl
      exact h.codes front code value between value' (back ++ [dir]) (by simp)
    · cases dir with
      | multibyte n => exact fun n' hmem => multibyte.2.2 _ hmem _ (by simp) n' n rfl rfl
      | charset selector => exact fun hmem => charsets.2.2 _ hmem _ (by simp) selector rfl rfl
      | combining => trivial
      | entry code value =>
        refine ⟨h.opened ds code value [] rfl, ?_⟩
        rintro front value' between rfl
        exact h.codes front code value' between value [] (by simp)
  · rintro ⟨h, fits⟩
    refine ⟨?_, ?_, ?_, ?_⟩
    · refine List.pairwise_append.mpr ⟨h.multibyte, List.pairwise_singleton .., ?_⟩
      rintro a ha b hb n n' rfl rfl
      obtain rfl : .multibyte n' = dir := by simpa using hb
      exact fits n ha
    · refine List.pairwise_append.mpr ⟨h.charsets, List.pairwise_singleton .., ?_⟩
      rintro a ha b hb selector rfl rfl
      obtain rfl : .charset selector = dir := by simpa using hb
      exact fits ha
    · intro front code value back split
      rcases concat_eq_append_cons split with ⟨-, rfl, rfl⟩ | ⟨rest, -, rfl⟩
      · exact fits.1
      · exact h.opened front code value rest rfl
    · intro front code value between value' back split
      rcases concat_eq_append_cons split with ⟨-, rfl, rfl⟩ | ⟨rest, -, rfl⟩
      · exact fits.2 front value between rfl
      · exact h.codes front code value between value' rest rfl

theorem Consistent.of_append (h : Consistent (front ++ back)) : Consistent front := by
  induction back using List.reverseRecOn with
  | nil => simpa using h
  | append_singleton back dir ih =>
    rw [← List.append_assoc] at h
    exact ih (consistent_concat_iff.mp h).1

/-- One directive more puts an entry under the open charset, if it is an entry. -/
theorem under_concat_iff : Under (ds ++ [dir]) selector code value ↔
    Under ds selector code value ∨ (dir = .entry code value ∧ opened ds = some selector) := by
  constructor
  · rintro ⟨front, between, back, split, hbetween⟩
    rcases concat_eq_append_cons split with ⟨-, rfl, rfl⟩ | ⟨rest, -, rfl⟩
    · refine .inr ⟨rfl, ?_⟩
      rw [opened_append, ← List.singleton_append, opened_append,
        opened_eq_none_iff.mpr hbetween]
      rfl
    · exact .inl ⟨front, between, rest, rfl, hbetween⟩
  · rintro (⟨front, between, back, rfl, hbetween⟩ | ⟨rfl, hopened⟩)
    · exact ⟨front, between, back ++ [dir], by simp, hbetween⟩
    · obtain ⟨front, between, rfl, hbetween⟩ := exists_of_opened hopened
      exact ⟨front, between, [], by simp, hbetween⟩

/-- What stands under a charset stands behind its opening. -/
theorem Under.mem (h : Under ds selector code value) : .charset selector ∈ ds := by
  obtain ⟨front, between, back, rfl, _⟩ := h
  simp

/-- Under the open charset stands what no charset is opened behind. -/
theorem under_opened_iff (h : Consistent ds) (hopened : opened ds = some selector) :
    Under ds selector code value ↔
      ∃ front between, ds = front ++ .entry code value :: between ∧
        ∀ other, .charset other ∉ between := by
  constructor
  · rintro ⟨front, between, back, rfl, hbetween⟩
    refine ⟨front ++ .charset selector :: between, back, rfl, ?_⟩
    -- A charset behind the entry would be the open one, and so be opened twice.
    cases hback : opened back with
    | none => exact opened_eq_none_iff.mp hback
    | some other =>
      rw [opened_append, ← List.singleton_append, opened_append, hback] at hopened
      obtain rfl : other = selector := by simpa using hopened
      have apart := (List.pairwise_append.mp h.charsets).2.2 (.charset other) (by simp)
        (.charset other) (by simp [mem_of_opened hback])
      exact absurd rfl (apart other rfl)
  · rintro ⟨front, between, rfl, hbetween⟩
    have hfront : opened front = some selector := by
      rw [opened_append, ← List.singleton_append, opened_append,
        opened_eq_none_iff.mpr hbetween] at hopened
      simpa [opened, Directive.opens?] using hopened
    obtain ⟨front', between', rfl, hbetween'⟩ := exists_of_opened hfront
    exact ⟨front', between', between, rfl, hbetween'⟩

end Marc8.Listing
