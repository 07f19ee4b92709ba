/-
Marc8.Proofs.Listing.Checking — checking a listing without reading it.

The reader fills maps, and a map that has been filled by evaluation is a large
thing. Whether a listing can be read is told by its facts alone, so here they
are laid out and checked: `Fact.slot?` gives a number to what a fact settles,
and facts with different numbers do not clash. Sorted by insertion the numbers
of an orderly listing are checked in a few steps each.

  `WellFormed.of_checked` — directives that pass the check are well-formed;
  `exists_read_of_checked` — a text whose lines say such directives is read;
  `Bundled.read_listing`  — the listing that comes with the program is.
-/
import Marc8.Bundled
import Marc8.Proofs.Listing.Acceptance
import Marc8.Proofs.Listing.Facts
import Marc8.Proofs.Lists
import Mathlib.Algebra.Group.Nat.Defs
import Mathlib.Data.List.Sort

namespace Marc8

namespace Listing

open Text

/-! ## What fields say, by evaluation -/

/-- The directive that a statement means, if its fields are numbers. -/
def Statement.directive? : Statement → Option Directive
  | .multibyte field => (number field).toOption.map .multibyte
  | .charset field => (number field).toOption.map .charset
  | .combining field codes =>
    (number field).toOption.bind fun n => (numbers codes).toOption.map (.combining n)
  | .entry code value =>
    (number code).toOption.bind fun n => (target value).toOption.map (.entry n)

/-- The directive that some fields say, if they say one. -/
def Directive.ofFields? (words : List Field) : Option Directive :=
  match Statement.ofFields words with
  | .ok (some statement) => statement.directive?
  | _ => none

theorem toOption_eq_some_iff {α ε : Type} {x : Except ε α} {a : α} :
    x.toOption = some a ↔ x = .ok a := by
  cases x <;> simp [Except.toOption]

theorem means_of_directive? {statement : Statement} {dir : Directive}
    (h : statement.directive? = some dir) : Means statement dir := by
  cases statement with
  | multibyte field =>
    obtain ⟨n, hn, rfl⟩ := Option.map_eq_some_iff.mp h
    exact .multibyte (toOption_eq_some_iff.mp hn)
  | charset field =>
    obtain ⟨n, hn, rfl⟩ := Option.map_eq_some_iff.mp h
    exact .charset (toOption_eq_some_iff.mp hn)
  | combining field codes =>
    obtain ⟨n, hn, hcodes⟩ := Option.bind_eq_some_iff.mp h
    obtain ⟨ns, hns, rfl⟩ := Option.map_eq_some_iff.mp hcodes
    exact .combining (toOption_eq_some_iff.mp hn) (toOption_eq_some_iff.mp hns)
  | entry code value =>
    obtain ⟨n, hn, hvalue⟩ := Option.bind_eq_some_iff.mp h
    obtain ⟨v, hv, rfl⟩ := Option.map_eq_some_iff.mp hvalue
    exact .entry (toOption_eq_some_iff.mp hn) (toOption_eq_some_iff.mp hv)

theorem says_of_ofFields? {words : List Field} {dir : Directive}
    (h : Directive.ofFields? words = some dir) : Says words dir := by
  unfold Directive.ofFields? at h
  split at h
  · next statement hstatement => exact says_iff_means.mpr ⟨statement, hstatement, means_of_directive? h⟩
  · cases h

/-! ## Facts that go together, by evaluation -/

/-- A number for what a fact settles, if it settles something that no other fact may. -/
def Fact.slot? : Fact → Option Nat
  | .multibyte _ => some 0
  | .charset selector => some (2 * selector.toNat + 1)
  | .entry owner code _ => some (2 * ((owner.elim 0 (·.toNat + 1)) * 2 ^ 32 + code.toNat + 1))
  | .combining _ => none
  | .combines _ _ => none

/-- Has the fact an owner, if it needs one? -/
def Fact.owned : Fact → Bool
  | .entry none _ _ => false
  | _ => true

/-- Does the directive name the multi-byte charset? -/
def Directive.names : Directive → Bool
  | .multibyte _ => true
  | _ => false

variable {ds : List Directive} {fs : List Fact}

/-- Facts that clash settle the same. -/
theorem Clash.slot? {f g : Fact} (h : Clash f g) : ∃ n, f.slot? = some n ∧ g.slot? = some n := by
  cases f <;> cases g <;> simp_all [Clash, Fact.clashes, Fact.slot?]

/-- Every fact has an owner that needs one, and no two settle the same: sorted, their numbers
ascend. -/
structure Checked (ds : List Directive) : Prop where
  ascends : (((facts none ds).filterMap Fact.slot?).insertionSort (· ≤ ·)).IsChain (· < ·)
  owned : (facts none ds).all Fact.owned = true
  named : ds.any Directive.names = true

instance : DecidablePred Checked := fun _ =>
  decidable_of_iff (_ ∧ _ ∧ _) ⟨fun h => ⟨h.1, h.2.1, h.2.2⟩, fun h => ⟨h.1, h.2, h.3⟩⟩

/-- Facts of which no two settle the same do not clash. -/
theorem tenable_of_slots (distinct : (fs.filterMap Fact.slot?).Nodup)
    (owned : fs.all Fact.owned = true) : Tenable fs := by
  constructor
  · refine (List.pairwise_filterMap.mp distinct).imp fun apart clash => ?_
    obtain ⟨n, hf, hg⟩ := clash.slot?
    exact apart n hf n hg rfl
  · intro code value hmem
    exact absurd (List.all_eq_true.mp owned _ hmem) (by simp [Fact.owned])

/-- Directives that pass the check are well-formed. -/
theorem WellFormed.of_checked (h : Checked ds) : WellFormed ds := by
  have sorted := List.isChain_iff_pairwise.mp h.ascends
  have distinct : ((facts none ds).filterMap Fact.slot?).Nodup :=
    (List.perm_insertionSort _ _).nodup_iff.mp (sorted.imp fun hlt => Nat.ne_of_lt hlt)
  obtain ⟨dir, hmem, names⟩ := List.any_eq_true.mp h.named
  refine ⟨consistent_iff_facts.mpr (tenable_of_slots distinct h.owned), ?_⟩
  cases dir with
  | multibyte n => exact ⟨n, hmem⟩
  | _ => cases names

/-- A text is read if the directives of its lines pass the check. -/
theorem exists_read_of_checked {text : String}
    (h : ∃ ds ∈ (said (lines text.toList)).mapM Directive.ofFields?, Checked ds) :
    ∃ t, read text = .ok t := by
  obtain ⟨ds, hds, checked⟩ := h
  have spelled : Spelled text ds :=
    (mapM_eq_some_iff.mp hds).imp fun _ _ h => says_of_ofFields? h
  obtain ⟨t, hread, _⟩ := exists_read_of_spelled spelled (.of_checked checked)
  exact ⟨t, hread⟩

end Listing

/-! ## The bundled listing -/

namespace Bundled

open Listing Text

/-- The characters of the bundled lines say directives that pass the check. -/
theorem exists_characters : ∃ css, List.Forall₂ (fun line cs => line = String.ofList cs) lines css ∧
    ∃ ds ∈ (said (css.flatMap fun cs => Text.lines (cs ++ ['\n']))).mapM Directive.ofFields?,
      Checked ds := by
  apply Exists.intro
  constructor
  · -- A literal is unfolded to its characters once, and these are evaluated, not the literal.
    unfold lines
    repeat
      apply List.Forall₂.cons
      · first | rfl | exact (String.ofList_append ..).symm
    exact .nil
  · decide +kernel

/-- The listing that comes with the program is read, so the bundled table is what it says. -/
theorem read_listing : Listing.read listing = .ok table := by
  obtain ⟨css, characters, checked⟩ := exists_characters
  have hlines : Text.lines listing.toList = css.flatMap fun cs => Text.lines (cs ++ ['\n']) := by
    have hliterals : lines = css.map String.ofList := by
      rwa [← List.forall₂_eq_eq_eq, List.forall₂_map_right_iff]
    rw [listing, lines_ofLines, hliterals, List.flatMap_map]
    simp only [String.toList_ofList]
  rw [← hlines] at checked
  obtain ⟨t, hread⟩ := exists_read_of_checked checked
  rw [table, tableOf, hread]

end Bundled

end Marc8
