/-
Marc8.Proofs.Coverage — what the blocks of the multi-byte charset cover.

`Covers` gathers what a reader of the blocks may rely on: no entry is lost,
added or moved; the spans of the blocks follow each other and hold exactly the
codes of the bands; every band has as many blocks as its entries need under the
budget, and they cover it from end to end.

  `partition_covers` — whenever the charset can be cut, its blocks cover the
                       bands in this way.
-/
import Marc8.Proofs.Banding

namespace Marc8

open Block

/-- What the blocks of a charset cover, when it is cut by bands under a budget. -/
structure Covers (budget : Budget) (bands : List Span) (entries : List Entry)
    (blocks : List Block) : Prop where
  /-- Put together, the blocks hold the entries in their order, each once. -/
  whole : blocks.flatMap (·.entries.toList) = entries
  /-- No block has an empty span, or an entry outside of it. -/
  within : ∀ b ∈ blocks,
    b.span.first ≤ b.span.last ∧ ∀ e ∈ b.entries, b.span.contains e.1 = true
  /-- Each block ends before those behind it begin. -/
  apart : blocks.Pairwise fun a b => a.span.last < b.span.first
  /-- The blocks hold the codes of the bands and no others. -/
  union : ∀ code : Code, (∃ b ∈ blocks, b.span.contains code = true) ↔
    ∃ s ∈ bands, s.contains code = true
  /-- The blocks of a band stand together. There are as many as its entries need, and they cover
  the band from end to end. -/
  byBand : ∃ groups : List (List Block), blocks = groups.flatten ∧
    List.Forall₂ (fun band group => Tiles band group ∧
      group.length = budget.blocksFor (entries.filter fun e => band.contains e.1).length)
      bands groups
  /-- No block is over the budget; a budget of zero counts as one. -/
  size_le : ∀ b ∈ blocks, b.entries.size ≤ max budget.maxEntries 1

variable {entries : List Entry} {bands : List Span} {budget : Budget} {groups : List (List Block)}

/-- The blocks of bands hold the codes of the bands and no others. -/
theorem BandTilings.exists_contains_iff (h : BandTilings budget entries bands groups)
    (code : Code) : (∃ b ∈ groups.flatten, b.span.contains code = true) ↔
      ∃ s ∈ bands, s.contains code = true := by
  induction h with
  | nil => simp
  | @cons band group rest groups tiling _ ih =>
    rw [List.exists_mem_cons_iff, ← tiling.tiles.exists_contains_iff tiling.sound code, ← ih]
    simp only [List.flatten_cons, List.mem_append, or_and_right, exists_or]

/-- Tilings keep to the budget. -/
theorem BandTilings.size_le (h : BandTilings budget entries bands groups) :
    ∀ b ∈ groups.flatten, b.entries.size ≤ budget.room := by
  induction h with
  | nil => simp
  | cons tiling _ ih =>
    intro b hb
    rw [List.flatten_cons, List.mem_append] at hb
    exact hb.elim (tiling.size_le b) (ih b)

/-- Bands in order that take all of some ascending entries are covered by their blocks. -/
theorem BandTilings.covers (h : BandTilings budget entries bands groups) (order : InOrder bands)
    (ascends : Ascends Prod.fst entries) (all : ∀ e ∈ entries, inSome bands e.1 = true) :
    Covers budget bands entries groups.flatten := by
  obtain ⟨sound, apart, whole⟩ := h.divides order ascends
  rw [List.filter_eq_self.mpr all] at whole
  refine ⟨whole, fun b hb => ⟨(sound b hb).nonempty, (sound b hb).within⟩, apart,
    h.exists_contains_iff, ⟨groups, rfl, ?_⟩, h.size_le⟩
  exact h.imp fun band group tiling => ⟨tiling.tiles, tiling.count⟩

/-- Whenever a charset with ascending entries is cut, its blocks cover the bands; and one without
entries has no blocks, as long as the bands are in order. -/
theorem partition_covers {entries : Array Entry} {bands : List Span} {budget : Budget}
    (ascends : Ascends Prod.fst entries.toList) :
    (∀ blocks, entries ≠ #[] → (partition entries bands budget).outcome = .ok blocks →
      Covers budget bands entries.toList blocks) ∧
    (entries = #[] → (∀ s ∈ bands, s.first ≤ s.last) →
      (bands.Pairwise fun s t => s.last < t.first) →
      (partition entries bands budget).outcome = .ok []) := by
  constructor
  · intro blocks hne hpart
    have order : InOrder bands := by
      cases hcheck : checkBands bands with
      | ok _ => exact checkBands_eq_ok_iff.mp hcheck
      | error failure =>
        rw [outcome_partition_of_refused (checkBands_eq_error_iff.mp hcheck)] at hpart
        cases hpart
    obtain ⟨groups, tilings, houtcome⟩ := outcome_partition budget ascends order
      (by simpa [Array.isEmpty_iff] using hne)
    rw [hpart] at houtcome
    cases hfind : entries.toList.find? fun e => !inSome bands e.1 with
    | some e =>
      rw [hfind] at houtcome
      cases houtcome
    | none =>
      rw [hfind] at houtcome
      obtain rfl : blocks = groups.flatten := by simpa using houtcome
      refine tilings.covers order ascends fun e he => ?_
      simpa using List.find?_eq_none.mp hfind e he
  · rintro rfl nonempty before
    exact outcome_partition_empty ⟨nonempty, before⟩

/-- A band of four codes under a budget of two, and behind it one of a single code. -/
theorem partition_covers_two_bands :
    let entries : Array Entry :=
      #[(0x213021, some 'a'), (0x213022, none), (0x213023, some 'b'), (0x213024, some 'c'),
        (0x215000, some 'd')]
    let bands : List Span := [⟨0x210000, 0x214FFF⟩, ⟨0x215000, 0x21FFFF⟩]
    let blocks : List Block :=
      [⟨⟨0x210000, 0x213022⟩, #[(0x213021, some 'a'), (0x213022, none)]⟩,
        ⟨⟨0x213023, 0x214FFF⟩, #[(0x213023, some 'b'), (0x213024, some 'c')]⟩,
        ⟨⟨0x215000, 0x21FFFF⟩, #[(0x215000, some 'd')]⟩]
    Covers ⟨2⟩ bands entries.toList blocks ∧
      (partition #[] bands ⟨2⟩).outcome = .ok [] := by
  refine ⟨(partition_covers ?_).1 _ ?_ ?_, (partition_covers ?_).2 rfl ?_ ?_⟩
  · simp only [Ascends]; decide
  · simp
  · decide +kernel
  · simp [Ascends]
  · decide
  · decide

end Marc8
