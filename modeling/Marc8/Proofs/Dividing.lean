/-
Marc8.Proofs.Dividing — blocks that divide entries among them.

`Block.Divides` says that blocks are in order, lie one behind the other and
together hold some entries. Then every code has one owner at most, whatever is
asked about it:

  `Divides.lookup_eq` — the first block whose span holds a code says about it
                        what the undivided entries say;
  `Divides.verify_eq` — the verifier looks for the first entry that the blocks
                        do not hold, and reports nothing else.

Cutting a charset leads to such blocks: `Tiling` is what becomes of the entries
in one span, and a tiling divides these (`Tiling.divides`). The tilings of bands
in order do so together (`BandTilings.divides`, in `Marc8.Proofs.Banding`).
-/
import Marc8.Proofs.Tiling
import Mathlib.Data.List.Forall2

namespace Marc8

namespace Block

/-- The blocks divide the entries: each is in order, they lie one behind the other, and together
they hold the entries. -/
structure Divides (blocks : List Block) (entries : List Entry) : Prop where
  sound : ∀ b ∈ blocks, b.Sound
  apart : blocks.Pairwise fun a b => a.span.Before b.span
  whole : blocks.flatMap (·.entries.toList) = entries

variable {blocks : List Block} {entries : List Entry}

/-! ## One owner at most -/

/-- No two blocks share a code. -/
theorem Divides.eq_of_contains (h : Divides blocks entries) {a b : Block} (ha : a ∈ blocks)
    (hb : b ∈ blocks) {code : Code} (hac : a.span.contains code = true)
    (hbc : b.span.contains code = true) : a = b :=
  Span.eq_of_contains h.apart ha hb hac hbc

/-- An entry is one of a block, and its code lies in the span of the block. -/
theorem Divides.exists_owner (h : Divides blocks entries) {e : Entry} (he : e ∈ entries) :
    ∃ b ∈ blocks, e ∈ b.entries ∧ b.span.contains e.1 = true := by
  rw [← h.whole] at he
  obtain ⟨b, hb, heb⟩ := List.mem_flatMap.mp he
  have heb : e ∈ b.entries := Array.mem_toList_iff.mp heb
  exact ⟨b, hb, heb, (h.sound b hb).within e heb⟩

/-- The entries of the block that holds a code are the only ones that can list it. -/
theorem Divides.mem_block_iff (h : Divides blocks entries) {b : Block} (hb : b ∈ blocks)
    {code : Code} (hcode : b.span.contains code = true) {v : Option Char} :
    (code, v) ∈ b.entries ↔ (code, v) ∈ entries := by
  constructor
  · intro hmem
    rw [← h.whole]
    exact List.mem_flatMap.mpr ⟨b, hb, Array.mem_toList_iff.mpr hmem⟩
  · intro hmem
    obtain ⟨owner, howner, hlisted, hcontains⟩ := h.exists_owner hmem
    rwa [h.eq_of_contains hb howner hcode hcontains]

/-! ## Looking up -/

/-- The first block whose span holds a code says about it what the entries say. -/
theorem Divides.lookup_eq {l : Layout} (h : Divides l.blocks entries) {code : Code}
    {value? : Option (Option Char)} (listed : ∀ v, (code, v) ∈ entries ↔ value? = some v) :
    l.lookup code = .ofListed value?.join := by
  unfold Layout.lookup
  split
  · next b hfind =>
    have hb := List.mem_of_find?_eq_some hfind
    have hcode : b.span.contains code = true := by simpa using List.find?_some hfind
    refine searchEntries_eq (h.sound b hb).ascends fun v => ?_
    rw [h.mem_block_iff hb hcode, listed]
  · next hfind =>
    have absent : value? = none := by
      refine Option.eq_none_iff_forall_ne_some.mpr fun v hv => ?_
      obtain ⟨b, hb, _, hcode⟩ := h.exists_owner ((listed v).mpr hv)
      exact absurd hcode (by simpa using List.find?_eq_none.mp hfind b hb)
    rw [absent]
    rfl

/-! ## Verifying -/

/-- A block in order lists a code when one of its entries has it. -/
theorem Sound.lists_iff {b : Block} (h : b.Sound) {code : Code} :
    b.lists code = true ↔ ∃ e ∈ b.entries, e.1 = code :=
  Search.isSome_find?_iff h.ascends

/-- A code that the entries list has one owner, the block that holds it. -/
theorem Divides.owners_eq (h : Divides blocks entries) {e : Entry} (he : e ∈ entries) :
    ∃ b, owners blocks e.1 = [b] ∧ b.span.contains e.1 = true := by
  obtain ⟨b, hb, heb, hcode⟩ := h.exists_owner he
  have holds : ∀ x ∈ owners blocks e.1, x ∈ blocks ∧ x.span.contains e.1 = true := by
    intro x hx
    obtain ⟨hx, hlists⟩ := List.mem_filter.mp hx
    obtain ⟨e', he', hkey⟩ := (h.sound x hx).lists_iff.mp hlists
    exact ⟨hx, hkey ▸ (h.sound x hx).within e' he'⟩
  have apart : (owners blocks e.1).Pairwise fun x y => x.span.Before y.span :=
    h.apart.sublist List.filter_sublist
  have mem : b ∈ owners blocks e.1 :=
    List.mem_filter.mpr ⟨hb, (h.sound b hb).lists_iff.mpr ⟨e, heb, rfl⟩⟩
  match owners blocks e.1, mem, holds, apart with
  | [x], _, holds, _ => exact ⟨x, rfl, (holds x (by simp)).2⟩
  | x :: y :: rest, _, holds, apart =>
    have hxy := (List.pairwise_cons.mp apart).1 y (by simp)
    exact absurd (holds y (by simp)).2 (by simp [hxy.disjoint (holds x (by simp)).2])

/-- A code that no entry has is owned by no block. -/
theorem Divides.owners_eq_nil (h : Divides blocks entries) {code : Code}
    (absent : ∀ e ∈ entries, e.1 ≠ code) : owners blocks code = [] := by
  refine List.filter_eq_nil_iff.mpr fun b hb hlists => ?_
  obtain ⟨e, he, hkey⟩ := (h.sound b hb).lists_iff.mp hlists
  refine absent e ?_ hkey
  rw [← h.whole]
  exact List.mem_flatMap.mpr ⟨b, hb, Array.mem_toList_iff.mpr he⟩

/-- The verifier reports the first entry that the blocks do not hold, as one in no block. -/
theorem Divides.verify_eq {held : List Entry} (h : Divides blocks held) (covered : Code → Bool) :
    ∀ entries : List Entry, (∀ e ∈ entries, covered e.1 = true ↔ ∃ e' ∈ held, e'.1 = e.1) →
      verify blocks entries = match entries.find? fun e => !covered e.1 with
        | some e => .error (.uncovered e.1)
        | none => .ok ()
  | [], _ => rfl
  | e :: rest, hcovered => by
    have head := hcovered e (by simp)
    have back := Divides.verify_eq h covered rest fun x hx => hcovered x (List.mem_cons_of_mem _ hx)
    rw [verify, List.find?_cons]
    cases hc : covered e.1 with
    | true =>
      obtain ⟨e', he', hkey⟩ := head.mp hc
      obtain ⟨b, howners, hcode⟩ := h.owners_eq he'
      rw [hkey] at howners hcode
      simp only [verifyCode, howners, hcode, if_true, Bool.not_true]
      exact back
    | false =>
      have absent : ∀ e' ∈ held, e'.1 ≠ e.1 := fun e' he' hkey => by
        rw [head.mpr ⟨e', he', hkey⟩] at hc
        cases hc
      simp [verifyCode, h.owners_eq_nil absent]

/-! ## The blocks of a span -/

/-- What becomes of the entries in a span: blocks in order that cover it from end to end, as many as
the budget asks for and none over it. -/
structure Tiling (budget : Budget) (s : Span) (entries : List Entry) (blocks : List Block) :
    Prop where
  tiles : Tiles s blocks
  sound : ∀ b ∈ blocks, b.Sound
  whole : blocks.flatMap (·.entries.toList) = entries
  count : blocks.length = budget.blocksFor entries.length
  size_le : ∀ b ∈ blocks, b.entries.size ≤ budget.room

variable {budget : Budget} {s : Span}

/-- Ascending entries that lie in a span are tiled, without fail. -/
theorem exists_tiling (budget : Budget) (le : s.first ≤ s.last) (ascends : Ascends Prod.fst entries)
    (within : ∀ e ∈ entries, s.contains e.1 = true) :
    ∃ blocks, tile budget s.first s.last entries = .ok blocks ∧ Tiling budget s entries blocks := by
  obtain ⟨blocks, hblocks⟩ := exists_tile ascends
  have cut := cut_of_tile hblocks
  exact ⟨blocks, hblocks, cut.tiles, cut.sound le ascends within, cut.entries_eq, cut.length_eq,
    cut.size_le⟩

/-- A tiling divides its entries. -/
theorem Tiling.divides (h : Tiling budget s entries blocks) : Divides blocks entries :=
  ⟨h.sound, h.tiles.apart h.sound, h.whole⟩

/-- The blocks of a tiling lie in its span. -/
theorem Tiling.within (h : Tiling budget s entries blocks) {b : Block} (hb : b ∈ blocks) :
    s.first ≤ b.span.first ∧ b.span.last ≤ s.last := by
  have hle := UInt32.le_iff_toNat_le.mp (h.sound b hb).nonempty
  have inside : ∀ code, b.span.contains code = true → s.contains code = true := fun code hcode =>
    (h.tiles.exists_contains_iff h.sound code).mp ⟨b, hb, hcode⟩
  have first := inside b.span.first (Span.contains_iff.mpr ⟨Nat.le_refl _, hle⟩)
  have last := inside b.span.last (Span.contains_iff.mpr ⟨hle, Nat.le_refl _⟩)
  exact ⟨UInt32.le_iff_toNat_le.mpr (Span.contains_iff.mp first).1,
    UInt32.le_iff_toNat_le.mpr (Span.contains_iff.mp last).2⟩

end Block

end Marc8
