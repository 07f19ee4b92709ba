/-
Marc8.Proofs.Paging — a charset of one or two bytes, tiled over all codes.

Its one band is the full span, so no entry can lie outside, and cutting cannot
fail. `CoversAll` gathers what a reader of the blocks may rely on: their number
is the least that the budget allows, they meet from code zero to the last code
there is, every code lies in one of them, and that one says about the code what
the uncut entries say.

  `Cut.size_of_mem_dropLast`  — all blocks but the last are full;
  `tilePage_covers_all`       — a page with ascending entries is tiled, always.
-/
import Marc8.Proofs.Banding

namespace Marc8

open Block

/-! ## The sizes of blocks -/

namespace Block

variable {budget : Budget} {first last : Code} {entries : List Entry} {blocks : List Block}

/-- A cut has a block at least. -/
theorem Cut.ne_nil (h : Cut budget last first entries blocks) : blocks ≠ [] := by
  cases h <;> simp

/-- All blocks but the last are full. -/
theorem Cut.size_of_mem_dropLast (h : Cut budget last first entries blocks) :
    ∀ b ∈ blocks.dropLast, b.entries.size = budget.room := by
  induction h with
  | whole _ => simp
  | step full _ back ih =>
    intro b hb
    rw [List.dropLast_cons_of_ne_nil back.ne_nil] at hb
    rcases List.mem_cons.mp hb with heq | hb
    · simp [heq, full]
    · exact ih b hb

/-- The last block has an entry, unless there are none. -/
theorem Cut.size_getLast (h : Cut budget last first entries blocks) :
    ∀ b, blocks.getLast? = some b → (b.entries.size = 0 ↔ entries = []) := by
  induction h with
  | whole _ =>
    intro b hb
    obtain rfl := Option.some.inj hb
    simp
  | step _ _ back ih =>
    intro b hb
    rw [List.getLast?_cons_of_ne_nil back.ne_nil] at hb
    simp [ih b hb]

/-- Blocks that lie one behind the other hold a code once at most. -/
theorem Divides.countP_contains (h : Divides blocks entries) {code : Code}
    (held : ∃ b ∈ blocks, b.span.contains code = true) :
    blocks.countP (·.span.contains code) = 1 := by
  obtain ⟨b, hb, hcode⟩ := held
  obtain ⟨front, back, rfl⟩ := List.append_of_mem hb
  obtain ⟨_, back_apart, front_apart⟩ := List.pairwise_append.mp h.apart
  have in_front : front.countP (·.span.contains code) = 0 := List.countP_eq_zero.mpr fun x hx hxc => by
    simp [(front_apart x hx b (by simp)).disjoint hxc] at hcode
  have behind : back.countP (·.span.contains code) = 0 := List.countP_eq_zero.mpr fun x hx => by
    simp [((List.pairwise_cons.mp back_apart).1 x hx).disjoint hcode]
  rw [List.countP_append, List.countP_cons, if_pos hcode, in_front, behind]

end Block

/-! ## All codes -/

/-- What the blocks of a charset cover, when its entries are cut under a budget and no bands are
given. A budget of zero counts as one. -/
structure CoversAll (budget : Budget) (entries : Array Entry) (blocks : List Block) : Prop where
  /-- There are as many blocks as the entries need, and one if there are no entries. -/
  count : blocks.length =
    max 1 ((entries.size + max budget.maxEntries 1 - 1) / max budget.maxEntries 1)
  /-- The first block begins with code zero, the last ends with the last code there is, and each
  begins right behind the one before it. -/
  tiles : Tiles ⟨0, 0xFFFFFFFF⟩ blocks
  /-- Every code lies in one block and no other. -/
  owner : ∀ code : Code, blocks.countP (·.span.contains code) = 1
  /-- All blocks but the last are full. -/
  full : ∀ b ∈ blocks.dropLast, b.entries.size = max budget.maxEntries 1
  /-- The last block holds what is left: some entries, unless there are none at all. -/
  rest : ∀ b, blocks.getLast? = some b →
    b.entries.size ≤ max budget.maxEntries 1 ∧ (b.entries.size = 0 ↔ entries.size = 0)
  /-- Put together, the blocks hold the entries in their order, each once. -/
  whole : blocks.flatMap (·.entries.toList) = entries.toList
  /-- The block that holds a code says about it what the uncut entries say. -/
  lookup : ∀ b ∈ blocks, ∀ code, b.span.contains code = true →
    b.lookup code = searchEntries entries code

/-- A page with ascending entries, or with none, is tiled under every budget, and its blocks cover
all codes. No block would have to end below code zero: that would be a failure. -/
theorem tilePage_covers_all {entries : Array Entry} (ascends : Ascends Prod.fst entries.toList)
    (budget : Budget) :
    ∃ blocks, (tilePage entries budget).outcome = .ok blocks ∧ CoversAll budget entries blocks ∧
      ∀ code, (Layout.page blocks).lookup code = searchEntries entries code := by
  obtain ⟨blocks, houtcome, tiling, cut⟩ := outcome_tilePage budget ascends
  have divides := tiling.divides
  have held : ∀ code, ∃ b ∈ blocks, b.span.contains code = true := fun code =>
    (tiling.tiles.exists_contains_iff tiling.sound code).mpr (Span.contains_full code)
  have lookup : ∀ b ∈ blocks, ∀ code, b.span.contains code = true →
      b.lookup code = searchEntries entries code := by
    intro b hb code hcode
    refine searchEntries_congr (tiling.sound b hb).ascends ascends fun v => ?_
    rw [divides.mem_block_iff hb hcode, Array.mem_toList_iff]
  refine ⟨blocks, houtcome,
    ⟨?_, tiling.tiles, ?_, cut.size_of_mem_dropLast, ?_, tiling.whole, lookup⟩, ?_⟩
  · rw [tiling.count, Array.length_toList]
    rfl
  · exact fun code => divides.countP_contains (held code)
  · intro b hb
    refine ⟨tiling.size_le b (List.mem_of_getLast? hb), ?_⟩
    rw [cut.size_getLast b hb, Array.toList_eq_nil_iff, Array.size_eq_zero_iff]
  · intro code
    obtain ⟨b, hb, hcode⟩ := held code
    unfold Layout.lookup
    cases hfind : (Layout.page blocks).blocks.find? (·.span.contains code) with
    | some owner =>
      exact lookup owner (List.mem_of_find?_eq_some hfind) code (by simpa using List.find?_some hfind)
    | none => exact absurd hcode (by simpa using List.find?_eq_none.mp hfind b hb)

/-- Four entries under a budget of two, with the first and the last code there is: two blocks, and a
code between two entries is in the first of them. -/
theorem tilePage_covers_all_four_entries :
    let entries : Array Entry :=
      #[(0, none), (5, some 'a'), (9, some 'b'), (0xFFFFFFFF, some 'c')]
    let blocks : List Block :=
      [⟨⟨0, 8⟩, #[(0, none), (5, some 'a')]⟩,
        ⟨⟨9, 0xFFFFFFFF⟩, #[(9, some 'b'), (0xFFFFFFFF, some 'c')]⟩]
    Ascends Prod.fst entries.toList ∧ (tilePage entries ⟨2⟩).outcome = .ok blocks ∧
      CoversAll ⟨2⟩ entries blocks ∧ (Layout.page blocks).lookup 8 = .unmapped := by
  intro entries blocks
  have ascends : Ascends Prod.fst entries.toList := by simp only [Ascends]; decide
  have houtcome : (tilePage entries ⟨2⟩).outcome = .ok blocks := by cbv
  obtain ⟨blocks', houtcome', covers, lookup⟩ := tilePage_covers_all ascends ⟨2⟩
  obtain rfl : blocks = blocks' := by simpa [houtcome] using houtcome'
  refine ⟨ascends, houtcome, covers, ?_⟩
  rw [lookup]
  cbv

end Marc8
