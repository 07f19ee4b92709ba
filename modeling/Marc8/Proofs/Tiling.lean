/-
Marc8.Proofs.Tiling — how a span is tiled with blocks.

`Block.Cut` says what a successful `Block.tile` has done, one constructor for
each branch, and everything about the blocks is read off it by induction:

  `Cut.entries_eq` — the blocks hold the entries, in order;
  `Cut.length_eq`  — there are as many blocks as the budget asks for;
  `Cut.tiles`      — the blocks cover the span from end to end;
  `Cut.sound`      — each block is in order: its span holds a code, and its
                     entries lie in it by ascending code.

None of them but the last asks anything of the entries. Tiling does not fail on
entries that do not descend, unless code zero stands in two chunks
(`Straddles`, `exists_tile_of_le`); so it does not fail on ascending ones, and
the blocks it makes of these lie apart (`Tiles.apart`).
-/
import Marc8.Proofs.Ascending
import Mathlib.Data.List.Chain

namespace Marc8

/-! ## Spans that follow each other -/

/-- The first span ends before the second begins. -/
def Span.Before (s t : Span) : Prop := s.last < t.first

instance : DecidableRel Span.Before := fun s t => inferInstanceAs (Decidable (s.last < t.first))

/-- Neighbours that follow each other do so at any distance, as long as none of them is empty. -/
theorem Span.pairwise_before {α : Type} {span : α → Span} : ∀ {xs : List α},
    (∀ x ∈ xs, (span x).first ≤ (span x).last) →
    xs.IsChain (fun a b => (span a).Before (span b)) →
    xs.Pairwise fun a b => (span a).Before (span b)
  | [], _, _ => List.Pairwise.nil
  | [x], _, _ => List.pairwise_singleton ..
  | x :: y :: rest, nonempty, chain => by
    obtain ⟨hxy, chain⟩ := List.isChain_cons_cons.mp chain
    have back := pairwise_before (fun z hz => nonempty z (List.mem_cons_of_mem _ hz)) chain
    refine List.pairwise_cons.mpr ⟨fun z hz => ?_, back⟩
    rcases List.mem_cons.mp hz with rfl | hz
    · exact hxy
    · have hy : (span y).first ≤ (span y).last := nonempty y (by simp)
      have hyz : (span y).Before (span z) := (List.pairwise_cons.mp back).1 z hz
      exact UInt32.lt_of_lt_of_le hxy (UInt32.le_trans hy (UInt32.le_of_lt hyz))

/-- Spans of which one ends before the other begins share no code. -/
theorem Span.Before.disjoint {s t : Span} (h : s.Before t) {code : Code}
    (hs : s.contains code = true) : t.contains code = false := by
  rw [← Bool.not_eq_true]
  intro ht
  have hlt := UInt32.lt_iff_toNat_lt.mp h
  rw [Span.contains_iff] at hs ht
  omega

/-- Of spans that lie one behind the other, one at most holds a code. -/
theorem Span.eq_of_contains {α : Type} {span : α → Span} {xs : List α}
    (apart : xs.Pairwise fun a b => (span a).Before (span b)) {a b : α} (ha : a ∈ xs) (hb : b ∈ xs)
    {code : Code} (hac : (span a).contains code = true) (hbc : (span b).contains code = true) :
    a = b := by
  have unique : xs.Pairwise fun x y =>
      ∀ code, (span x).contains code = true → (span y).contains code = true → x = y :=
    apart.imp fun hbefore code hx hy => absurd hy (by simp [hbefore.disjoint hx])
  exact unique.forall_of_forall_of_flip (fun _ _ _ _ _ => rfl)
    (unique.imp fun hxy code hy hx => (hxy code hx hy).symm) ha hb code hac hbc

/-! ## The number of blocks -/

/-- The number of blocks that some entries take: full ones and a rest, one block at least. -/
def Budget.blocksFor (b : Budget) (entries : Nat) : Nat :=
  max 1 ((entries + b.room - 1) / b.room)

theorem Budget.blocksFor_of_le {b : Budget} {n : Nat} (h : n ≤ b.room) : b.blocksFor n = 1 := by
  have hpos := b.room_pos
  have hle : (n + b.room - 1) / b.room < 2 := Nat.div_lt_of_lt_mul (by omega)
  unfold blocksFor
  omega

/-- Entries that do not fit one block take several, the last of which may have room left. -/
theorem Budget.blocksFor_of_lt {b : Budget} {n : Nat} (h : b.room < n) :
    1 < b.blocksFor n ∧ b.blocksFor n = (n + b.room - 1) / b.room := by
  have hpos := b.room_pos
  have htwo : 2 ≤ (n + b.room - 1) / b.room := (Nat.le_div_iff_mul_le hpos).mpr (by omega)
  unfold blocksFor
  omega

theorem Budget.blocksFor_room_add {b : Budget} {n : Nat} (h : 0 < n) :
    b.blocksFor (b.room + n) = b.blocksFor n + 1 := by
  have hpos := b.room_pos
  have hone : 1 ≤ (n + b.room - 1) / b.room :=
    (Nat.one_le_div_iff hpos).mpr (by omega)
  have hstep : (b.room + n + b.room - 1) / b.room = (n + b.room - 1) / b.room + 1 := by
    rw [show b.room + n + b.room - 1 = (n + b.room - 1) + b.room by omega,
      Nat.add_div_right _ hpos]
  unfold blocksFor
  omega

/-! ## Chunks -/

/-- When some entries are cut into chunks of a given size, the code has entries in two of them. -/
def Straddles (room : Nat) (entries : List Entry) (code : Code) : Prop :=
  ∃ i j, (entries[i]?.map Prod.fst = some code ∧ entries[j]?.map Prod.fst = some code) ∧
    i / room ≠ j / room

section Chunks

variable {room : Nat} {front back entries : List Entry} {code : Code}

theorem exists_getElem?_iff :
    (∃ i : Nat, entries[i]?.map Prod.fst = some code) ↔ ∃ e ∈ entries, e.1 = code := by
  constructor
  · intro ⟨i, h⟩
    obtain ⟨e, he, hcode⟩ := Option.map_eq_some_iff.mp h
    exact ⟨e, List.mem_of_getElem? he, hcode⟩
  · intro ⟨e, he, hcode⟩
    obtain ⟨i, hi⟩ := List.getElem?_of_mem he
    exact ⟨i, by simp [hi, hcode]⟩

/-- A code that stands in two chunks is listed. -/
theorem Straddles.exists_mem (h : Straddles room entries code) : ∃ e ∈ entries, e.1 = code := by
  obtain ⟨i, _, ⟨hi, _⟩, _⟩ := h
  exact exists_getElem?_iff.mp ⟨i, hi⟩

/-- Entries that fit one chunk are not cut. -/
theorem not_straddles_of_length_le (fits : entries.length ≤ room) :
    ¬ Straddles room entries code := by
  intro ⟨i, j, ⟨hi, hj⟩, apart⟩
  have lt : ∀ {k : Nat}, entries[k]?.map Prod.fst = some code → k / room = 0 := by
    intro k hk
    obtain ⟨e, he, _⟩ := Option.map_eq_some_iff.mp hk
    obtain ⟨hlt, _⟩ := List.getElem?_eq_some_iff.mp he
    exact Nat.div_eq_of_lt (by omega)
  exact apart ((lt hi).trans (lt hj).symm)

/-- Behind a full chunk, a code stands in two chunks when it stands in the first one and behind it,
or in two of those behind it. -/
theorem straddles_append (full : front.length = room) (positive : 0 < room) :
    Straddles room (front ++ back) code ↔
      ((∃ e ∈ front, e.1 = code) ∧ ∃ e ∈ back, e.1 = code) ∨ Straddles room back code := by
  have shift : ∀ k, (room + k) / room = k / room + 1 := fun k => by
    rw [Nat.add_comm, Nat.add_div_right _ positive]
  have behind : ∀ k, (front ++ back)[room + k]? = back[k]? := fun k => by
    rw [List.getElem?_append_right (by omega), full, Nat.add_sub_cancel_left]
  have inFront : ∀ {k}, k < room → (front ++ back)[k]? = front[k]? := fun hk =>
    List.getElem?_append_left (by omega)
  constructor
  · intro ⟨i, j, ⟨hi, hj⟩, apart⟩
    rw [← exists_getElem?_iff, ← exists_getElem?_iff]
    rcases Nat.lt_or_ge i room with hilt | hige <;> rcases Nat.lt_or_ge j room with hjlt | hjge
    · rw [Nat.div_eq_of_lt hilt, Nat.div_eq_of_lt hjlt] at apart
      exact absurd rfl apart
    · obtain ⟨j, rfl⟩ := Nat.exists_eq_add_of_le hjge
      exact .inl ⟨⟨i, by rwa [inFront hilt] at hi⟩, j, by rwa [behind] at hj⟩
    · obtain ⟨i, rfl⟩ := Nat.exists_eq_add_of_le hige
      exact .inl ⟨⟨j, by rwa [inFront hjlt] at hj⟩, i, by rwa [behind] at hi⟩
    · obtain ⟨i, rfl⟩ := Nat.exists_eq_add_of_le hige
      obtain ⟨j, rfl⟩ := Nat.exists_eq_add_of_le hjge
      rw [behind] at hi hj
      rw [shift, shift] at apart
      exact .inr ⟨i, j, ⟨hi, hj⟩, fun h => apart (by rw [h])⟩
  · intro h
    rcases h with ⟨hfront, hback⟩ | ⟨i, j, ⟨hi, hj⟩, apart⟩
    · obtain ⟨i, hi⟩ := exists_getElem?_iff.mpr hfront
      obtain ⟨j, hj⟩ := exists_getElem?_iff.mpr hback
      obtain ⟨e, he, _⟩ := Option.map_eq_some_iff.mp hi
      obtain ⟨hlt, _⟩ := List.getElem?_eq_some_iff.mp he
      have hlt : i < room := by omega
      refine ⟨i, room + j, ⟨by rw [inFront hlt, hi], by rw [behind, hj]⟩, ?_⟩
      rw [Nat.div_eq_of_lt hlt, shift]
      exact (Nat.succ_ne_zero _).symm
    · refine ⟨room + i, room + j, ⟨by rw [behind, hi], by rw [behind, hj]⟩, ?_⟩
      rw [shift, shift]
      exact fun h => apart (Nat.succ.inj h)

/-- With ascending codes no code stands in two places. -/
theorem not_straddles_of_ascends (h : Ascends Prod.fst entries) (code : Code) :
    ¬ Straddles room entries code := by
  intro ⟨i, j, ⟨hi, hj⟩, apart⟩
  obtain ⟨a, ha, hacode⟩ := Option.map_eq_some_iff.mp hi
  obtain ⟨b, hb, hbcode⟩ := Option.map_eq_some_iff.mp hj
  obtain ⟨hia, rfl⟩ := List.getElem?_eq_some_iff.mp ha
  obtain ⟨hjb, rfl⟩ := List.getElem?_eq_some_iff.mp hb
  have key := hacode.trans hbcode.symm
  rcases Nat.lt_trichotomy i j with hlt | heq | hgt
  · exact Std.ne_of_lt (List.pairwise_iff_getElem.mp h i j hia hjb hlt) key
  · exact apart (by rw [heq])
  · exact Std.ne_of_lt (List.pairwise_iff_getElem.mp h j i hjb hia hgt) key.symm

end Chunks

namespace Block

/-! ## What a tiling has done -/

/-- The blocks that tiling makes from a code up to `last`, branch by branch. -/
inductive Cut (budget : Budget) (last : Code) : Code → List Entry → List Block → Prop
  /-- Entries that one block takes are not cut. -/
  | whole {first entries} (fits : entries.length ≤ budget.room) :
      Cut budget last first entries [⟨⟨first, last⟩, entries.toArray⟩]
  /-- A full block ends just below the code of the entry that follows it. -/
  | step {first front next rest more} (full : front.length = budget.room) (positive : next.1 ≠ 0)
      (back : Cut budget last next.1 (next :: rest) more) :
      Cut budget last first (front ++ next :: rest)
        (⟨⟨first, next.1 - 1⟩, front.toArray⟩ :: more)

variable {budget : Budget} {first last : Code} {entries : List Entry} {blocks : List Block}

/-- A list longer than the budget is a full block and what follows it. -/
theorem split_of_drop {next : Entry} {rest : List Entry}
    (h : entries.drop budget.room = next :: rest) :
    entries = entries.take budget.room ++ next :: rest ∧
      (entries.take budget.room).length = budget.room := by
  constructor
  · rw [← h, List.take_append_drop]
  · have hlen := congrArg List.length h
    simp only [List.length_drop, List.length_cons] at hlen
    rw [List.length_take]
    omega

/-- Tiling that succeeds has cut. -/
theorem cut_of_tile (h : tile budget first last entries = .ok blocks) :
    Cut budget last first entries blocks := by
  fun_induction tile budget first last entries generalizing blocks with
  | case1 first entries hdrop =>
    obtain rfl : _ = blocks := by simpa using h
    exact .whole (List.drop_eq_nil_iff.mp hdrop)
  | case2 => cases h
  | case3 => cases h
  | case4 first entries next rest hdrop hne more hmore ih =>
    obtain rfl : _ = blocks := by simpa using h
    obtain ⟨hsplit, hlen⟩ := split_of_drop hdrop
    have cut : Cut budget last first _ _ := Cut.step hlen hne (ih hmore)
    rwa [← hsplit] at cut

/-- Entries that do not descend are tiled without fail, unless code zero stands in two chunks. -/
theorem exists_tile_of_le (order : entries.Pairwise fun a b => a.1 ≤ b.1)
    (zero : ¬ Straddles budget.room entries 0) :
    ∃ blocks, tile budget first last entries = .ok blocks := by
  fun_induction tile budget first last entries with
  | case1 => exact ⟨_, rfl⟩
  | case2 first entries next rest hdrop hzero =>
    obtain ⟨hsplit, hlen⟩ := split_of_drop hdrop
    have hpos := budget.room_pos
    obtain ⟨e, front, hfront⟩ := List.exists_cons_of_length_pos (l := entries.take budget.room)
      (by omega)
    -- Nothing lies below code zero, so the chunk in front holds it too.
    rw [hsplit, List.pairwise_append] at order
    have hle := UInt32.le_iff_toNat_le.mp (order.2.2 e (by simp [hfront]) next (by simp))
    have he : e.1 = 0 := UInt32.toNat_inj.mp (by simpa [hzero] using hle)
    rw [hsplit, straddles_append hlen hpos] at zero
    exact absurd (.inl ⟨⟨e, by simp [hfront], he⟩, next, by simp, hzero⟩) zero
  | case3 first entries next rest hdrop hne failure hfail ih =>
    obtain ⟨hsplit, hlen⟩ := split_of_drop hdrop
    rw [hsplit, straddles_append hlen budget.room_pos] at zero
    rw [hsplit, List.pairwise_append] at order
    obtain ⟨blocks, hblocks⟩ := ih order.2.1 fun h => zero (.inr h)
    rw [hblocks] at hfail
    cases hfail
  | case4 => exact ⟨_, rfl⟩

/-- Ascending entries are tiled without fail: no code stands in two places. -/
theorem exists_tile (h : Ascends Prod.fst entries) :
    ∃ blocks, tile budget first last entries = .ok blocks :=
  exists_tile_of_le h.le (not_straddles_of_ascends h 0)

/-! ## What holds of every cut -/

/-- The blocks hold the entries, none lost and none added, in order. -/
theorem Cut.entries_eq (h : Cut budget last first entries blocks) :
    blocks.flatMap (·.entries.toList) = entries := by
  induction h with
  | whole _ => simp
  | step _ _ _ ih => simp [ih]

/-- There are as many blocks as the budget asks for. -/
theorem Cut.length_eq (h : Cut budget last first entries blocks) :
    blocks.length = budget.blocksFor entries.length := by
  induction h with
  | whole fits => rw [Budget.blocksFor_of_le fits]; rfl
  | step full _ _ ih =>
    rw [List.length_cons, ih, List.length_append, full, Budget.blocksFor_room_add (by simp)]

/-- No block is over the budget. -/
theorem Cut.size_le (h : Cut budget last first entries blocks) :
    ∀ b ∈ blocks, b.entries.size ≤ budget.room := by
  induction h with
  | whole fits => simpa using fits
  | step full _ _ ih =>
    intro b hb
    rcases List.mem_cons.mp hb with rfl | hb
    · simp [full]
    · exact ih b hb

/-! ## Blocks from end to end -/

/-- The blocks cover a span from end to end: the first begins where it begins, the last ends where
it ends, and each begins right behind the one before it. -/
structure Tiles (s : Span) (blocks : List Block) : Prop where
  first : blocks.head?.map (·.span.first) = some s.first
  last : blocks.getLast?.map (·.span.last) = some s.last
  meet : blocks.IsChain fun a b => a.span.last.toNat + 1 = b.span.first.toNat

theorem toNat_sub_one_add_one {code : Code} (h : code ≠ 0) : (code - 1).toNat + 1 = code.toNat := by
  have hpos : 0 < code.toNat := Nat.pos_of_ne_zero fun hzero => h (UInt32.toNat_inj.mp hzero)
  have hone : (1 : UInt32) ≤ code := UInt32.le_iff_toNat_le.mpr hpos
  rw [UInt32.toNat_sub_of_le _ _ hone]
  simp
  omega

/-- A cut covers its span from end to end. -/
theorem Cut.tiles (h : Cut budget last first entries blocks) : Tiles ⟨first, last⟩ blocks := by
  induction h with
  | whole _ => exact ⟨rfl, rfl, by simp⟩
  | @step first front next rest more full positive back ih =>
    match more, ih with
    | [], ih => exact absurd ih.first (by simp)
    | b :: more, ih =>
      have hfirst : b.span.first = next.1 := by simpa using ih.first
      refine ⟨rfl, by simpa using ih.last, List.isChain_cons_cons.mpr ⟨?_, ih.meet⟩⟩
      rw [hfirst]
      exact toNat_sub_one_add_one positive

/-! ## Blocks in order -/

/-- The span of the block holds a code, and its entries lie in it by ascending code. -/
structure Sound (b : Block) : Prop where
  nonempty : b.span.first ≤ b.span.last
  within : ∀ e ∈ b.entries, b.span.contains e.1 = true
  ascends : Ascends Prod.fst b.entries.toList

/-- Ascending entries that lie in a span are cut into blocks in order. -/
theorem Cut.sound (h : Cut budget last first entries blocks) (le : first ≤ last)
    (ascends : Ascends Prod.fst entries)
    (within : ∀ e ∈ entries, (Span.mk first last).contains e.1 = true) : ∀ b ∈ blocks, b.Sound := by
  induction h with
  | whole _ =>
    intro b hb
    obtain rfl := List.mem_singleton.mp hb
    exact ⟨le, by simpa using within, ascends⟩
  | @step first front next rest more full positive back ih =>
    have hnext := toNat_sub_one_add_one positive
    rw [Ascends, List.pairwise_append] at ascends
    obtain ⟨front_ascends, back_ascends, below⟩ := ascends
    have next_le : next.1 ≤ last := by
      have := (Span.contains_iff.mp (within next (by simp))).2
      exact UInt32.le_iff_toNat_le.mpr this
    have front_within : ∀ e ∈ front, (Span.mk first (next.1 - 1)).contains e.1 = true := by
      intro e he
      have hlt := UInt32.lt_iff_toNat_lt.mp (below e he next (by simp))
      have hge := (Span.contains_iff.mp (within e (by simp [he]))).1
      exact Span.contains_iff.mpr ⟨hge, by simp only; omega⟩
    have back_within : ∀ e ∈ next :: rest, (Span.mk next.1 last).contains e.1 = true := by
      intro e he
      have hle := (Span.contains_iff.mp (within e (by simp [List.mem_cons.mp he]))).2
      refine Span.contains_iff.mpr ⟨?_, hle⟩
      rcases List.mem_cons.mp he with rfl | he
      · exact Nat.le_refl _
      · exact Nat.le_of_lt (UInt32.lt_iff_toNat_lt.mp ((List.pairwise_cons.mp back_ascends).1 e he))
    intro b hb
    rcases List.mem_cons.mp hb with rfl | hb
    · -- A full block has an entry, and its code lies between the two ends.
      have hpos := budget.room_pos
      obtain ⟨e, _, rfl⟩ := List.exists_cons_of_length_pos (l := front) (by omega)
      have he := Span.contains_iff.mp (front_within e (by simp))
      refine ⟨UInt32.le_iff_toNat_le.mpr (Nat.le_trans he.1 he.2), by simpa using front_within, ?_⟩
      exact front_ascends
    · exact ih next_le back_ascends back_within b hb

/-- Blocks in order that cover a span lie one behind the other. -/
theorem Tiles.apart {s : Span} (h : Tiles s blocks) (sound : ∀ b ∈ blocks, b.Sound) :
    blocks.Pairwise fun a b => a.span.Before b.span := by
  refine Span.pairwise_before (fun b hb => (sound b hb).nonempty) ?_
  refine h.meet.imp fun a b hab => ?_
  exact UInt32.lt_iff_toNat_lt.mpr (by omega)

/-- Blocks in order that cover a span hold its codes and no others. -/
theorem Tiles.exists_contains_iff : ∀ {blocks : List Block} {s : Span}, Tiles s blocks →
    (∀ b ∈ blocks, b.Sound) → ∀ code : Code,
    (∃ b ∈ blocks, b.span.contains code = true) ↔ s.contains code = true
  | [], _, h, _, _ => absurd h.first (by simp)
  | [b], s, h, _, code => by
    have hfirst : b.span.first = s.first := by simpa using h.first
    have hlast : b.span.last = s.last := by simpa using h.last
    simp [Span.contains, hfirst, hlast]
  | b :: c :: rest, s, h, sound, code => by
    have hfirst : b.span.first = s.first := by simpa using h.first
    obtain ⟨hmeet, chain⟩ := List.isChain_cons_cons.mp h.meet
    have nonempty := UInt32.le_iff_toNat_le.mp (sound b (by simp)).nonempty
    have back := Tiles.exists_contains_iff (s := ⟨c.span.first, s.last⟩)
      ⟨rfl, by simpa using h.last, chain⟩ fun x hx => sound x (List.mem_cons_of_mem _ hx)
    -- The blocks behind `b` hold the first code of `c`, so they do not end below it.
    have reach : c.span.first.toNat ≤ s.last.toNat := by
      have hc := UInt32.le_iff_toNat_le.mp (sound c (by simp)).nonempty
      have held := (back c.span.first).mp
        ⟨c, by simp, Span.contains_iff.mpr ⟨Nat.le_refl _, hc⟩⟩
      exact (Span.contains_iff.mp held).2
    rw [List.exists_mem_cons_iff, back, Span.contains_iff, Span.contains_iff, Span.contains_iff, hfirst]
    rw [hfirst] at nonempty
    simp only
    omega

end Block

end Marc8
