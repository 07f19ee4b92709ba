/-
Marc8.Proofs.Independence — a band does not feel what the others hold.

The blocks that lie in a band are those made of its own entries: the blocks of
the other bands lie elsewhere, and the band is cut from its own first code on,
wherever its entries stand among the others. So two charsets that have the same
entries in a band have the same blocks there, and an edit of the multi-byte
charset changes blocks of those bands only in which it changes an entry.

  `filter_liesIn_eq`      — the blocks that lie in a band are its own;
  `Assoc.ascending_insert` — an edit of a page leaves the others where they are;
  `partition_independent` — what is alike in two partitions, and in two tables.
-/
import Marc8.Proofs.Compilation
import Marc8.Proofs.Lists

namespace Marc8

open Block

variable {entries entries' : List Entry} {bands : List Span} {band : Span} {budget : Budget}
  {policy : Policy} {t : CodeTable} {p p' : CompiledTable}

/-! ## The blocks of a band -/

/-- The block lies in the band, from end to end. -/
def Block.LiesIn (band : Span) (b : Block) : Prop :=
  band.first ≤ b.span.first ∧ b.span.last ≤ band.last

instance (band : Span) : DecidablePred (Block.LiesIn band) :=
  fun _ => inferInstanceAs (Decidable (_ ∧ _))

/-- The blocks of a band lie in it, and each holds a code. -/
theorem liesIn_of_mem_bandBlocks {b : Block} (le : band.first ≤ band.last)
    (ascends : Ascends Prod.fst entries) (hb : b ∈ bandBlocks budget entries band) :
    b.LiesIn band ∧ b.span.first ≤ b.span.last :=
  have tiling := tiling_bandBlocks le ascends budget
  ⟨tiling.within hb, (tiling.sound b hb).nonempty⟩

/-- A block that holds a code does not lie in two bands of which one ends before the other begins. -/
theorem not_liesIn_of_before {s s' : Span} {b : Block} (before : s.Before s')
    (nonempty : b.span.first ≤ b.span.last) (h : b.LiesIn s) : ¬ b.LiesIn s' := by
  intro h'
  have hlt : s'.first ≤ s.last := UInt32.le_trans (UInt32.le_trans h'.1 nonempty) h.2
  exact UInt32.not_lt.mpr hlt before

/-- Of the blocks of bands in order, those that lie in a band are its own. -/
theorem filter_liesIn_eq (ascends : Ascends Prod.fst entries) (order : InOrder bands)
    (mem : band ∈ bands) :
    (bands.flatMap (bandBlocks budget entries)).filter (·.LiesIn band) =
      bandBlocks budget entries band := by
  have own : ∀ b ∈ bandBlocks budget entries band, b.LiesIn band := fun b hb =>
    (liesIn_of_mem_bandBlocks (order.nonempty band mem) ascends hb).1
  obtain ⟨front, back, rfl⟩ := List.append_of_mem mem
  obtain ⟨-, behind, apart⟩ := List.pairwise_append.mp order.before
  have other : ∀ s ∈ front ++ back, ∀ b ∈ bandBlocks budget entries s, ¬ b.LiesIn band := by
    intro s hs b hb
    have hmem : s ∈ front ++ band :: back := by
      rcases List.mem_append.mp hs with hs | hs <;> simp [hs]
    obtain ⟨hin, nonempty⟩ := liesIn_of_mem_bandBlocks (order.nonempty s hmem) ascends hb
    rcases List.mem_append.mp hs with hs | hs
    · exact not_liesIn_of_before (apart s hs band (by simp)) nonempty hin
    · exact fun h => not_liesIn_of_before ((List.pairwise_cons.mp behind).1 s hs) nonempty h hin
  have none_of : ∀ more : List Span, (∀ s ∈ more, s ∈ front ++ back) →
      (more.flatMap (bandBlocks budget entries)).filter (·.LiesIn band) = [] := by
    intro more sub
    refine List.filter_eq_nil_iff.mpr fun b hb => ?_
    obtain ⟨s, hs, hbs⟩ := List.mem_flatMap.mp hb
    simpa using other s (sub s hs) b hbs
  rw [List.flatMap_append, List.flatMap_cons, List.filter_append, List.filter_append,
    none_of front fun s hs => by simp [hs], none_of back fun s hs => by simp [hs],
    List.filter_eq_self.mpr fun b hb => by simpa using own b hb]
  simp

/-- Ascending entries that are the same in a band make the same blocks there. -/
theorem bandBlocks_congr (ascends : Ascends Prod.fst entries) (ascends' : Ascends Prod.fst entries')
    (same : ∀ e : Entry, band.contains e.1 = true → (e ∈ entries ↔ e ∈ entries')) :
    bandBlocks budget entries band = bandBlocks budget entries' band := by
  have hheld : held entries band = held entries' band := by
    refine Ascends.eq_of_mem_iff (ascends.sublist List.filter_sublist)
      (ascends'.sublist List.filter_sublist) fun e => ?_
    rw [held, held, List.mem_filter, List.mem_filter]
    exact and_congr_left (same e)
  rw [bandBlocks, bandBlocks, hheld]

/-! ## Two partitions -/

/-- Two charsets with the same entries in a band, cut by the same bands, have the same blocks in it. -/
theorem filter_liesIn_eq_of_partitions {entries entries' : Array Entry} {blocks blocks' : List Block}
    (ascends : Ascends Prod.fst entries.toList) (ascends' : Ascends Prod.fst entries'.toList)
    (some_entry : entries ≠ #[]) (some_entry' : entries' ≠ #[])
    (h : (partition entries bands budget).outcome = .ok blocks)
    (h' : (partition entries' bands budget).outcome = .ok blocks') (mem : band ∈ bands)
    (same : ∀ e : Entry, band.contains e.1 = true → (e ∈ entries ↔ e ∈ entries')) :
    blocks.filter (·.LiesIn band) = blocks'.filter (·.LiesIn band) := by
  obtain ⟨order, -, rfl⟩ := (partition_eq_ok_iff ascends (by simpa using some_entry)).mp h
  obtain ⟨-, -, rfl⟩ := (partition_eq_ok_iff ascends' (by simpa using some_entry')).mp h'
  rw [filter_liesIn_eq ascends order mem, filter_liesIn_eq ascends' order mem]
  exact bandBlocks_congr ascends ascends' fun e he => by simpa using same e he

/-- Every block of a partition lies in a band. -/
theorem exists_liesIn_of_partition {entries : Array Entry} {blocks : List Block}
    (ascends : Ascends Prod.fst entries.toList)
    (h : (partition entries bands budget).outcome = .ok blocks) {b : Block} (hb : b ∈ blocks) :
    ∃ band ∈ bands, b.LiesIn band := by
  obtain ⟨-, ⟨rfl, rfl⟩ | ⟨groups, rfl, tilings, -⟩⟩ := tilings_of_partition ascends h
  · cases hb
  · exact tilings.within hb

/-! ## Two tables -/

/-- A map with another value under a key has its other pairs where they were. -/
theorem Assoc.ascending_insert {α : Type} {m : Assoc UInt32 α} {k : UInt32} {old new : α}
    {front back : List (UInt32 × α)} (h : m.ascending = front ++ (k, old) :: back) :
    (m.insert k new).ascending = front ++ (k, new) :: back := by
  have ascends := m.ascends_ascending
  rw [h] at ascends
  have ascends' : Ascends Prod.fst (front ++ (k, new) :: back) := by
    rw [Ascends, ← List.pairwise_map] at ascends ⊢
    simpa using ascends
  have mem : (k, new) ∈ front ++ (k, new) :: back := by simp
  refine Ascends.eq_of_mem_iff (m.insert k new).ascends_ascending ascends' fun kv => ?_
  obtain ⟨k', v⟩ := kv
  rw [Assoc.mem_ascending, Assoc.find?_insert]
  by_cases hk : k' = k
  · subst hk
    rw [if_pos rfl, Option.some.injEq]
    constructor
    · rintro rfl
      exact mem
    · intro hmem
      exact congrArg Prod.snd (ascends'.eq_of_key_eq mem hmem rfl)
  · rw [if_neg hk, ← Assoc.mem_ascending, h]
    simp [hk]

theorem Assoc.toArray_ascending_ne {α : Type} {m : Assoc UInt32 α} (h : 0 < m.size) :
    m.ascending.toArray ≠ #[] := by
  intro heq
  have hnil : m.ascending = [] := by simpa using heq
  have hlength := m.ascending_perm.length_eq
  rw [hnil] at hlength
  exact absurd hlength (Nat.ne_of_lt h)

/-- What is compiled from the same charsets is the same. -/
theorem forall₂_compileCharset_unique {multibyte : Selector} {pages : List (Selector × Page)}
    {charsets charsets' : List Charset}
    (h : List.Forall₂ (fun sp charset =>
      (compileCharset policy multibyte sp.1 sp.2).outcome = .ok charset) pages charsets)
    (h' : List.Forall₂ (fun sp charset =>
      (compileCharset policy multibyte sp.1 sp.2).outcome = .ok charset) pages charsets') :
    charsets = charsets' := by
  have hrun := compileCharsets_eq_ok_iff.mpr h
  rw [compileCharsets_eq_ok_iff.mpr h'] at hrun
  simpa using hrun.symm

/-- What two tables compiled by the same bands have in common, of which one has another page as its
multi-byte charset. -/
structure AlikeOutside (bands : List Span) (page page' : Page) (blocks blocks' : List Block) :
    Prop where
  /-- In a band without a change the blocks are the same. -/
  band : ∀ band ∈ bands, (∀ code, band.contains code = true → page.find? code = page'.find? code) →
    blocks.filter (·.LiesIn band) = blocks'.filter (·.LiesIn band)
  /-- A block that comes or goes lies in a band with a change. -/
  block : ∀ b, ¬ (b ∈ blocks ↔ b ∈ blocks') → ∃ band ∈ bands, b.LiesIn band ∧
    ∃ code, band.contains code = true ∧ page.find? code ≠ page'.find? code

/-- Pages that are cut by the same bands are alike outside the bands with a change. -/
theorem alikeOutside_of_partitions {page page' : Page} {blocks blocks' : List Block}
    (some_code : 0 < page.size) (some_code' : 0 < page'.size)
    (h : (partition page.ascending.toArray bands budget).outcome = .ok blocks)
    (h' : (partition page'.ascending.toArray bands budget).outcome = .ok blocks') :
    AlikeOutside bands page page' blocks blocks' := by
  have same_filter : ∀ band ∈ bands,
      (∀ code, band.contains code = true → page.find? code = page'.find? code) →
      blocks.filter (·.LiesIn band) = blocks'.filter (·.LiesIn band) := by
    intro band mem unchanged
    refine filter_liesIn_eq_of_partitions (ascends_toArray_ascending page)
      (ascends_toArray_ascending page') (Assoc.toArray_ascending_ne some_code)
      (Assoc.toArray_ascending_ne some_code') h h' mem fun e he => ?_
    rw [List.mem_toArray, List.mem_toArray, Assoc.mem_ascending, Assoc.mem_ascending,
      unchanged e.1 he]
  refine ⟨same_filter, fun b differs => ?_⟩
  obtain ⟨band, mem, hin⟩ : ∃ band ∈ bands, b.LiesIn band := by
    by_cases hb : b ∈ blocks
    · exact exists_liesIn_of_partition (ascends_toArray_ascending page) h hb
    · have hb' : b ∈ blocks' := by
        by_contra hb'
        exact differs (iff_of_false hb hb')
      exact exists_liesIn_of_partition (ascends_toArray_ascending page') h' hb'
  refine ⟨band, mem, hin, ?_⟩
  by_contra unchanged
  push Not at unchanged
  have hfilter := congrArg (b ∈ ·) (same_filter band mem unchanged)
  simp only [List.mem_filter, hin, decide_true, and_true] at hfilter
  exact differs (iff_of_eq hfilter)

/-- A page in place of the multi-byte one changes nothing but its own blocks. -/
theorem exists_alikeOutside {page page' : Page} (hpage : t.pages.find? t.multibyte = some page)
    (some_code : 0 < page.size) (some_code' : 0 < page'.size)
    (h : (compile t policy).outcome = .ok p)
    (h' : (compile (t.insertPage t.multibyte page') policy).outcome = .ok p') :
    p.combining = p'.combining ∧ ∃ front back blocks blocks',
      p.charsets.toList = front ++ ⟨t.multibyte, .multibyte blocks⟩ :: back ∧
      p'.charsets.toList = front ++ ⟨t.multibyte, .multibyte blocks'⟩ :: back ∧
      AlikeOutside policy.bands page page' blocks blocks' := by
  obtain ⟨hcombining, hcharsets⟩ := compile_eq_ok_iff.mp h
  obtain ⟨hcombining', hcharsets'⟩ := compile_eq_ok_iff.mp h'
  obtain ⟨front, back, split⟩ := List.append_of_mem (Assoc.mem_ascending.mpr hpage)
  have split' : (t.insertPage t.multibyte page').pages.ascending =
      front ++ (t.multibyte, page') :: back := Assoc.ascending_insert split
  rw [split, forall₂_append_left_iff] at hcharsets
  rw [split', forall₂_append_left_iff] at hcharsets'
  obtain ⟨before, rest, hbefore, hrest, hp⟩ := hcharsets
  obtain ⟨before', rest', hbefore', hrest', hp'⟩ := hcharsets'
  obtain ⟨charset, behind, hcharset, hbehind, rfl⟩ := List.forall₂_cons_left_iff.mp hrest
  obtain ⟨charset', behind', hcharset', hbehind', rfl⟩ := List.forall₂_cons_left_iff.mp hrest'
  obtain rfl : before = before' := forall₂_compileCharset_unique hbefore hbefore'
  obtain rfl : behind = behind' := forall₂_compileCharset_unique hbehind hbehind'
  obtain ⟨-, blocks, rfl, hblocks⟩ | ⟨hne, -⟩ := compileCharset_cases hcharset
  · obtain ⟨-, blocks', rfl, hblocks'⟩ | ⟨hne, -⟩ := compileCharset_cases hcharset'
    · refine ⟨?_, before, behind, blocks, blocks', hp, hp', ?_⟩
      · exact Array.toList_inj.mp (hcombining.trans hcombining'.symm)
      · exact alikeOutside_of_partitions some_code some_code' hblocks hblocks'
    · exact absurd rfl hne
  · exact absurd rfl hne

/-- The bands are cut apart from each other. Two ascending lists of entries that are the same in a
band are cut into the same blocks there, by the same bands and under the same budget, whatever
stands in the other bands. So an edit of the multi-byte charset changes nothing of the compiled table
but blocks of this charset, and of these only such as lie in a band with a change. -/
theorem partition_independent :
    (∀ (entries entries' : Array Entry) (bands : List Span) (budget : Budget)
      (blocks blocks' : List Block), Ascends Prod.fst entries.toList →
      Ascends Prod.fst entries'.toList → entries ≠ #[] → entries' ≠ #[] →
      (partition entries bands budget).outcome = .ok blocks →
      (partition entries' bands budget).outcome = .ok blocks' →
      ∀ band ∈ bands, (∀ e : Entry, band.contains e.1 = true → (e ∈ entries ↔ e ∈ entries')) →
        blocks.filter (·.LiesIn band) = blocks'.filter (·.LiesIn band)) ∧
    ∀ (t : CodeTable) (policy : Policy) (page page' : Page) (p p' : CompiledTable),
      t.pages.find? t.multibyte = some page → 0 < page.size → 0 < page'.size →
      (compile t policy).outcome = .ok p →
      (compile (t.insertPage t.multibyte page') policy).outcome = .ok p' →
      p.combining = p'.combining ∧ ∃ front back blocks blocks',
        p.charsets.toList = front ++ ⟨t.multibyte, .multibyte blocks⟩ :: back ∧
        p'.charsets.toList = front ++ ⟨t.multibyte, .multibyte blocks'⟩ :: back ∧
        AlikeOutside policy.bands page page' blocks blocks' := by
  constructor
  · intro entries entries' bands budget blocks blocks' ascends ascends' ne ne' h h' band mem same
    exact filter_liesIn_eq_of_partitions ascends ascends' ne ne' h h' mem same
  · intro t policy page page' p p' hpage some_code some_code' h h'
    exact exists_alikeOutside hpage some_code some_code' h h'

/-- Two bands that meet, and three entries more in the first: the second is cut as before, though its
first entry is the fourth of all now, and the edit leaves everything else as it is. -/
theorem partition_independent_meeting_bands :
    let low : Span := ⟨0x210000, 0x2100FF⟩
    let high : Span := ⟨0x210100, 0x2101FF⟩
    let more : List Entry := [(0x210000, some 'a'), (0x210001, some 'b'), (0x2100FF, none)]
    let kept : List Entry := [(0x210100, some 'x'), (0x210150, some 'y'), (0x2101FF, none)]
    let cut : List Block :=
      [⟨⟨0x210000, 0x2100FE⟩, #[(0x210000, some 'a'), (0x210001, some 'b')]⟩,
        ⟨⟨0x2100FF, 0x2100FF⟩, #[(0x2100FF, none)]⟩]
    let same : List Block :=
      [⟨⟨0x210100, 0x2101FE⟩, #[(0x210100, some 'x'), (0x210150, some 'y')]⟩,
        ⟨⟨0x2101FF, 0x2101FF⟩, #[(0x2101FF, none)]⟩]
    let t : CodeTable := .build 0x31
      [.insertPage 0x42 (.ofList [(0x41, some 'A')]), .insertPage 0x31 (.ofList kept)]
    let latin : Charset := ⟨0x42, .page [⟨Span.full, #[(0x41, some 'A')]⟩]⟩
    let p : CompiledTable := ⟨#[], #[⟨0x31, .multibyte (⟨low, #[]⟩ :: same)⟩, latin]⟩
    let p' : CompiledTable := ⟨#[], #[⟨0x31, .multibyte (cut ++ same)⟩, latin]⟩
    (compile t ⟨[low, high], ⟨2⟩, .matchTree⟩).outcome = .ok p ∧
      (compile (t.insertPage 0x31 (.ofList (kept ++ more))) ⟨[low, high], ⟨2⟩, .matchTree⟩).outcome =
        .ok p' ∧
      (∃ front back blocks blocks', p.charsets.toList = front ++ ⟨0x31, .multibyte blocks⟩ :: back ∧
        p'.charsets.toList = front ++ ⟨0x31, .multibyte blocks'⟩ :: back ∧
        AlikeOutside [low, high] (.ofList kept) (.ofList (kept ++ more)) blocks blocks') ∧
      (⟨low, #[]⟩ :: same).filter (·.LiesIn high) = (cut ++ same).filter (·.LiesIn high) := by
  intro low high more kept cut same t latin p p'
  have h : (compile t ⟨[low, high], ⟨2⟩, .matchTree⟩).outcome = .ok p := by cbv
  have h' : (compile (t.insertPage 0x31 (.ofList (kept ++ more)))
      ⟨[low, high], ⟨2⟩, .matchTree⟩).outcome = .ok p' := by cbv
  have hkept : (partition kept.toArray [low, high] ⟨2⟩).outcome = .ok (⟨low, #[]⟩ :: same) := by cbv
  have hmore : (partition (more ++ kept).toArray [low, high] ⟨2⟩).outcome = .ok (cut ++ same) := by
    cbv
  have elsewhere : ∀ e ∈ more, high.contains e.1 = false := by decide
  have unchanged : ∀ e : Entry, high.contains e.1 = true →
      (e ∈ kept.toArray ↔ e ∈ (more ++ kept).toArray) := by
    intro e he
    rw [List.mem_toArray, List.mem_toArray, List.mem_append]
    refine ⟨.inr, fun hmem => hmem.resolve_left fun hmore => ?_⟩
    simp [elsewhere e hmore] at he
  refine ⟨h, h', ?_, ?_⟩
  · exact (partition_independent.2 t _ (.ofList kept) (.ofList (kept ++ more)) p p' rfl (by decide)
      (by decide) h h').2
  · have ascends : Ascends Prod.fst (more ++ kept).toArray.toList := by
      unfold Ascends
      decide
    exact partition_independent.1 kept.toArray (more ++ kept).toArray [low, high] ⟨2⟩ _ _
      (ascends.sublist (List.sublist_append_right more kept)) ascends (by decide) (by decide) hkept
      hmore high (by simp) unchanged

end Marc8
