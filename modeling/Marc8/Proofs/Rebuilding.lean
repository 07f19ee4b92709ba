/-
Marc8.Proofs.Rebuilding — the table, rebuilt from the compiled one.

Nothing of a table is lost when it is compiled (`Lossless`): its charsets are
all there, and their entries too, with those that no lookup asks for — the entry
for the space, and the codes that are listed without a character — and so are
the selectors whose combining codes are none.

So the compiled table can be turned back into a table, of the same content as
the one it was made of, and that can be compiled under any other policy. Blocks
that were cut at the boundaries of one policy do not stand in the way of those of
the other.

  `Assoc.find?_ofList`     — a map is made of pairs whose keys are distinct;
  `sameContent_rebuilt`    — the rebuilt table has the content of the table;
  `compile_lossless`       — nothing is lost, and the rebuilt table is compiled as
                             the table is, under every policy.
-/
import Marc8.Proofs.Content
import Mathlib.Algebra.GroupWithZero.Nat

namespace Marc8

/-! ## Maps made of pairs -/

section Maps

variable {κ α : Type} [DecidableEq κ]

/-- Pairs with distinct keys, none of which is in a map yet, are found in the map behind their
insertions, and nothing else is that was not there before. -/
theorem Assoc.find?_foldl_insert {k : κ} {v : α} : ∀ {pairs : List (κ × α)} {m : Assoc κ α},
    (pairs.map Prod.fst).Nodup → (∀ kv ∈ pairs, m.find? kv.1 = none) →
      ((pairs.foldl (fun m e => m.insert e.1 e.2) m).find? k = some v ↔
        (k, v) ∈ pairs ∨ m.find? k = some v)
  | [], m, _, _ => by simp
  | (k', v') :: rest, m, nodup, fresh => by
    obtain ⟨hkey, nodup⟩ := List.nodup_cons.mp nodup
    have hne : ∀ kv ∈ rest, kv.1 ≠ k' := fun kv hkv heq => hkey (List.mem_map.mpr ⟨kv, hkv, heq⟩)
    have hfresh : ∀ kv ∈ rest, (m.insert k' v').find? kv.1 = none := fun kv hkv => by
      rw [Assoc.find?_insert, if_neg (hne kv hkv)]
      exact fresh kv (List.mem_cons_of_mem _ hkv)
    rw [List.foldl_cons, find?_foldl_insert nodup hfresh, Assoc.find?_insert, List.mem_cons,
      Prod.mk.injEq]
    by_cases hk : k = k'
    · subst hk
      have hnone : m.find? k = none := fresh (k, v') (by simp)
      simp [hnone, eq_comm, or_comm]
    · simp [hk]

/-- A map that is made of pairs with distinct keys has these pairs. -/
theorem Assoc.find?_ofList {pairs : List (κ × α)} (nodup : (pairs.map Prod.fst).Nodup) {k : κ}
    {v : α} : (Assoc.ofList pairs).find? k = some v ↔ (k, v) ∈ pairs := by
  rw [Assoc.ofList, Assoc.find?_foldl_insert nodup fun _ _ => rfl]
  simp

end Maps

section Sorted

variable {α β : Type} {key : α → UInt32} {value : α → β}

/-- A map that is made of sorted items is searched as they are. -/
theorem Assoc.find?_ofList_map {xs : Array α} (ascends : Ascends key xs.toList) (k : UInt32) :
    (Assoc.ofList (xs.toList.map fun x => (key x, value x))).find? k =
      (Search.find? key xs k).map value := by
  have nodup : ((xs.toList.map fun x => (key x, value x)).map Prod.fst).Nodup := by
    rw [List.map_map]
    exact ascends.nodup_map
  apply Option.ext
  intro v
  rw [Assoc.find?_ofList nodup, Option.map_eq_some_iff]
  simp only [List.mem_map, Array.mem_toList_iff, Prod.mk.injEq, Search.find?_eq_some_iff ascends,
    and_assoc]

/-- A map is made of its sorted pairs. -/
theorem Assoc.find?_ofList_ascending (m : Assoc UInt32 β) (k : UInt32) :
    (Assoc.ofList m.ascending).find? k = m.find? k := by
  apply Option.ext
  intro v
  rw [Assoc.find?_ofList m.ascends_ascending.nodup_map, Assoc.mem_ascending]

/-- The keys of the sorted pairs are those of the map. -/
theorem Assoc.mem_map_fst_ascending {m : Assoc UInt32 β} {k : UInt32} :
    k ∈ m.ascending.map Prod.fst ↔ m.contains k = true := by
  rw [(m.ascending_perm.map Prod.fst).mem_iff, ← Assoc.mem_keys_iff, Assoc.keys]

end Sorted

/-! ## Rebuilding -/

/-- The entries of a charset, block behind block. -/
def Layout.entries (l : Layout) : List Entry := l.blocks.flatMap (·.entries.toList)

/-- The table that is put together of what a compiled table holds. -/
def CompiledTable.rebuilt (p : CompiledTable) (multibyte : Selector) : CodeTable where
  multibyte := multibyte
  pages := .ofList (p.charsets.toList.map fun charset =>
    (charset.selector, .ofList charset.layout.entries))
  combining := .ofList (p.combining.toList.map fun set => (set.selector, set.codes.toList))

variable {t : CodeTable} {policy : Policy} {p : CompiledTable}

/-- The blocks of a charset hold the entries of its page, in their order. -/
theorem CompiledFrom.entries_eq {multibyte selector : Selector} {page : Page} {charset : Charset}
    (h : CompiledFrom multibyte selector page charset) : charset.layout.entries = page.ascending :=
  h.divides.whole

/-- What is rebuilt from a compiled table has the content of the table that was compiled. -/
theorem sameContent_rebuilt (h : (compile t policy).outcome = .ok p) :
    SameContent t (p.rebuilt t.multibyte) := by
  have wellFormed := compile_wellFormed h
  refine ⟨rfl, fun selector => ?_, fun selector => ?_⟩
  · have rel := Search.rel_find?
      (R := fun page charset => CompiledFrom t.multibyte charset.selector page charset)
      (forall₂_charsets h) selector
    rw [CompiledTable.rebuilt, Assoc.find?_ofList_map wellFormed.charsets]
    generalize t.pages.find? selector = page?, Search.find? Charset.selector p.charsets selector =
      charset? at rel
    cases rel with
    | none => exact .none
    | some from_page =>
      refine .some fun code => ?_
      simp only [from_page.entries_eq, Assoc.find?_ofList_ascending]
  · have rel := Search.rel_find?
      (R := fun codes (set : CombiningSet) => set.codes = (ascendingDistinct codes).toArray)
      (forall₂_combining h) selector
    rw [CompiledTable.rebuilt, Assoc.find?_ofList_map wellFormed.combining]
    generalize t.combining.find? selector = codes?,
      Search.find? CombiningSet.selector p.combining selector = set? at rel
    cases rel with
    | none => exact .none
    | some hcodes =>
      refine .some fun code => ?_
      simp only [hcodes, mem_ascendingDistinct]

/-! ## Counting entries -/

theorem Layout.length_entries (l : Layout) : l.entries.length = l.entryCount := by
  rw [entries, entryCount]
  induction l.blocks with
  | nil => rfl
  | cons block rest ih => simp [ih]

/-- The blocks of a charset have as many entries as its page. -/
theorem CompiledFrom.entryCount_eq {multibyte selector : Selector} {page : Page} {charset : Charset}
    (h : CompiledFrom multibyte selector page charset) : charset.layout.entryCount = page.size := by
  rw [← Layout.length_entries, h.entries_eq]
  exact page.ascending_perm.length_eq

/-- As many entries are counted in sorted charsets as in the pages they are made of. -/
theorem entryCount_eq_of_forall₂ {multibyte : Selector} {pages : List (Selector × Page)}
    {charsets : List Charset}
    (h : List.Forall₂ (fun sp charset => charset.selector = sp.1 ∧
      CompiledFrom multibyte charset.selector sp.2 charset) pages charsets) :
    charsets.foldr (fun charset count => charset.layout.entryCount + count) 0 =
      (pages.map fun sp => sp.2.size).sum := by
  induction h with
  | nil => rfl
  | cons hcharset _ ih =>
    rw [List.foldr_cons, List.map_cons, List.sum_cons, hcharset.2.entryCount_eq, ih]

theorem entryCount_of_compile (h : (compile t policy).outcome = .ok p) :
    p.entryCount = (t.pages.entries.map fun sp => sp.2.size).sum := by
  rw [CompiledTable.entryCount, entryCount_eq_of_forall₂ (forall₂_charsets h)]
  exact (t.pages.ascending_perm.map _).sum_nat

/-! ## Nothing is lost -/

/-- The compiled table has all that the table has, sorted. -/
structure Lossless (t : CodeTable) (p : CompiledTable) : Prop where
  /-- The charsets stand by ascending selector. -/
  charsets : (p.charsets.toList.map (·.selector)).Pairwise (· < ·)
  /-- They are those of the table. -/
  mem_charsets : ∀ s, s ∈ p.charsets.toList.map (·.selector) ↔ t.pages.contains s = true
  /-- The multi-byte charset is that of the table. -/
  multibyte : ∀ charset ∈ p.charsets,
    (∃ blocks, charset.layout = .multibyte blocks) ↔ charset.selector = t.multibyte
  /-- Put together, the blocks of a charset hold the entries of its page by ascending code, and no
  others. -/
  entries : ∀ charset ∈ p.charsets, ∃ page, t.pages.find? charset.selector = some page ∧
    (charset.layout.entries.Pairwise fun a b => a.1 < b.1) ∧
    ∀ code value, (code, value) ∈ charset.layout.entries ↔ page.find? code = some value
  /-- The sets of combining codes stand by ascending selector. -/
  combining : (p.combining.toList.map (·.selector)).Pairwise (· < ·)
  /-- Their selectors are those for which the table has codes, or an empty list of them. -/
  mem_combining : ∀ s, s ∈ p.combining.toList.map (·.selector) ↔ t.combining.contains s = true
  /-- A set has the codes of the table by ascending code, and no others. -/
  codes : ∀ set ∈ p.combining, ∃ codes, t.combining.find? set.selector = some codes ∧
    set.codes.toList.Pairwise (· < ·) ∧ ∀ code, code ∈ set.codes ↔ code ∈ codes
  /-- There are as many entries as codes in all pages. -/
  entryCount : p.entryCount = (t.pages.entries.map fun sp => sp.2.size).sum

/-- The kind of a charset tells whether it is the multi-byte charset of the table. -/
theorem CompiledFrom.multibyte_iff {multibyte selector : Selector} {page : Page} {charset : Charset}
    (h : CompiledFrom multibyte selector page charset) :
    (∃ blocks, charset.layout = .multibyte blocks) ↔ charset.selector = multibyte := by
  have kind := h.kind
  rw [h.selector_eq]
  cases hlayout : charset.layout with
  | page blocks =>
    rw [hlayout] at kind
    simpa using kind.1
  | multibyte blocks =>
    rw [hlayout] at kind
    simpa using kind

theorem lossless_of_compile (h : (compile t policy).outcome = .ok p) : Lossless t p := by
  have wellFormed := compile_wellFormed h
  have hcharsets := forall₂_charsets h
  have hcombining := forall₂_combining h
  refine ⟨List.pairwise_map.mpr wellFormed.charsets, fun s => ?_, fun charset hcharset => ?_,
    fun charset hcharset => ?_, List.pairwise_map.mpr wellFormed.combining, fun s => ?_,
    fun set hset => ?_, entryCount_of_compile h⟩
  · rw [keys_eq_of_forall₂
      (R := fun page charset => CompiledFrom t.multibyte charset.selector page charset) hcharsets,
      Assoc.mem_map_fst_ascending]
  · obtain ⟨_, _, _, from_page⟩ :=
      exists_left_of_forall₂ hcharsets (Array.mem_toList_iff.mpr hcharset)
    exact from_page.multibyte_iff
  · obtain ⟨⟨selector, page⟩, hpage, hselector, from_page⟩ :=
      exists_left_of_forall₂ hcharsets (Array.mem_toList_iff.mpr hcharset)
    rw [hselector]
    refine ⟨page, Assoc.mem_ascending.mp hpage, ?_, fun code value => ?_⟩
    · rw [from_page.entries_eq]
      exact page.ascends_ascending
    · rw [from_page.entries_eq, Assoc.mem_ascending]
  · rw [keys_eq_of_forall₂
      (R := fun codes (set : CombiningSet) => set.codes = (ascendingDistinct codes).toArray)
      hcombining, Assoc.mem_map_fst_ascending]
  · obtain ⟨⟨selector, codes⟩, hmem, hselector, hcodes⟩ :=
      exists_left_of_forall₂ hcombining (Array.mem_toList_iff.mpr hset)
    rw [hselector]
    refine ⟨codes, Assoc.mem_ascending.mp hmem, wellFormed.codes set hset, fun code => ?_⟩
    rw [hcodes, List.mem_toArray, mem_ascendingDistinct]

/-- Compilation loses nothing, so the table can be rebuilt from the compiled one: under every policy
the rebuilt table is compiled as the table is, with the same failure and the same reports. Under the
policy of the compiled table this gives the compiled table again. -/
theorem compile_lossless (h : (compile t policy).outcome = .ok p) :
    Lossless t p ∧ (∀ policy', compile (p.rebuilt t.multibyte) policy' = compile t policy') ∧
      (compile (p.rebuilt t.multibyte) policy).outcome = .ok p := by
  have alike : ∀ policy', compile (p.rebuilt t.multibyte) policy' = compile t policy' :=
    fun policy' => (compile_eq_of_sameContent (sameContent_rebuilt h) policy').symm
  exact ⟨lossless_of_compile h, alike, by rw [alike, h]⟩

/-- An entry for the space, codes without a character and an empty set of combining codes are not
lost. Rebuilt from blocks of one entry, the table is compiled to blocks of two, and refused by bands
that leave a code out. -/
theorem compile_lossless_three_policies :
    let t : CodeTable := .build 0x31
      [.insertPage 0x31 (.ofList [(0x215022, none), (0x213021, some 'a')]),
        .insertPage 0x42 (.ofList [(0x20, some '!'), (0x41, some 'A'), (0x42, none)]),
        .addCombining 0x45 [], .addCombining 0x42 [0xE1, 0xE0, 0xE1]]
    let bands : List Span := [⟨0x210000, 0x21FFFF⟩]
    let p : CompiledTable :=
      ⟨#[⟨0x42, #[0xE0, 0xE1]⟩, ⟨0x45, #[]⟩],
        #[⟨0x31, .multibyte
            [⟨⟨0x210000, 0x215021⟩, #[(0x213021, some 'a')]⟩,
              ⟨⟨0x215022, 0x21FFFF⟩, #[(0x215022, none)]⟩]⟩,
          ⟨0x42, .page
            [⟨⟨0, 0x40⟩, #[(0x20, some '!')]⟩, ⟨⟨0x41, 0x41⟩, #[(0x41, some 'A')]⟩,
              ⟨⟨0x42, 0xFFFFFFFF⟩, #[(0x42, none)]⟩]⟩]⟩
    (compile t ⟨bands, ⟨1⟩, .matchTree⟩).outcome = .ok p ∧ Lossless t p ∧
      (compile (p.rebuilt 0x31) ⟨bands, ⟨1⟩, .matchTree⟩).outcome = .ok p ∧
      (compile (p.rebuilt 0x31) ⟨bands, ⟨2⟩, .sortedArray⟩).outcome = .ok
        ⟨p.combining,
          #[⟨0x31, .multibyte
              [⟨⟨0x210000, 0x21FFFF⟩, #[(0x213021, some 'a'), (0x215022, none)]⟩]⟩,
            ⟨0x42, .page
              [⟨⟨0, 0x41⟩, #[(0x20, some '!'), (0x41, some 'A')]⟩,
                ⟨⟨0x42, 0xFFFFFFFF⟩, #[(0x42, none)]⟩]⟩]⟩ ∧
      (compile (p.rebuilt 0x31) ⟨[⟨0x210000, 0x214FFF⟩], ⟨1⟩, .matchTree⟩).outcome =
        .error (.uncovered 0x215022) := by
  intro t bands p
  have h : (compile t ⟨bands, ⟨1⟩, .matchTree⟩).outcome = .ok p := by cbv
  obtain ⟨lossless, alike, again⟩ := compile_lossless h
  refine ⟨h, lossless, again, ?_, ?_⟩
  · exact (congrArg Run.outcome (alike ⟨bands, ⟨2⟩, .sortedArray⟩)).trans (by cbv)
  · exact (congrArg Run.outcome (alike ⟨[⟨0x210000, 0x214FFF⟩], ⟨1⟩, .matchTree⟩)).trans (by cbv)

end Marc8
