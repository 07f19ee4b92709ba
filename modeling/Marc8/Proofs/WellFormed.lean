/-
Marc8.Proofs.WellFormed — what a compiled table is like.

A compilation that succeeds leaves a table in which everything is sorted and
every charset is divided into blocks (`compile_wellFormed`). What its parts have
to do with those of the table it was made of is said by `CompiledFrom`, charset
by charset, and by `Search.rel_find?`: a sorted copy of a map is searched as the
map is.
-/
import Marc8.Proofs.Compilation
import Marc8.Proofs.Lists

namespace Marc8

open Block

/-! ## Sorted copies of maps -/

section Copies

variable {α β : Type} {key : α → UInt32} {m : Assoc UInt32 β} {R : β → α → Prop}

theorem keys_eq_of_forall₂ {xs : List α} {pairs : List (UInt32 × β)}
    (h : List.Forall₂ (fun kv x => key x = kv.1 ∧ R kv.2 x) pairs xs) :
    xs.map key = pairs.map Prod.fst := by
  induction h with
  | nil => rfl
  | cons hx _ ih => rw [List.map_cons, List.map_cons, hx.1, ih]

/-- What is made of the sorted pairs of a map, one by one and under the same keys, ascends. -/
theorem ascends_of_forall₂ {xs : List α}
    (h : List.Forall₂ (fun kv x => key x = kv.1 ∧ R kv.2 x) m.ascending xs) : Ascends key xs := by
  have ascends : (m.ascending.map Prod.fst).Pairwise (· < ·) :=
    List.pairwise_map.mpr m.ascends_ascending
  rw [← keys_eq_of_forall₂ h] at ascends
  exact List.pairwise_map.mp ascends

/-- A sorted copy of a map is searched as the map is. -/
theorem Search.rel_find? {xs : Array α}
    (h : List.Forall₂ (fun kv x => key x = kv.1 ∧ R kv.2 x) m.ascending xs.toList) (k : UInt32) :
    Option.Rel R (m.find? k) (Search.find? key xs k) := by
  have ascends := ascends_of_forall₂ h
  cases hfind : m.find? k with
  | some v =>
    obtain ⟨x, hx, hkey, hR⟩ := exists_right_of_forall₂ h (Assoc.mem_ascending.mpr hfind)
    have found : Search.find? key xs k = some x :=
      (Search.find?_eq_some_iff ascends).mpr ⟨Array.mem_toList_iff.mp hx, hkey⟩
    rw [found]
    exact .some hR
  | none =>
    cases found : Search.find? key xs k with
    | none => exact .none
    | some x =>
      obtain ⟨hx, hkey⟩ := (Search.find?_eq_some_iff ascends).mp found
      obtain ⟨⟨k', v⟩, hkv, hkey', _⟩ := exists_left_of_forall₂ h (Array.mem_toList_iff.mpr hx)
      obtain rfl : k = k' := hkey.symm.trans hkey'
      rw [Assoc.mem_ascending.mp hkv] at hfind
      cases hfind

end Copies

/-! ## Charsets -/

variable {policy : Policy} {multibyte selector : Selector} {page : Page} {charset : Charset}

/-- What compilation makes of a page: blocks that divide its entries. Unless it is the multi-byte
charset, they cover all codes. -/
structure CompiledFrom (multibyte selector : Selector) (page : Page) (charset : Charset) : Prop where
  selector_eq : charset.selector = selector
  divides : Divides charset.layout.blocks page.ascending
  kind : match charset.layout with
    | .page blocks => selector ≠ multibyte ∧ Tiles Span.full blocks
    | .multibyte _ => selector = multibyte

/-- The blocks of the multi-byte charset, if it can be partitioned, divide its entries. -/
theorem divides_of_partition {blocks : List Block}
    (h : (partition page.ascending.toArray policy.bands policy.budget).outcome = .ok blocks) :
    Divides blocks page.ascending := by
  obtain ⟨order, ⟨hempty, rfl⟩ | ⟨groups, rfl, tilings, all⟩⟩ :=
    tilings_of_partition (ascends_toArray_ascending page) h
  · have hnil : page.ascending = [] := by simpa using hempty
    exact ⟨by simp, List.Pairwise.nil, by simp [hnil]⟩
  · have divides := BandTilings.divides tilings order (ascends_toArray_ascending page)
    rwa [List.filter_eq_self.mpr all] at divides

theorem compiledFrom_of_outcome
    (h : (compileCharset policy multibyte selector page).outcome = .ok charset) :
    CompiledFrom multibyte selector page charset := by
  obtain ⟨hselector, blocks, rfl, hpart⟩ | ⟨hselector, blocks, rfl, tiling⟩ :=
    compileCharset_cases h
  · exact ⟨rfl, divides_of_partition hpart, hselector⟩
  · exact ⟨rfl, tiling.divides, hselector, tiling.tiles⟩

/-! ## Tables -/

variable {t : CodeTable} {p : CompiledTable}

/-- The charsets of a compiled table are made of those of the table, in ascending order. -/
theorem forall₂_charsets (h : (compile t policy).outcome = .ok p) :
    List.Forall₂ (fun sp charset => charset.selector = sp.1 ∧
      CompiledFrom t.multibyte charset.selector sp.2 charset) t.pages.ascending p.charsets.toList :=
  (compile_eq_ok_iff.mp h).2.imp fun sp charset hcharset => by
    have from_page := compiledFrom_of_outcome hcharset
    exact ⟨from_page.selector_eq, from_page.selector_eq ▸ from_page⟩

/-- The combining sets of a compiled table are those of the table, sorted. -/
theorem forall₂_combining (h : (compile t policy).outcome = .ok p) :
    List.Forall₂ (fun sc set => set.selector = sc.1 ∧ set.codes = (ascendingDistinct sc.2).toArray)
      t.combining.ascending p.combining.toList := by
  rw [(compile_eq_ok_iff.mp h).1, compileCombining, List.forall₂_map_right_iff, List.forall₂_same]
  exact fun _ _ => ⟨rfl, rfl⟩

/-- A compiled table is sorted throughout; its charsets are divided into blocks, which cover all
codes unless it is the multi-byte charset, and of this there is one at most. -/
structure CompiledTable.WellFormed (p : CompiledTable) : Prop where
  combining : Ascends CombiningSet.selector p.combining.toList
  codes : ∀ set ∈ p.combining, Ascends id set.codes.toList
  charsets : Ascends Charset.selector p.charsets.toList
  divides : ∀ charset ∈ p.charsets, ∃ entries, Divides charset.layout.blocks entries
  tiles : ∀ charset ∈ p.charsets, ∀ blocks, charset.layout = .page blocks → Tiles Span.full blocks
  multibyte : ∃ multibyte, ∀ charset ∈ p.charsets, ∀ blocks,
    charset.layout = .multibyte blocks → charset.selector = multibyte

/-- Whatever is compiled is well-formed. -/
theorem compile_wellFormed (h : (compile t policy).outcome = .ok p) : p.WellFormed := by
  have made : ∀ charset ∈ p.charsets, ∃ page,
      CompiledFrom t.multibyte charset.selector page charset := fun charset hcharset => by
    obtain ⟨sp, _, _, from_page⟩ :=
      exists_left_of_forall₂ (forall₂_charsets h) (Array.mem_toList_iff.mpr hcharset)
    exact ⟨sp.2, from_page⟩
  refine ⟨ascends_of_forall₂ (R := fun codes set => set.codes = (ascendingDistinct codes).toArray)
    (forall₂_combining h), ?_, ?_, ?_, ?_, t.multibyte, ?_⟩
  · intro set hset
    obtain ⟨sc, _, _, hcodes⟩ :=
      exists_left_of_forall₂ (forall₂_combining h) (Array.mem_toList_iff.mpr hset)
    rw [hcodes]
    exact ascends_ascendingDistinct sc.2
  · exact ascends_of_forall₂
      (R := fun page charset => CompiledFrom t.multibyte charset.selector page charset)
      (forall₂_charsets h)
  · intro charset hcharset
    obtain ⟨page, from_page⟩ := made charset hcharset
    exact ⟨page.ascending, from_page.divides⟩
  · intro charset hcharset blocks hlayout
    obtain ⟨page, from_page⟩ := made charset hcharset
    have kind := from_page.kind
    rw [hlayout] at kind
    exact kind.2
  · intro charset hcharset blocks hlayout
    obtain ⟨page, from_page⟩ := made charset hcharset
    have kind := from_page.kind
    rwa [hlayout] at kind

end Marc8
