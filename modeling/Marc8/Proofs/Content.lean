/-
Marc8.Proofs.Content — the compiled table depends on the content of the table
only.

A table is built step by step and its maps are enumerated in some order; neither
is part of its content. `SameContent` says what is: the multi-byte selector, the
pages as maps, the selectors with combining codes, and the codes of each as a
set. Whatever is enumerated on the way to the compiled table is sorted first,
and an ascending list is told by its elements, so:

  `compile_eq_of_sameContent` — tables of the same content are compiled alike,
                                in their failures and their reports too;
  `sameContent_of_compile`    — tables that are compiled to the same table have
                                the same content;
  `artifact_determined_by_content` — both, for any two histories and any two
                                orders of enumeration.
-/
import Marc8.Generate
import Marc8.Proofs.Sorting
import Marc8.Proofs.WellFormed

namespace Marc8

/-! ## The content of a table -/

section Agreement

variable {κ α : Type} [DecidableEq κ] {R : α → α → Prop} {m m' m'' : Assoc κ α}

/-- The same keys, with related values under them. -/
def Assoc.Agrees (R : α → α → Prop) (m m' : Assoc κ α) : Prop :=
  ∀ k, Option.Rel R (m.find? k) (m'.find? k)

theorem Assoc.Agrees.imp {S : α → α → Prop} (hRS : ∀ a b, R a b → S a b) (h : m.Agrees R m') :
    m.Agrees S m' := by
  intro k
  have hk := h k
  generalize m.find? k = a?, m'.find? k = b? at hk
  cases hk with
  | none => exact .none
  | some hab => exact .some (hRS _ _ hab)

theorem Assoc.Agrees.symm (hR : ∀ a b, R a b → R b a) (h : m.Agrees R m') : m'.Agrees R m := by
  intro k
  have hk := h k
  generalize m.find? k = a?, m'.find? k = b? at hk
  cases hk with
  | none => exact .none
  | some hab => exact .some (hR _ _ hab)

theorem Assoc.Agrees.trans (hR : ∀ a b c, R a b → R b c → R a c) (h : m.Agrees R m')
    (h' : m'.Agrees R m'') : m.Agrees R m'' := by
  intro k
  have hk := h k
  have hk' := h' k
  generalize m.find? k = a?, m'.find? k = b?, m''.find? k = c? at hk hk'
  cases hk with
  | none =>
    cases hk'
    exact .none
  | some hab =>
    cases hk' with
    | some hbc => exact .some (hR _ _ _ hab hbc)

/-- What stands under a key in one of two maps that agree has its like in the other. -/
theorem Assoc.Agrees.exists_right (h : m.Agrees R m') {k : κ} {a : α} (hk : m.find? k = some a) :
    ∃ a', m'.find? k = some a' ∧ R a a' := by
  have rel := h k
  rw [hk] at rel
  generalize m'.find? k = b? at rel
  cases rel with
  | some hab => exact ⟨_, rfl, hab⟩

/-- Maps with the same pairs, in whatever order, find the same. -/
theorem Assoc.find?_eq_of_perm (h : m.entries.Perm m'.entries) (k : κ) :
    m.find? k = m'.find? k := by
  apply Option.ext
  intro v
  rw [← Assoc.mem_entries_iff, ← Assoc.mem_entries_iff, h.mem_iff]

end Agreement

/-- Two tables hold the same pages, entry by entry, and the same combining codes for the same
selectors. In what order the codes were added, and how often, is left open. -/
structure SameContent (t t' : CodeTable) : Prop where
  multibyte : t.multibyte = t'.multibyte
  pages : t.pages.Agrees (fun page page' => ∀ code, page.find? code = page'.find? code) t'.pages
  combining : t.combining.Agrees (fun codes codes' => ∀ code, code ∈ codes ↔ code ∈ codes')
    t'.combining

/-- The same table with its maps enumerated in another order: the pages, the entries of each page,
and the selectors with combining codes. -/
structure Reordered (t t' : CodeTable) : Prop where
  multibyte : t.multibyte = t'.multibyte
  pages : ∃ moved, t.pages.entries.Perm moved ∧
    List.Forall₂ (fun sp sp' => sp.1 = sp'.1 ∧ sp.2.entries.Perm sp'.2.entries)
      moved t'.pages.entries
  combining : t.combining.entries.Perm t'.combining.entries

variable {t t' t'' : CodeTable} {policy : Policy} {p : CompiledTable}

theorem SameContent.symm (h : SameContent t t') : SameContent t' t where
  multibyte := h.multibyte.symm
  pages := h.pages.symm fun _ _ same code => (same code).symm
  combining := h.combining.symm fun _ _ same code => (same code).symm

theorem SameContent.trans (h : SameContent t t') (h' : SameContent t' t'') :
    SameContent t t'' where
  multibyte := h.multibyte.trans h'.multibyte
  pages := h.pages.trans (fun _ _ _ same same' code => (same code).trans (same' code)) h'.pages
  combining :=
    h.combining.trans (fun _ _ _ same same' code => (same code).trans (same' code)) h'.combining

/-- The order of enumeration is no part of the content. -/
theorem Reordered.sameContent (h : Reordered t t') : SameContent t t' := by
  obtain ⟨moved, perm, forall₂⟩ := h.pages
  refine ⟨h.multibyte, fun selector => ?_, fun selector => ?_⟩
  · cases hfind : t.pages.find? selector with
    | some page =>
      have hmoved := perm.mem_iff.mp (Assoc.mem_entries_iff.mpr hfind)
      obtain ⟨⟨selector', page'⟩, hmem, rfl, same⟩ := exists_right_of_forall₂ forall₂ hmoved
      rw [Assoc.mem_entries_iff.mp hmem]
      exact .some (Assoc.find?_eq_of_perm same)
    | none =>
      cases hfind' : t'.pages.find? selector with
      | none => exact .none
      | some page' =>
        obtain ⟨⟨selector', page⟩, hmem, rfl, _⟩ :=
          exists_left_of_forall₂ forall₂ (Assoc.mem_entries_iff.mpr hfind')
        rw [Assoc.mem_entries_iff.mp (perm.mem_iff.mpr hmem)] at hfind
        cases hfind
  · rw [Assoc.find?_eq_of_perm h.combining]
    cases t'.combining.find? selector with
    | none => exact .none
    | some codes => exact .some fun _ => Iff.rfl

/-! ## From the content to the compiled table -/

/-- Maps that agree, with their pairs sorted and brought into a form in which the values that may
differ are the same, are equal. -/
theorem Assoc.Agrees.map_ascending_eq {α β : Type} {m m' : Assoc UInt32 α} {f : UInt32 × α → β}
    (key : β → UInt32) (hkey : ∀ kv, key (f kv) = kv.1)
    (h : m.Agrees (fun a a' => ∀ k, f (k, a) = f (k, a')) m') :
    m.ascending.map f = m'.ascending.map f := by
  have ascends : ∀ m : Assoc UInt32 α, Ascends key (m.ascending.map f) := fun m =>
    List.pairwise_map.mpr (m.ascends_ascending.imp fun hlt => by rwa [hkey, hkey])
  have covers : ∀ {m m' : Assoc UInt32 α}, m.Agrees (fun a a' => ∀ k, f (k, a) = f (k, a')) m' →
      ∀ x, x ∈ m.ascending.map f → x ∈ m'.ascending.map f := by
    intro m m' h x hx
    obtain ⟨⟨k, a⟩, hmem, rfl⟩ := List.mem_map.mp hx
    obtain ⟨a', hfind, heq⟩ := h.exists_right (Assoc.mem_ascending.mp hmem)
    exact List.mem_map.mpr ⟨(k, a'), Assoc.mem_ascending.mpr hfind, (heq k).symm⟩
  exact Ascends.eq_of_mem_iff (ascends m) (ascends m') fun x =>
    ⟨covers h x, covers (h.symm fun _ _ heq k => (heq k).symm) x⟩

/-- Charsets are compiled from nothing but their selectors and their sorted entries. -/
theorem compileCharsets_congr {multibyte : Selector} : ∀ {pages pages' : List (Selector × Page)},
    pages.map (fun sp => (sp.1, sp.2.ascending)) = pages'.map (fun sp => (sp.1, sp.2.ascending)) →
      compileCharsets policy multibyte pages = compileCharsets policy multibyte pages'
  | [], [], _ => rfl
  | [], _ :: _, h => nomatch h
  | _ :: _, [], h => nomatch h
  | (selector, page) :: rest, (selector', page') :: rest', h => by
    obtain ⟨⟨rfl, hpage⟩, hrest⟩ := by simpa only [List.map_cons, List.cons.injEq,
      Prod.mk.injEq] using h
    have hcharset : compileCharset policy multibyte selector page =
        compileCharset policy multibyte selector page' := by
      unfold compileCharset
      rw [hpage]
    rw [compileCharsets, compileCharsets, hcharset, compileCharsets_congr hrest]

/-- Tables of the same content are compiled alike: to the same table or with the same failure, and
with the same reports. -/
theorem compile_eq_of_sameContent (h : SameContent t t') (policy : Policy) :
    compile t policy = compile t' policy := by
  have hcombining : compileCombining t = compileCombining t' :=
    Assoc.Agrees.map_ascending_eq CombiningSet.selector (fun _ => rfl) <|
      h.combining.imp fun _ _ same _ => by simp only [ascendingDistinct_eq_iff.mpr same]
  have hpages : t.pages.ascending.map (fun sp => (sp.1, sp.2.ascending)) =
      t'.pages.ascending.map fun sp => (sp.1, sp.2.ascending) :=
    Assoc.Agrees.map_ascending_eq Prod.fst (fun _ => rfl) <|
      h.pages.imp fun _ _ same _ => by rw [Assoc.ascending_eq_of_find?_eq same]
  rw [compile, compile, hcombining, h.multibyte, compileCharsets_congr hpages]

/-! ## From the compiled table to the content -/

/-- Values related to a common one are related to each other. -/
theorem rel_of_common {α γ : Type} {S : α → γ → Prop} {S' : α → γ → Prop} {R : α → α → Prop}
    (join : ∀ a b c, S a c → S' b c → R a b) {a? b? : Option α} {c? : Option γ}
    (h : Option.Rel S a? c?) (h' : Option.Rel S' b? c?) : Option.Rel R a? b? := by
  cases h with
  | none =>
    cases h'
    exact .none
  | some hac =>
    cases h' with
    | some hbc => exact .some (join _ _ _ hac hbc)

/-- The sorted entries of a map tell what it finds. -/
theorem Assoc.find?_eq_of_ascending_eq {α : Type} {m m' : Assoc UInt32 α}
    (h : m.ascending = m'.ascending) (k : UInt32) : m.find? k = m'.find? k := by
  apply Option.ext
  intro v
  rw [← Assoc.mem_ascending, ← Assoc.mem_ascending, h]

/-- Tables that are compiled to the same table have the same content. -/
theorem sameContent_of_compile (multibyte : t.multibyte = t'.multibyte)
    (h : (compile t policy).outcome = .ok p) (h' : (compile t' policy).outcome = .ok p) :
    SameContent t t' := by
  refine ⟨multibyte, fun selector => ?_, fun selector => ?_⟩
  · refine rel_of_common (fun page page' charset from_page from_page' => ?_)
      (Search.rel_find?
        (R := fun page charset => CompiledFrom t.multibyte charset.selector page charset)
        (forall₂_charsets h) selector)
      (Search.rel_find?
        (R := fun page charset => CompiledFrom t'.multibyte charset.selector page charset)
        (forall₂_charsets h') selector)
    exact Assoc.find?_eq_of_ascending_eq (from_page.divides.whole.symm.trans from_page'.divides.whole)
  · refine rel_of_common (fun codes codes' set hcodes hcodes' code => ?_)
      (Search.rel_find?
        (R := fun codes (set : CombiningSet) => set.codes = (ascendingDistinct codes).toArray)
        (forall₂_combining h) selector)
      (Search.rel_find?
        (R := fun codes (set : CombiningSet) => set.codes = (ascendingDistinct codes).toArray)
        (forall₂_combining h') selector)
    have hsorted : ascendingDistinct codes = ascendingDistinct codes' := by
      simpa using hcodes.symm.trans hcodes'
    rw [← mem_ascendingDistinct, hsorted, mem_ascendingDistinct]

/-! ## Histories and orders of enumeration -/

/-- Two histories that leave the same content, enumerated in any two orders, are compiled alike,
with the same failure, reports and text. And nothing of the content is lost: what is compiled to the
same table had the same content. -/
theorem artifact_determined_by_content :
    (∀ (multibyte : Selector) (edits edits' : List Edit) (t t' : CodeTable),
      Reordered (.build multibyte edits) t → Reordered (.build multibyte edits') t' →
      SameContent (.build multibyte edits) (.build multibyte edits') → ∀ policy : Policy,
        (compile t policy).outcome = (compile t' policy).outcome ∧
        composeText t policy = composeText t' policy ∧
        ∀ p p', (compile t policy).outcome = .ok p → (compile t' policy).outcome = .ok p' →
          ∀ form, (render p form).toUTF8 = (render p' form).toUTF8) ∧
    (∀ (t t' : CodeTable) (policy : Policy) (p : CompiledTable), t.multibyte = t'.multibyte →
      (compile t policy).outcome = .ok p → (compile t' policy).outcome = .ok p →
        SameContent t t') := by
  constructor
  · intro multibyte edits edits' t t' order order' same policy
    have content : SameContent t t' :=
      (order.sameContent.symm.trans same).trans order'.sameContent
    have heq := compile_eq_of_sameContent content policy
    refine ⟨by rw [heq], by rw [composeText, composeText, heq], fun p p' h h' form => ?_⟩
    rw [heq, h'] at h
    rw [Except.ok.inj h]
  · intro t t' policy p multibyte h h'
    exact sameContent_of_compile multibyte h h'

/-- Codes added in one step or in two, a page replaced or not, and the maps of one table turned
round: the content is the same. -/
theorem artifact_determined_by_content_two_histories :
    let latin : Page := .ofList [(0x41, some 'A'), (0x42, none)]
    let latin' : Page := .ofList [(0x42, none), (0x41, some 'A')]
    let edits : List Edit :=
      [.insertPage 0x31 .empty, .insertPage 0x42 latin, .addCombining 0x45 [0xE2, 0xE1]]
    let edits' : List Edit :=
      [.addCombining 0x45 [0xE1], .insertPage 0x42 .empty, .insertPage 0x31 .empty,
        .addCombining 0x45 [0xE2, 0xE1], .insertPage 0x42 latin']
    let t : CodeTable :=
      ⟨0x31, ⟨[(0x31, .empty), (0x42, latin')], by decide⟩, ⟨[(0x45, [0xE2, 0xE1])], by decide⟩⟩
    let policy : Policy := ⟨[⟨5, 9⟩], ⟨1⟩, .sortedArray⟩
    let p : CompiledTable :=
      ⟨#[⟨0x45, #[0xE1, 0xE2]⟩],
        #[⟨0x31, .multibyte []⟩,
          ⟨0x42, .page [⟨⟨0, 0x41⟩, #[(0x41, some 'A')]⟩, ⟨⟨0x42, 0xFFFFFFFF⟩, #[(0x42, none)]⟩]⟩]⟩
    Reordered (.build 0x31 edits) t ∧
      composeText t policy = composeText (.build 0x31 edits') policy ∧
      (compile t policy).outcome = .ok p ∧ SameContent t (.build 0x31 edits') := by
  intro latin latin' edits edits' t policy p
  have order : Reordered (.build 0x31 edits) t := by
    refine ⟨rfl, ⟨[(0x31, .empty), (0x42, latin)], .swap _ _ _, ?_⟩, .refl _⟩
    exact .cons ⟨rfl, .refl _⟩ (.cons ⟨rfl, by decide⟩ .nil)
  have order' : Reordered (.build 0x31 edits') (.build 0x31 edits') :=
    ⟨rfl, ⟨_, .refl _, List.forall₂_same.mpr fun _ _ => ⟨rfl, .refl _⟩⟩, .refl _⟩
  have same : SameContent (.build 0x31 edits) (.build 0x31 edits') := by
    refine ⟨rfl, fun selector => ?_, fun selector => ?_⟩
    · have page : ∀ code, latin.find? code = latin'.find? code :=
        fun code => Assoc.find?_eq_of_perm (by decide) code
      simp only [CodeTable.build, CodeTable.apply, CodeTable.insertPage, CodeTable.addCombining,
        CodeTable.empty, List.foldl_cons, List.foldl_nil, Assoc.find?_insert, edits, edits']
      split_ifs
      · exact .some page
      · exact .some fun _ => rfl
      · exact .none
    · simp only [CodeTable.build, CodeTable.apply, CodeTable.insertPage, CodeTable.addCombining,
        CodeTable.empty, List.foldl_cons, List.foldl_nil, Assoc.find?_insert, edits, edits']
      split_ifs
      · exact .some (by simp)
      · exact .none
  have h : (compile t policy).outcome = .ok p := by cbv
  have alike := artifact_determined_by_content.1 0x31 edits edits' t _ order order' same policy
  exact ⟨order, alike.2.1, h, artifact_determined_by_content.2 t _ policy p rfl h (alike.1 ▸ h)⟩

end Marc8
