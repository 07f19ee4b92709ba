/-
Marc8.Proofs.Compilation — compilation, charset by charset.

A compilation goes through the charsets in ascending order and ends at the first
that fails. Only the multi-byte charset can fail, and there is one at most, so:

  `compile_eq_ok_iff`    — it succeeds when every charset does, and the compiled
                           table holds what they give;
  `compile_eq_error_iff` — it fails when the multi-byte charset does, with the
                           same failure.
-/
import Marc8.Proofs.Banding

namespace Marc8

open Block

variable {policy : Policy} {multibyte selector : Selector} {page : Page} {failure : Failure}

/-! ## One charset -/

/-- The entries of a page, as they are handed to the cutters, ascend. -/
theorem ascends_toArray_ascending (page : Page) :
    Ascends Prod.fst page.ascending.toArray.toList := by
  simpa using page.ascends_ascending

/-- A charset of one or two bytes is tiled over all codes, without fail. -/
theorem compileCharset_page (policy : Policy) (page : Page) (h : selector ≠ multibyte) :
    ∃ blocks, (compileCharset policy multibyte selector page).outcome =
        .ok ⟨selector, .page blocks⟩ ∧
      Tiling policy.budget Span.full page.ascending blocks := by
  obtain ⟨blocks, houtcome, tiling, _⟩ :=
    outcome_tilePage policy.budget (ascends_toArray_ascending page)
  refine ⟨blocks, ?_, by simpa using tiling⟩
  unfold compileCharset
  rw [if_neg h, Run.bind_ok houtcome]
  rfl

/-- The multi-byte charset is partitioned, and nothing else can go wrong with it. -/
theorem compileCharset_multibyte :
    (compileCharset policy multibyte multibyte page).outcome =
      (partition page.ascending.toArray policy.bands policy.budget).outcome.map
        fun blocks => ⟨multibyte, .multibyte blocks⟩ := by
  unfold compileCharset
  rw [if_pos rfl]
  cases h : (partition page.ascending.toArray policy.bands policy.budget).outcome with
  | ok blocks => rw [Run.bind_ok h]; rfl
  | error failure => rw [Run.bind_error h]; rfl

/-- What becomes of a charset: the multi-byte one is partitioned, and any other is tiled over all
codes. -/
theorem compileCharset_cases {charset : Charset}
    (h : (compileCharset policy multibyte selector page).outcome = .ok charset) :
    (selector = multibyte ∧ ∃ blocks, charset = ⟨selector, .multibyte blocks⟩ ∧
      (partition page.ascending.toArray policy.bands policy.budget).outcome = .ok blocks) ∨
    (selector ≠ multibyte ∧ ∃ blocks, charset = ⟨selector, .page blocks⟩ ∧
      Tiling policy.budget Span.full page.ascending blocks) := by
  by_cases hselector : selector = multibyte
  · subst hselector
    rw [compileCharset_multibyte] at h
    cases hpart : (partition page.ascending.toArray policy.bands policy.budget).outcome with
    | error cause => simp [hpart, Except.map] at h
    | ok blocks =>
      obtain rfl : _ = charset := by simpa [hpart, Except.map] using h
      exact .inl ⟨rfl, blocks, rfl, rfl⟩
  · obtain ⟨blocks, houtcome, tiling⟩ := compileCharset_page policy page hselector
    obtain rfl : _ = charset := by simpa [houtcome] using h
    exact .inr ⟨hselector, blocks, rfl, tiling⟩

/-! ## All charsets -/

/-- Several charsets succeed when each does. -/
theorem compileCharsets_eq_ok_iff : ∀ {pages : List (Selector × Page)} {charsets : List Charset},
    (compileCharsets policy multibyte pages).outcome = .ok charsets ↔
      List.Forall₂ (fun sp charset =>
        (compileCharset policy multibyte sp.1 sp.2).outcome = .ok charset) pages charsets
  | [], charsets => by
    rw [compileCharsets, List.forall₂_nil_left_iff]
    simp [eq_comm]
  | (selector, page) :: rest, charsets => by
    rw [compileCharsets, Run.outcome_bind_eq_ok, List.forall₂_cons_left_iff]
    simp only [Run.outcome_bind_eq_ok, @compileCharsets_eq_ok_iff rest, Run.outcome_pure,
      Except.ok.injEq]
    constructor
    · rintro ⟨charset, hcharset, more, hmore, rfl⟩
      exact ⟨charset, more, hcharset, hmore, rfl⟩
    · rintro ⟨charset, more, hcharset, hmore, rfl⟩
      exact ⟨charset, hcharset, more, hmore, rfl⟩

/-- Several charsets fail when one does, and those before it succeed. -/
theorem compileCharsets_eq_error_iff : ∀ {pages : List (Selector × Page)},
    (compileCharsets policy multibyte pages).outcome = .error failure ↔
      ∃ front selector page back, pages = front ++ (selector, page) :: back ∧
        (∀ sp ∈ front, ∃ charset,
          (compileCharset policy multibyte sp.1 sp.2).outcome = .ok charset) ∧
        (compileCharset policy multibyte selector page).outcome = .error failure
  | [] => by simp [compileCharsets]
  | (selector, page) :: rest => by
    rw [compileCharsets, Run.outcome_bind_eq_error]
    simp only [Run.outcome_bind_eq_error, @compileCharsets_eq_error_iff rest,
      Run.outcome_pure, reduceCtorEq, and_false, exists_false, or_false]
    constructor
    · rintro (hfirst | ⟨charset, hcharset, front, selector', page', back, rfl, hfront, hfail⟩)
      · exact ⟨[], selector, page, rest, rfl, by simp, hfirst⟩
      · refine ⟨(selector, page) :: front, selector', page', back, rfl, ?_, hfail⟩
        intro sp hsp
        rcases List.mem_cons.mp hsp with rfl | hsp
        · exact ⟨charset, hcharset⟩
        · exact hfront sp hsp
    · rintro ⟨front, selector', page', back, heq, hfront, hfail⟩
      cases front with
      | nil =>
        obtain ⟨⟨rfl, rfl⟩, rfl⟩ := by simpa using heq
        exact .inl hfail
      | cons sp front =>
        obtain ⟨rfl, rfl⟩ := List.cons.inj heq
        obtain ⟨charset, hcharset⟩ := hfront (selector, page) (by simp)
        exact .inr ⟨charset, hcharset, front, selector', page', back, rfl,
          fun sp hsp => hfront sp (List.mem_cons_of_mem _ hsp), hfail⟩

/-! ## The table -/

variable {t : CodeTable} {p : CompiledTable}

/-- A compilation succeeds when every charset does. -/
theorem compile_eq_ok_iff :
    (compile t policy).outcome = .ok p ↔
      p.combining.toList = compileCombining t ∧
      List.Forall₂ (fun sp charset =>
        (compileCharset policy t.multibyte sp.1 sp.2).outcome = .ok charset)
        t.pages.ascending p.charsets.toList := by
  obtain ⟨⟨combining⟩, ⟨charsets⟩⟩ := p
  rw [compile, Run.outcome_bind_eq_ok]
  simp only [compileCharsets_eq_ok_iff, Run.outcome_pure, Except.ok.injEq, CompiledTable.mk.injEq,
    Array.mk.injEq]
  constructor
  · rintro ⟨charsets, hcharsets, rfl, rfl⟩
    exact ⟨rfl, hcharsets⟩
  · rintro ⟨rfl, hcharsets⟩
    exact ⟨charsets, hcharsets, rfl, rfl⟩

/-- A compilation fails when the multi-byte charset cannot be partitioned. -/
theorem compile_eq_error_iff :
    (compile t policy).outcome = .error failure ↔
      ∃ page, t.pages.find? t.multibyte = some page ∧
        (partition page.ascending.toArray policy.bands policy.budget).outcome = .error failure := by
  rw [compile, Run.outcome_bind_eq_error]
  simp only [compileCharsets_eq_error_iff, Run.outcome_pure, reduceCtorEq, and_false, exists_false,
    or_false]
  constructor
  · rintro ⟨front, selector, page, back, heq, _, hfail⟩
    by_cases h : selector = t.multibyte
    · subst h
      refine ⟨page, Assoc.mem_ascending.mp (by simp [heq]), ?_⟩
      rw [compileCharset_multibyte] at hfail
      cases hpart : (partition page.ascending.toArray policy.bands policy.budget).outcome with
      | ok blocks => simp [hpart, Except.map] at hfail
      | error cause => simpa [hpart, Except.map] using hfail
    · obtain ⟨blocks, hok, _⟩ := compileCharset_page policy page h
      rw [hok] at hfail
      cases hfail
  · rintro ⟨page, hfind, hfail⟩
    obtain ⟨front, back, heq⟩ := List.append_of_mem (Assoc.mem_ascending.mpr hfind)
    refine ⟨front, t.multibyte, page, back, heq, fun sp hsp => ?_, ?_⟩
    · -- The charsets in front have lower selectors, so none of them is the multi-byte one.
      have ascends := t.pages.ascends_ascending
      rw [heq, Ascends, List.pairwise_append] at ascends
      have hlt : sp.1 < t.multibyte := ascends.2.2 sp hsp (t.multibyte, page) (by simp)
      obtain ⟨blocks, hok, _⟩ :=
        compileCharset_page policy sp.2 (Std.ne_of_lt hlt)
      exact ⟨_, hok⟩
    · rw [compileCharset_multibyte, hfail]
      rfl

end Marc8
