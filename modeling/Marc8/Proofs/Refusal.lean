/-
Marc8.Proofs.Refusal — exactly when a compilation fails, and how.

Only the multi-byte charset and the bands decide. `Refused` lists the three ways
in their order of precedence: a band is empty, two neighbouring bands do not
follow each other, a code of the charset lies in no band.

  `compile_fails_iff` — these are the failures of a compilation, each under
                        exactly its conditions; nothing else can go wrong, and
                        nothing else has a say in it.
-/
import Marc8.Proofs.Compilation

namespace Marc8

/-- The code is listed and lies in no band, and no lower code does. -/
structure Outside (bands : List Span) (page : Page) (code : Code) : Prop where
  listed : page.contains code = true
  outside : ∀ s ∈ bands, s.contains code = false
  least : ∀ code', page.contains code' = true → (∀ s ∈ bands, s.contains code' = false) →
    code ≤ code'

/-- Why the multi-byte charset is refused: for its bands, if they are out of order, and otherwise
for the least code that lies in none of them. -/
inductive Refused (bands : List Span) (page : Page) : Failure → Prop
  | bands {failure} (refused : BandsRefused bands failure) : Refused bands page failure
  | uncovered {code} (order : InOrder bands) (outside : Outside bands page code) :
      Refused bands page (.uncovered code)

variable {bands : List Span} {page : Page} {failure : Failure} {budget : Budget}

/-! ## The codes of a page -/

theorem exists_mem_ascending_iff {code : Code} :
    (∃ e ∈ page.ascending, e.1 = code) ↔ page.contains code = true := by
  rw [Assoc.contains, Option.isSome_iff_exists]
  constructor
  · rintro ⟨e, he, rfl⟩
    exact ⟨e.2, Assoc.mem_ascending.mp he⟩
  · rintro ⟨v, hv⟩
    exact ⟨(code, v), Assoc.mem_ascending.mpr hv, rfl⟩

theorem inSome_eq_false_iff {code : Code} :
    (!inSome bands code) = true ↔ ∀ s ∈ bands, s.contains code = false := by
  simp [inSome]

/-- The first entry in no band has the least code of all of them. -/
theorem outside_of_find? {e : Entry}
    (hfind : page.ascending.find? (fun e => !inSome bands e.1) = some e) :
    Outside bands page e.1 := by
  obtain ⟨houtside, front, back, split, hfront⟩ := List.find?_eq_some_iff_append.mp hfind
  have listed : page.contains e.1 = true :=
    exists_mem_ascending_iff.mp ⟨e, List.mem_of_find?_eq_some hfind, rfl⟩
  refine ⟨listed, inSome_eq_false_iff.mp houtside, fun code' hlisted hout => ?_⟩
  obtain ⟨e', he', rfl⟩ := exists_mem_ascending_iff.mpr hlisted
  have ascends := page.ascends_ascending
  rw [split] at he'
  rw [split, Ascends, List.pairwise_append] at ascends
  rcases List.mem_append.mp he' with he' | he'
  · -- An entry in front of the first one outside lies in a band.
    have hin := hfront e' he'
    rw [inSome_eq_false_iff.mpr hout] at hin
    cases hin
  · rcases List.mem_cons.mp he' with rfl | he'
    · exact UInt32.le_refl _
    · exact UInt32.le_of_lt ((List.pairwise_cons.mp ascends.2.1).1 e' he')

/-- A code outside all bands makes that some entry is found there. -/
theorem exists_find?_of_outside {code : Code} (listed : page.contains code = true)
    (hout : ∀ s ∈ bands, s.contains code = false) :
    ∃ e, page.ascending.find? (fun e => !inSome bands e.1) = some e := by
  obtain ⟨e, he, rfl⟩ := exists_mem_ascending_iff.mpr listed
  exact Option.isSome_iff_exists.mp
    (List.find?_isSome.mpr ⟨e, he, inSome_eq_false_iff.mpr hout⟩)

/-- There is one least code outside all bands. -/
theorem Outside.unique {code code' : Code} (h : Outside bands page code)
    (h' : Outside bands page code') : code = code' :=
  UInt32.le_antisymm (h.least code' h'.listed h'.outside) (h'.least code h.listed h.outside)

/-! ## The failures of the multi-byte charset -/

/-- Behind bands in order only the first entry in none of them can be reported. -/
theorem partition_eq_error_iff_of_inOrder (order : InOrder bands) :
    (partition page.ascending.toArray bands budget).outcome = .error failure ↔
      ∃ e, page.ascending.find? (fun e => !inSome bands e.1) = some e ∧
        failure = .uncovered e.1 := by
  cases hempty : page.ascending.toArray.isEmpty with
  | true =>
    have hnil : page.ascending = [] := by simpa using hempty
    rw [hnil, outcome_partition_empty order]
    simp
  | false =>
    obtain ⟨groups, _, houtcome⟩ := outcome_partition budget
      (ascends_toArray_ascending page) order hempty
    rw [houtcome]
    cases hfind : page.ascending.find? fun e => !inSome bands e.1 with
    | none => simp
    | some e => simp [eq_comm]

/-- The multi-byte charset cannot be partitioned exactly when it is refused. -/
theorem partition_eq_error_iff :
    (partition page.ascending.toArray bands budget).outcome = .error failure ↔
      Refused bands page failure := by
  cases hcheck : checkBands bands with
  | error cause =>
    have refused := checkBands_eq_error_iff.mp hcheck
    rw [outcome_partition_of_refused refused]
    constructor
    · intro h
      obtain rfl : cause = failure := by simpa using h
      exact .bands refused
    · rintro (refused' | ⟨order, _⟩)
      · have heq := hcheck.symm.trans (checkBands_eq_error_iff.mpr refused')
        simpa using heq
      · rw [checkBands_eq_ok_iff.mpr order] at hcheck
        cases hcheck
  | ok _ =>
    have order := checkBands_eq_ok_iff.mp hcheck
    rw [partition_eq_error_iff_of_inOrder order]
    constructor
    · rintro ⟨e, hfind, rfl⟩
      exact .uncovered order (outside_of_find? hfind)
    · rintro (refused | ⟨_, outside⟩)
      · rw [checkBands_eq_error_iff.mpr refused] at hcheck
        cases hcheck
      · obtain ⟨e, hfind⟩ := exists_find?_of_outside outside.listed outside.outside
        exact ⟨e, hfind, by rw [outside.unique (outside_of_find? hfind)]⟩

/-- There is a reason to refuse a charset when a band is empty, when bands do not follow each other,
or when a code lies in none of them. -/
theorem exists_refused_iff :
    (∃ failure, Refused bands page failure) ↔
      (∃ s ∈ bands, s.last < s.first) ∨
      ((∀ s ∈ bands, s.first ≤ s.last) ∧ ¬ bands.Pairwise fun s t => s.last < t.first) ∨
      (∃ code, page.contains code = true ∧ ∀ s ∈ bands, s.contains code = false) := by
  constructor
  · rintro ⟨failure, refused | ⟨_, outside⟩⟩
    · cases refused with
      | @empty front s back split _ wrong => exact .inl ⟨s, by simp [split], wrong⟩
      | @order front s t back split nonempty _ wrong =>
        refine .inr (.inl ⟨nonempty, fun before => wrong ?_⟩)
        rw [split, List.pairwise_append, List.pairwise_cons] at before
        exact before.2.1.1 t (by simp)
    · exact .inr (.inr ⟨_, outside.listed, outside.outside⟩)
  · intro h
    cases hcheck : checkBands bands with
    | error cause => exact ⟨cause, .bands (checkBands_eq_error_iff.mp hcheck)⟩
    | ok _ =>
      have order := checkBands_eq_ok_iff.mp hcheck
      rcases h with ⟨s, hs, hempty⟩ | ⟨_, overlap⟩ | ⟨code, hlisted, hout⟩
      · exact absurd hempty (UInt32.not_lt.mpr (order.nonempty s hs))
      · exact absurd order.before overlap
      · obtain ⟨e, hfind⟩ := exists_find?_of_outside hlisted hout
        exact ⟨_, .uncovered order (outside_of_find? hfind)⟩

/-- A table is compiled if its multi-byte charset lies in bands that are in order. -/
theorem exists_compiled {t : CodeTable} {policy : Policy} (order : InOrder policy.bands)
    (covered : ∀ page, t.pages.find? t.multibyte = some page →
      ∀ code, page.contains code = true → inSome policy.bands code = true) :
    ∃ p, (compile t policy).outcome = .ok p := by
  cases houtcome : (compile t policy).outcome with
  | ok p => exact ⟨p, rfl⟩
  | error failure =>
    obtain ⟨page, hfind, hfail⟩ := compile_eq_error_iff.mp houtcome
    cases partition_eq_error_iff.mp hfail with
    | bands refused =>
      have haccepted := checkBands_eq_ok_iff.mpr order
      rw [checkBands_eq_error_iff.mpr refused] at haccepted
      cases haccepted
    | @uncovered code _ outside =>
      obtain ⟨s, hs, hcontains⟩ := inSome_iff.mp (covered page hfind code outside.listed)
      exact absurd hcontains (by simp [outside.outside s hs])

/-! ## The failures of a compilation -/

/-- A compilation fails exactly when the table has a multi-byte charset and this is refused, for the
reason for which it is refused. So it never cuts below code zero or between ends out of order, never
finds a code in two blocks, and neither the other charsets nor the budget or the form of blocks have
a say in it. -/
theorem compile_fails_iff (t : CodeTable) (policy : Policy) :
    (∀ failure, (compile t policy).outcome = .error failure ↔
      ∃ page, t.pages.find? t.multibyte = some page ∧ Refused policy.bands page failure) ∧
    ((∃ failure, (compile t policy).outcome = .error failure) ↔
      ∃ page, t.pages.find? t.multibyte = some page ∧
        ((∃ s ∈ policy.bands, s.last < s.first) ∨
          ((∀ s ∈ policy.bands, s.first ≤ s.last) ∧
            ¬ policy.bands.Pairwise fun s t => s.last < t.first) ∨
          (∃ code, page.contains code = true ∧ ∀ s ∈ policy.bands, s.contains code = false))) ∧
    ((compile t policy).outcome ≠ .error .nothingBelowZero ∧
      (∀ code, (compile t policy).outcome ≠ .error (.contested code)) ∧
      ∀ page, t.pages.find? t.multibyte = some page → checkBands policy.bands = .ok () →
        ∀ s ∈ policy.bands,
          Search.boundary (fun e => e.1 < s.first) page.ascending.toArray ≤
              Search.boundary (fun e => e.1 ≤ s.last) page.ascending.toArray ∧
            Search.boundary (fun e => e.1 ≤ s.last) page.ascending.toArray ≤ page.size) ∧
    (t.pages.find? t.multibyte = some .empty → ∀ failure,
      (compile t policy).outcome = .error failure ↔ BandsRefused policy.bands failure) ∧
    (∀ t' policy', t'.multibyte = t.multibyte →
      t'.pages.find? t.multibyte = t.pages.find? t.multibyte → policy'.bands = policy.bands →
      ∀ failure, (compile t' policy').outcome = .error failure ↔
        (compile t policy).outcome = .error failure) := by
  have fails : ∀ t policy failure, (compile t policy).outcome = .error failure ↔
      ∃ page, t.pages.find? t.multibyte = some page ∧ Refused policy.bands page failure := by
    intro t policy failure
    simp only [compile_eq_error_iff, partition_eq_error_iff]
  refine ⟨fails t policy, ?_, ⟨?_, ?_, ?_⟩, ?_, ?_⟩
  · simp only [fails, ← exists_refused_iff]
    rw [exists_comm]
    simp only [exists_and_left]
  · rw [ne_eq, fails]
    rintro ⟨page, _, refused⟩
    cases refused with
    | bands refused => cases refused
  · intro code
    rw [ne_eq, fails]
    rintro ⟨page, _, refused⟩
    cases refused with
    | bands refused => cases refused
  · intro page _ hcheck s hs
    have nonempty := (checkBands_eq_ok_iff.mp hcheck).nonempty s hs
    have order := boundary_le_boundary nonempty (ascends_toArray_ascending page).le
    have hsize : page.ascending.toArray.size = page.size := page.ascending_perm.length_eq
    rwa [hsize] at order
  · intro hempty failure
    rw [fails]
    constructor
    · rintro ⟨page, hfind, refused⟩
      obtain rfl : page = .empty := by simpa [hempty, eq_comm] using hfind
      cases refused with
      | bands refused => exact refused
      | uncovered _ outside => exact absurd outside.listed (by simp [Assoc.contains])
    · intro refused
      exact ⟨.empty, hempty, .bands refused⟩
  · intro t' policy' hmultibyte hpage hbands failure
    rw [fails, fails, hmultibyte, hpage, hbands]

/-- Three codes, the one in the middle between two bands; and a charset without codes, which is still
refused for a band that is empty. -/
theorem compile_fails_iff_between_bands :
    let t : CodeTable := .build 0x31
      [.insertPage 0x31 (.ofList [(5, none), (3, some 'a'), (0, none)])]
    let t' : CodeTable := .build 0x31 [.insertPage 0x31 .empty]
    (compile t ⟨[⟨0, 2⟩, ⟨4, 9⟩], ⟨1⟩, .matchTree⟩).outcome = .error (.uncovered 3) ∧
      (compile t' ⟨[⟨9, 4⟩], ⟨1⟩, .sortedArray⟩).outcome = .error (.emptyBand ⟨9, 4⟩) := by
  intro t t'
  have outside : Outside [⟨0, 2⟩, ⟨4, 9⟩] (.ofList [(5, none), (3, some 'a'), (0, none)]) 3 := by
    refine ⟨by decide, by decide, fun code hlisted hout => ?_⟩
    obtain ⟨e, he, rfl⟩ := exists_mem_ascending_iff.mpr hlisted
    have hentries : (Assoc.ofList [(5, none), (3, some 'a'), (0, none)] : Page).entries =
        [(0, none), (3, some 'a'), (5, none)] := by decide
    rw [(Assoc.ascending_perm _).mem_iff, hentries] at he
    simp only [List.mem_cons, List.not_mem_nil, or_false] at he
    rcases he with rfl | rfl | rfl
    · exact absurd (hout ⟨0, 2⟩ (by simp)) (by decide)
    · decide
    · decide
  constructor
  · exact ((compile_fails_iff t _).1 _).mpr ⟨_, rfl, .uncovered ⟨by decide, by decide⟩ outside⟩
  · exact ((compile_fails_iff t' ⟨[⟨9, 4⟩], ⟨1⟩, .sortedArray⟩).2.2.2.1 rfl _).mpr
      (@BandsRefused.empty _ [] ⟨9, 4⟩ [] rfl (by simp) (by decide))

end Marc8
