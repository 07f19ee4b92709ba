/-
Marc8.Proofs.Repeats — entries among which codes repeat.

A compiled charset has one entry for a code, but the cutters do not rely on it:
entries under one code may end up in two blocks, and spans made between them may
be wrong or even empty. The verifier sees it. `Owned` says which blocks own a
code, by the chunks that its entries stand in, and `Flaw` what is then wrong
with it; a code that is in some band and in one chunk has nothing wrong.

  `Cut.owned`              — the owners of a code among the blocks of a span;
  `BandCuts.verifyCode_eq_error_iff` — the verifier finds what is wrong with a
                             code, and nothing else;
  `cutting_reports_least_flaw` — entries that do not descend are cut exactly
                             when no code has a flaw, and otherwise the least
                             such code is reported.
-/
import Marc8.Proofs.Banding

namespace Marc8

open Block

namespace Block

/-! ## Who owns a code -/

/-- The owners of a code among the blocks that its entries are cut into. -/
inductive Owned (room : Nat) (entries : List Entry) (code : Code) : List Block → Prop
  /-- A code without entries has none. -/
  | absent (unlisted : ∀ e ∈ entries, e.1 ≠ code) : Owned room entries code []
  /-- A code with entries in one chunk has one, and lies in its span. -/
  | once {owner} (listed : ∃ e ∈ entries, e.1 = code) (together : ¬ Straddles room entries code)
      (holds : owner.span.contains code = true) : Owned room entries code [owner]
  /-- A code with entries in two chunks has several. -/
  | often {a b more} (straddles : Straddles room entries code) :
      Owned room entries code (a :: b :: more)

variable {budget : Budget} {first last code : Code} {entries : List Entry} {blocks : List Block}

theorem owners_append (front back : List Block) (code : Code) :
    owners (front ++ back) code = owners front code ++ owners back code :=
  List.filter_append ..

/-- A block that lists the code is one of its owners. -/
theorem owners_cons_of_lists {b : Block} (h : b.lists code = true) (blocks : List Block) :
    owners (b :: blocks) code = b :: owners blocks code :=
  List.filter_cons_of_pos h

/-- A block that does not list the code is none of its owners. -/
theorem owners_cons_of_not_lists {b : Block} (h : ¬ b.lists code = true) (blocks : List Block) :
    owners (b :: blocks) code = owners blocks code :=
  List.filter_cons_of_neg h

/-- A code without entries has no owner. -/
theorem Owned.eq_nil {room : Nat} (h : Owned room entries code blocks)
    (unlisted : ∀ e ∈ entries, e.1 ≠ code) : blocks = [] := by
  cases h with
  | absent _ => rfl
  | once listed _ _ =>
    obtain ⟨e, he, hcode⟩ := listed
    exact absurd hcode (unlisted e he)
  | often straddles =>
    obtain ⟨e, he, hcode⟩ := straddles.exists_mem
    exact absurd hcode (unlisted e he)

/-- A block lists the codes of its entries, also when they repeat. -/
theorem lists_iff_of_le {b : Block} (order : b.entries.toList.Pairwise fun x y => x.1 ≤ y.1) :
    b.lists code = true ↔ ∃ e ∈ b.entries.toList, e.1 = code := by
  rw [lists, Search.isSome_find?_iff_of_le order]
  simp only [Array.mem_toList_iff]

/-- Behind a full block that does not list the code, its owners are those behind the block. -/
theorem Owned.behind {front back : List Entry} (h : Owned budget.room back code blocks)
    (full : front.length = budget.room) (unlisted : ¬ ∃ e ∈ front, e.1 = code) :
    Owned budget.room (front ++ back) code blocks := by
  have straddles_iff : Straddles budget.room (front ++ back) code ↔
      Straddles budget.room back code := by
    rw [straddles_append full budget.room_pos]
    simp only [unlisted, false_and, false_or]
  cases h with
  | absent absent =>
    refine .absent fun e he hcode => ?_
    rcases List.mem_append.mp he with he | he
    · exact unlisted ⟨e, he, hcode⟩
    · exact absent e he hcode
  | once listed together holds =>
    obtain ⟨e, he, hcode⟩ := listed
    exact .once ⟨e, List.mem_append_right _ he, hcode⟩ (straddles_iff.not.mpr together) holds
  | often straddles => exact .often (straddles_iff.mpr straddles)

/-- A full block that lists the code and ends below the next chunk is one more owner. -/
theorem Owned.cons {front back : List Entry} {b : Block} (h : Owned budget.room back code blocks)
    (full : front.length = budget.room) (listed : ∃ e ∈ front, e.1 = code)
    (holds : (∀ e ∈ back, e.1 ≠ code) → b.span.contains code = true) :
    Owned budget.room (front ++ back) code (b :: blocks) := by
  have straddles_iff : Straddles budget.room (front ++ back) code ↔
      ((∃ e ∈ front, e.1 = code) ∧ ∃ e ∈ back, e.1 = code) ∨ Straddles budget.room back code :=
    straddles_append full budget.room_pos
  cases h with
  | absent absent =>
    obtain ⟨e, he, hcode⟩ := listed
    refine .once ⟨e, List.mem_append_left _ he, hcode⟩ ?_ (holds absent)
    rw [straddles_iff]
    intro h
    rcases h with ⟨_, x, hx, hxcode⟩ | straddles
    · exact absent x hx hxcode
    · obtain ⟨x, hx, hxcode⟩ := straddles.exists_mem
      exact absent x hx hxcode
  | once behind _ _ => exact .often (straddles_iff.mpr (.inl ⟨listed, behind⟩))
  | often straddles => exact .often (straddles_iff.mpr (.inr straddles))

/-- Who owns a code, when entries in a span are cut that do not descend. -/
theorem Cut.owned (h : Cut budget last first entries blocks)
    (order : entries.Pairwise fun a b => a.1 ≤ b.1)
    (within : ∀ e ∈ entries, (Span.mk first last).contains e.1 = true) (code : Code) :
    Owned budget.room entries code (owners blocks code) := by
  induction h with
  | @whole first entries fits =>
    have lists := @lists_iff_of_le code ⟨⟨first, last⟩, entries.toArray⟩ order
    by_cases listed : ∃ e ∈ entries, e.1 = code
    · obtain ⟨e, he, hcode⟩ := listed
      rw [owners_cons_of_lists (lists.mpr ⟨e, he, hcode⟩)]
      exact .once ⟨e, he, hcode⟩ (not_straddles_of_length_le fits) (hcode ▸ within e he)
    · rw [owners_cons_of_not_lists (lists.not.mpr listed)]
      exact .absent fun e he hcode => listed ⟨e, he, hcode⟩
  | @step first front next rest more full positive back ih =>
    obtain ⟨front_order, back_order, below⟩ := List.pairwise_append.mp order
    have back_within : ∀ e ∈ next :: rest, (Span.mk next.1 last).contains e.1 = true := by
      intro e he
      have hle := (Span.contains_iff.mp (within e (List.mem_append_right _ he))).2
      refine Span.contains_iff.mpr ⟨?_, hle⟩
      rcases List.mem_cons.mp he with rfl | he
      · exact Nat.le_refl _
      · exact UInt32.le_iff_toNat_le.mp ((List.pairwise_cons.mp back_order).1 e he)
    have behind := ih back_order back_within
    have lists := @lists_iff_of_le code ⟨⟨first, next.1 - 1⟩, front.toArray⟩ front_order
    by_cases listed : ∃ e ∈ front, e.1 = code
    · rw [owners_cons_of_lists (lists.mpr listed)]
      refine behind.cons full listed fun absent => ?_
      -- The code is not above that of the next chunk, and is not the same.
      obtain ⟨e, he, rfl⟩ := listed
      have hge := (Span.contains_iff.mp (within e (List.mem_append_left _ he))).1
      have hle := UInt32.le_iff_toNat_le.mp (below e he next (by simp))
      have hne : next.1.toNat ≠ e.1.toNat := fun heq => absent next (by simp) (UInt32.toNat_inj.mp heq)
      have hend := toNat_sub_one_add_one positive
      exact Span.contains_iff.mpr ⟨hge, by simp only; omega⟩
    · rw [owners_cons_of_not_lists (lists.not.mpr listed)]
      exact behind.behind full listed

end Block

/-! ## Flaws -/

/-- What is wrong with a code, when some entries are cut by bands: it lies in none of them, or two
chunks of a band have entries for it. -/
inductive Flaw (bands : List Span) (room : Nat) (entries : List Entry) (code : Code) :
    Failure → Prop
  | uncovered (outside : ∀ s ∈ bands, s.contains code = false) :
      Flaw bands room entries code (.uncovered code)
  | contested {s} (band : s ∈ bands)
      (straddles : Straddles room (entries.filter fun e => s.contains e.1) code) :
      Flaw bands room entries code (.contested code)

/-- What becomes of each band: its own entries, cut. -/
abbrev BandCuts (budget : Budget) (entries : List Entry) (bands : List Span)
    (groups : List (List Block)) : Prop :=
  List.Forall₂ (fun band group =>
    Cut budget band.last band.first (entries.filter fun e => band.contains e.1) group) bands groups

section Bands

variable {bands : List Span} {budget : Budget} {entries : List Entry} {code : Code}
  {groups : List (List Block)} {failure : Failure}

/-- A code that stands in two chunks of a band lies in it. -/
theorem contains_of_straddles {room : Nat} {s : Span}
    (h : Straddles room (entries.filter fun e => s.contains e.1) code) :
    s.contains code = true := by
  obtain ⟨e, he, rfl⟩ := h.exists_mem
  exact (List.mem_filter.mp he).2

/-- The owners of a code among the blocks of one band. -/
theorem owned_of_cut {band : Span} {group : List Block}
    (cut : Cut budget band.last band.first (entries.filter fun e => band.contains e.1) group)
    (order : entries.Pairwise fun a b => a.1 ≤ b.1) (code : Code) :
    Owned budget.room (entries.filter fun e => band.contains e.1) code (owners group code) :=
  cut.owned (order.sublist List.filter_sublist) (fun _ he => (List.mem_filter.mp he).2) code

/-- The blocks of a band do not own codes outside of it. -/
theorem owners_eq_nil_of_cut {band : Span} {group : List Block}
    (cut : Cut budget band.last band.first (entries.filter fun e => band.contains e.1) group)
    (order : entries.Pairwise fun a b => a.1 ≤ b.1) (outside : band.contains code = false) :
    owners group code = [] := by
  refine (owned_of_cut cut order code).eq_nil fun e he hcode => ?_
  have inside := (List.mem_filter.mp he).2
  rw [hcode, outside] at inside
  cases inside

/-- A code in no band has no owner. -/
theorem BandCuts.owners_eq_nil (h : BandCuts budget entries bands groups)
    (order : entries.Pairwise fun a b => a.1 ≤ b.1)
    (outside : ∀ s ∈ bands, s.contains code = false) : owners groups.flatten code = [] := by
  induction h with
  | nil => rfl
  | cons cut _ ih =>
    rw [List.flatten_cons, owners_append]
    exact List.append_eq_nil_iff.mpr ⟨owners_eq_nil_of_cut cut order (outside _ (by simp)),
      ih fun s hs => outside s (List.mem_cons_of_mem _ hs)⟩

/-- The owners of a code in a band are those among the blocks of that band. -/
theorem BandCuts.owned (h : BandCuts budget entries bands groups) (inOrder : InOrder bands)
    (order : entries.Pairwise fun a b => a.1 ≤ b.1) {s : Span} (hs : s ∈ bands)
    (hcode : s.contains code = true) :
    Owned budget.room (entries.filter fun e => s.contains e.1) code
      (owners groups.flatten code) := by
  induction h with
  | nil => cases hs
  | @cons band group rest groups cut cuts ih =>
    have first_before := (List.pairwise_cons.mp inOrder.before).1
    rw [List.flatten_cons, owners_append]
    rcases List.mem_cons.mp hs with rfl | hs
    · have behind := BandCuts.owners_eq_nil cuts order fun t ht => (first_before t ht).disjoint hcode
      rw [behind, List.append_nil]
      exact owned_of_cut cut order code
    · have outside : band.contains code = false := by
        rw [← Bool.not_eq_true]
        intro hband
        simp [(first_before s hs).disjoint hband] at hcode
      have front := owners_eq_nil_of_cut cut order outside
      rw [front, List.nil_append]
      exact ih inOrder.tail hs

/-- The verifier reports of a listed code what is wrong with it, if anything is. -/
theorem BandCuts.verifyCode_eq_error_iff (h : BandCuts budget entries bands groups)
    (inOrder : InOrder bands) (order : entries.Pairwise fun a b => a.1 ≤ b.1) {e : Entry}
    (he : e ∈ entries) :
    verifyCode groups.flatten e.1 = .error failure ↔
      Flaw bands budget.room entries e.1 failure := by
  by_cases outside : ∀ s ∈ bands, s.contains e.1 = false
  · simp only [verifyCode, h.owners_eq_nil order outside, Except.error.injEq]
    constructor
    · intro hfailure
      subst hfailure
      exact .uncovered outside
    · intro flaw
      cases flaw with
      | uncovered _ => rfl
      | contested hs straddles =>
        have inside := contains_of_straddles straddles
        rw [outside _ hs] at inside
        cases inside
  · obtain ⟨s, hs, hcode⟩ : ∃ s ∈ bands, s.contains e.1 = true := by simpa using outside
    have listed : e ∈ entries.filter fun x => s.contains x.1 := List.mem_filter.mpr ⟨he, hcode⟩
    have flaw_iff : Flaw bands budget.room entries e.1 failure ↔
        Straddles budget.room (entries.filter fun x => s.contains x.1) e.1 ∧
          failure = .contested e.1 := by
      constructor
      · intro flaw
        cases flaw with
        | uncovered out => exact absurd out outside
        | @contested t ht straddles =>
          -- Bands in order share no code, so it is the same band.
          have hsame : s = t := 
            @Span.eq_of_contains _ id _ inOrder.before _ _ hs ht _ hcode
              (contains_of_straddles straddles)
          exact ⟨hsame ▸ straddles, rfl⟩
      · rintro ⟨straddles, rfl⟩
        exact .contested hs straddles
    rw [flaw_iff, verifyCode]
    have owned := h.owned inOrder order hs hcode
    revert owned
    generalize owners groups.flatten e.1 = found
    intro owned
    cases owned with
    | absent unlisted => exact absurd rfl (unlisted e listed)
    | once _ together holds => simp [holds, together]
    | often straddles => simp [straddles, eq_comm]

/-! ## The verdict -/

/-- Entries are verified when each code is. -/
theorem verify_eq_ok_iff {blocks : List Block} : ∀ {entries : List Entry},
    verify blocks entries = .ok () ↔ ∀ e ∈ entries, verifyCode blocks e.1 = .ok ()
  | [] => by simp [verify]
  | e :: rest => by
    rw [verify, List.forall_mem_cons]
    cases h : verifyCode blocks e.1 with
    | error cause => simp
    | ok _ => simp [@verify_eq_ok_iff blocks rest]

/-- Of entries that do not descend the verifier reports the least code that it finds fault with. -/
theorem verify_eq_error_iff {blocks : List Block} : ∀ {entries : List Entry},
    entries.Pairwise (fun a b => a.1 ≤ b.1) →
    (verify blocks entries = .error failure ↔
      ∃ e ∈ entries, verifyCode blocks e.1 = .error failure ∧
        ∀ e' ∈ entries, ∀ cause, verifyCode blocks e'.1 = .error cause → e.1 ≤ e'.1)
  | [], _ => by simp [verify]
  | e :: rest, order => by
    obtain ⟨front, back⟩ := List.pairwise_cons.mp order
    rw [verify]
    cases h : verifyCode blocks e.1 with
    | error cause =>
      simp only [Except.error.injEq]
      constructor
      · intro heq
        subst heq
        refine ⟨e, by simp, h, fun e' he' _ _ => ?_⟩
        rcases List.mem_cons.mp he' with rfl | he'
        · exact UInt32.le_refl _
        · exact front e' he'
      · rintro ⟨x, hx, hfail, least⟩
        -- The head has a fault, so what is reported is not behind another code.
        have hle : x.1 ≤ e.1 := least e (by simp) cause h
        have hge : e.1 ≤ x.1 := by
          rcases List.mem_cons.mp hx with rfl | hx
          · exact UInt32.le_refl _
          · exact front x hx
        rw [UInt32.le_antisymm hle hge, h] at hfail
        exact Except.error.inj hfail
    | ok _ =>
      simp only
      rw [verify_eq_error_iff back]
      constructor
      · rintro ⟨x, hx, hfail, least⟩
        refine ⟨x, List.mem_cons_of_mem _ hx, hfail, fun e' he' cause hcause => ?_⟩
        rcases List.mem_cons.mp he' with rfl | he'
        · rw [h] at hcause
          cases hcause
        · exact least e' he' cause hcause
      · rintro ⟨x, hx, hfail, least⟩
        rcases List.mem_cons.mp hx with rfl | hx
        · rw [h] at hfail
          cases hfail
        · exact ⟨x, hx, hfail, fun e' he' => least e' (List.mem_cons_of_mem _ he')⟩

/-- What comes of cutting entries by bands that are in order. The chunks of a band hold as many
entries as the budget allows, and a budget of zero counts as one. -/
structure Verdict (bands : List Span) (budget : Budget) (entries : List Entry)
    (outcome : Except Failure (List Block)) : Prop where
  /-- No block would have to end below code zero. -/
  positive : outcome ≠ .error .nothingBelowZero
  /-- There are blocks exactly when every code lies in some band and stands in one chunk only. -/
  accepts : (∃ blocks, outcome = .ok blocks) ↔
    ∀ e ∈ entries, (∃ s ∈ bands, s.contains e.1 = true) ∧
      ∀ s ∈ bands,
        ¬ Straddles (max budget.maxEntries 1) (entries.filter fun x => s.contains x.1) e.1
  /-- Otherwise the least code is reported that has a flaw, for that flaw. -/
  rejects : ∀ failure, outcome = .error failure ↔
    ∃ e ∈ entries, Flaw bands (max budget.maxEntries 1) entries e.1 failure ∧
      ∀ e' ∈ entries, ∀ cause, Flaw bands (max budget.maxEntries 1) entries e'.1 cause → e.1 ≤ e'.1
  /-- No code is reported as lying in no band when it lies in one. -/
  covered : ∀ code, outcome = .error (.uncovered code) → ∀ s ∈ bands, s.contains code = false

/-- A code has no flaw when it lies in some band and stands in one chunk of every band. -/
theorem forall_not_flaw_iff {room : Nat} :
    (∀ cause, ¬ Flaw bands room entries code cause) ↔
      (∃ s ∈ bands, s.contains code = true) ∧
        ∀ s ∈ bands, ¬ Straddles room (entries.filter fun x => s.contains x.1) code := by
  constructor
  · intro sound
    refine ⟨?_, fun s hs straddles => sound _ (.contested hs straddles)⟩
    by_contra outside
    refine sound _ (.uncovered fun s hs => ?_)
    rw [← Bool.not_eq_true]
    exact fun hcode => outside ⟨s, hs, hcode⟩
  · intro ⟨⟨s, hs, hcode⟩, together⟩ cause flaw
    cases flaw with
    | uncovered outside => simp [outside s hs] at hcode
    | contested ht straddles => exact together _ ht straddles

/-- When the verifier decides about what was cut by bands, the flaws of the codes decide. -/
theorem BandCuts.verdict (h : BandCuts budget entries bands groups) (inOrder : InOrder bands)
    (order : entries.Pairwise fun a b => a.1 ≤ b.1) {outcome : Except Failure (List Block)}
    (decided : outcome.map (fun _ => ()) = verify groups.flatten entries) :
    Verdict bands budget entries outcome := by
  have fails : ∀ {e : Entry} {cause : Failure}, e ∈ entries →
      (verifyCode groups.flatten e.1 = .error cause ↔ Flaw bands budget.room entries e.1 cause) :=
    fun he => h.verifyCode_eq_error_iff inOrder order he
  have rejects : ∀ failure, outcome = .error failure ↔
      ∃ e ∈ entries, Flaw bands budget.room entries e.1 failure ∧
        ∀ e' ∈ entries, ∀ cause, Flaw bands budget.room entries e'.1 cause → e.1 ≤ e'.1 := by
    intro failure
    have hverify : outcome = .error failure ↔
        verify groups.flatten entries = .error failure := by
      rw [← decided]
      cases outcome <;> simp [Except.map]
    rw [hverify, verify_eq_error_iff order]
    constructor
    · intro ⟨e, he, hfail, least⟩
      exact ⟨e, he, (fails he).mp hfail, fun e' he' cause flaw =>
        least e' he' cause ((fails he').mpr flaw)⟩
    · intro ⟨e, he, flaw, least⟩
      exact ⟨e, he, (fails he).mpr flaw, fun e' he' cause hcause =>
        least e' he' cause ((fails he').mp hcause)⟩
  refine ⟨?_, ?_, rejects, ?_⟩
  · intro hzero
    obtain ⟨_, _, flaw, _⟩ := (rejects _).mp hzero
    cases flaw
  · have hverify : (∃ blocks, outcome = .ok blocks) ↔
        verify groups.flatten entries = .ok () := by
      rw [← decided]
      cases outcome <;> simp [Except.map]
    rw [hverify, verify_eq_ok_iff]
    refine forall₂_congr fun e he => ?_
    show _ ↔ (∃ s ∈ bands, s.contains e.1 = true) ∧
      ∀ s ∈ bands, ¬ Straddles budget.room (entries.filter fun x => s.contains x.1) e.1
    rw [← forall_not_flaw_iff]
    constructor
    · intro hok cause flaw
      rw [(fails he).mpr flaw] at hok
      cases hok
    · intro sound
      cases hcode : verifyCode groups.flatten e.1 with
      | ok _ => rfl
      | error cause => exact absurd ((fails he).mp hcode) (sound cause)
  · intro code hgap
    obtain ⟨_, _, flaw, _⟩ := (rejects _).mp hgap
    cases flaw with
    | uncovered outside => exact outside

/-- Entries that do not descend are cut by bands of which none is empty, as long as code zero does
not stand in two chunks of a band. -/
theorem exists_bandCuts {entries : Array Entry}
    (order : entries.toList.Pairwise fun a b => a.1 ≤ b.1) {bands : List Span}
    (zero : ∀ s ∈ bands,
      ¬ Straddles budget.room (entries.toList.filter fun e => s.contains e.1) 0) :
    ∃ groups, (cutBands entries budget bands).outcome = .ok groups.flatten ∧
      BandCuts budget entries.toList bands groups := by
  have tiled : ∀ s ∈ bands, ∃ blocks,
      tile budget s.first s.last (held entries.toList s) = .ok blocks :=
    fun s hs => exists_tile_of_le (order.sublist List.filter_sublist) (zero s hs)
  refine ⟨bands.map (bandBlocks budget entries.toList), ?_, ?_⟩
  · rw [cutBands_eq order tiled, ← List.flatMap_def]
  · rw [BandCuts, List.forall₂_map_right_iff, List.forall₂_same]
    intro s hs
    obtain ⟨blocks, htile⟩ := tiled s hs
    rw [bandBlocks_eq htile]
    exact cut_of_tile htile

end Bands

/-- Entries that do not descend, of which code zero does not stand in two chunks, are cut without an
end out of order and without a block below code zero, by bands and as a page; and cutting fails
exactly when a code has a flaw, with the least such code. -/
theorem cutting_reports_least_flaw {entries : Array Entry}
    (order : entries.toList.Pairwise fun a b => a.1 ≤ b.1) (budget : Budget) :
    (∀ bands, checkBands bands = .ok () →
      (∀ s ∈ bands, ¬ Straddles (max budget.maxEntries 1)
        (entries.toList.filter fun e => s.contains e.1) 0) →
      (∀ s ∈ bands,
        Search.boundary (fun e => e.1 < s.first) entries ≤
            Search.boundary (fun e => e.1 ≤ s.last) entries ∧
          Search.boundary (fun e => e.1 ≤ s.last) entries ≤ entries.size) ∧
      Verdict bands budget entries.toList (partition entries bands budget).outcome) ∧
    (¬ Straddles (max budget.maxEntries 1) entries.toList 0 →
      Verdict [Span.full] budget entries.toList (tilePage entries budget).outcome) := by
  constructor
  · intro bands hbands zero
    have inOrder := checkBands_eq_ok_iff.mp hbands
    refine ⟨fun s hs => boundary_le_boundary (inOrder.nonempty s hs) order, ?_⟩
    obtain ⟨groups, hcut, cuts⟩ := exists_bandCuts order zero
    refine cuts.verdict inOrder order ?_
    cases hempty : entries.isEmpty with
    | false =>
      simp only [outcome_partition_eq inOrder hempty, hcut]
      cases verify groups.flatten entries.toList <;> rfl
    | true =>
      -- Without entries there is nothing to verify, and no blocks are made.
      obtain rfl : entries = #[] := by simpa using hempty
      rw [outcome_partition_empty inOrder]
      rfl
  · intro zero
    obtain ⟨blocks, htile⟩ : ∃ blocks,
        tile budget Span.full.first Span.full.last entries.toList = .ok blocks :=
      exists_tile_of_le order zero
    have hfilter : entries.toList.filter (fun e => Span.full.contains e.1) = entries.toList := by
      simp
    have cuts : BandCuts budget entries.toList [Span.full] [blocks] :=
      .cons (by rw [hfilter]; exact cut_of_tile htile) .nil
    refine cuts.verdict ⟨by decide, List.pairwise_singleton ..⟩ order ?_
    simp only [outcome_tilePage_eq, htile, List.flatten_singleton]
    cases verify blocks entries.toList <;> rfl

/-- The code 5 stands in two chunks of two, and 20 lies in no band: 5 is reported, in the band and in
the page. -/
theorem cutting_reports_least_flaw_five :
    let entries : Array Entry := #[(3, none), (5, some 'a'), (5, some 'b'), (20, none)]
    (partition entries [⟨0, 9⟩] ⟨2⟩).outcome = .error (.contested 5) ∧
      (tilePage entries ⟨2⟩).outcome = .error (.contested 5) ∧
      Verdict [⟨0, 9⟩] ⟨2⟩ entries.toList (partition entries [⟨0, 9⟩] ⟨2⟩).outcome ∧
      Verdict [Span.full] ⟨2⟩ entries.toList (tilePage entries ⟨2⟩).outcome := by
  intro entries
  have order : entries.toList.Pairwise fun a b => a.1 ≤ b.1 := by decide
  have positive : ∀ e ∈ entries.toList, e.1 ≠ 0 := by decide
  have zero : ∀ some : List Entry, (∀ e ∈ some, e ∈ entries.toList) → ¬ Straddles 2 some 0 := by
    intro some sub straddles
    obtain ⟨e, he, hcode⟩ := straddles.exists_mem
    exact positive e (sub e he) hcode
  obtain ⟨banded, paged⟩ := cutting_reports_least_flaw order ⟨2⟩
  refine ⟨by cbv, by cbv, ?_, paged (zero _ fun _ he => he)⟩
  exact (banded [⟨0, 9⟩] (by cbv) fun s _ => zero _ fun e he => (List.mem_filter.mp he).1).2

end Marc8
