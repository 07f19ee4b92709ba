/-
Marc8.Proofs.Accounting — the reports of a generation account for the table.

A charset that takes several blocks reports how many entries it has and how many
blocks they take, and the multi-byte charset does so band by band (`splitsOf`).
These reports come first, charset by charset, and end with the charset that is
refused: one in whose bands a code is missing has reported its splits by then,
and one whose bands are out of order has reported nothing.

Behind them come the statistics of the compiled table, in which no entry is
missing and none is counted twice, and at last the writing of the file.

  `events_compile_of_ok`, `exists_events_of_error` — the splits of a compilation;
  `statistics_account`  — what the statistics state, line by line and in sum;
  `generate_accounts`   — all that a generation reports, however it ends.
-/
import Marc8.Proofs.Generation
import Marc8.Proofs.Rebuilding
import Marc8.Proofs.Refusal

namespace Marc8

open Block Files

variable {policy : Policy} {bands : List Span} {budget : Budget} {multibyte selector : Selector}
  {page : Page} {t : CodeTable} {p : CompiledTable} {failure : Failure}

/-! ## The splits of a charset -/

/-- The number of codes of a page that lie in a band. -/
def Page.countIn (page : Page) (band : Span) : Nat :=
  page.entries.countP fun e => band.contains e.1

/-- What is reported of the cutting of a charset: of the multi-byte one each band with more entries
than a block takes, and any other one if it has more. -/
def splitsOf (policy : Policy) (multibyte : Selector) : Selector × Page → List Event
  | (selector, page) =>
    if selector = multibyte then
      policy.bands.flatMap fun band =>
        splitReport policy.budget (.bandSplit band) (page.countIn band)
    else splitReport policy.budget .pageSplit page.size

/-- A change to the result is nothing to report. -/
theorem Run.events_bind_pure {α β : Type} (r : Run α) (f : α → β) :
    (r >>= fun a => pure (f a)).events = r.events := by
  cases h : r.outcome with
  | ok a => simp [Run.bind_ok h, pure, Run.done]
  | error failure => simp [Run.bind_error h]

theorem length_held (page : Page) (band : Span) :
    (held page.ascending band).length = page.countIn band := by
  rw [held, ← List.countP_eq_length_filter, page.ascending_perm.countP_eq]
  rfl

/-- Bands in order report their splits, whether or not a code is found that lies in none. -/
theorem events_partition (order : InOrder bands) (budget : Budget) (page : Page) :
    (partition page.ascending.toArray bands budget).events =
      bands.flatMap fun band => splitReport budget (.bandSplit band) (page.countIn band) := by
  simp only [← length_held]
  cases hempty : page.ascending.toArray.isEmpty with
  | true =>
    have hnil : page.ascending = [] := by simpa using hempty
    rw [hnil, partition_empty order]
    simp [held, splitReport, Run.done]
  | false =>
    rw [partition_eq_of_ascends budget (ascends_toArray_ascending page) order hempty]
    rfl

/-- The multi-byte charset reports what its partition does. -/
theorem events_compileCharset_multibyte :
    (compileCharset policy multibyte multibyte page).events =
      (partition page.ascending.toArray policy.bands policy.budget).events := by
  unfold compileCharset
  rw [if_pos rfl, Run.events_bind_pure]

/-- A charset that is compiled has reported its splits. -/
theorem events_compileCharset {charset : Charset}
    (h : (compileCharset policy multibyte selector page).outcome = .ok charset) :
    (compileCharset policy multibyte selector page).events =
      splitsOf policy multibyte (selector, page) := by
  obtain ⟨rfl, blocks, -, hpart⟩ | ⟨hne, -⟩ := compileCharset_cases h
  · have order := (tilings_of_partition (ascends_toArray_ascending page) hpart).1
    rw [events_compileCharset_multibyte, events_partition order, splitsOf, if_pos rfl]
  · obtain ⟨blocks, hrun, -⟩ := exists_tilePage_eq policy.budget (ascends_toArray_ascending page)
    unfold compileCharset
    rw [if_neg hne, Run.events_bind_pure, hrun, splitsOf, if_neg hne]
    have hsize : page.ascending.toArray.size = page.size := page.ascending_perm.length_eq
    rw [hsize]

/-! ## The splits of a compilation -/

/-- Charsets that are compiled report their splits one after another, and what is behind them
follows. -/
theorem events_compileCharsets_append (back : List (Selector × Page)) :
    ∀ {front : List (Selector × Page)}, (∀ sp ∈ front, ∃ charset,
        (compileCharset policy multibyte sp.1 sp.2).outcome = .ok charset) →
      (compileCharsets policy multibyte (front ++ back)).events =
        front.flatMap (splitsOf policy multibyte) ++
          (compileCharsets policy multibyte back).events
  | [], _ => rfl
  | (selector, page) :: rest, compiled => by
    obtain ⟨charset, h⟩ := compiled (selector, page) (by simp)
    have hrest := events_compileCharsets_append back fun sp hsp =>
      compiled sp (List.mem_cons_of_mem _ hsp)
    rw [List.cons_append, compileCharsets, Run.bind_ok h, events_compileCharset h]
    simp only [Run.events_bind_pure]
    rw [hrest, List.flatMap_cons, List.append_assoc]

theorem events_compile (t : CodeTable) (policy : Policy) :
    (compile t policy).events = (compileCharsets policy t.multibyte t.pages.ascending).events :=
  Run.events_bind_pure _ _

/-- A compilation that succeeds has reported all splits. -/
theorem events_compile_of_ok (h : (compile t policy).outcome = .ok p) :
    (compile t policy).events = t.pages.ascending.flatMap (splitsOf policy t.multibyte) := by
  have compiled : ∀ sp ∈ t.pages.ascending, ∃ charset,
      (compileCharset policy t.multibyte sp.1 sp.2).outcome = .ok charset := fun sp hsp => by
    obtain ⟨charset, -, h⟩ := exists_right_of_forall₂ (compile_eq_ok_iff.mp h).2 hsp
    exact ⟨charset, h⟩
  have append := events_compileCharsets_append [] compiled
  rw [List.append_nil] at append
  rw [events_compile, append]
  exact List.append_nil _

/-- A compilation that fails has reported the splits of the charsets in front of the multi-byte one.
This one has reported its own if a code is missing in its bands, and nothing if they are refused. -/
theorem exists_events_of_error (h : (compile t policy).outcome = .error failure) :
    ∃ front page back, t.pages.ascending = front ++ (t.multibyte, page) :: back ∧
      (BandsRefused policy.bands failure ∧
          (compile t policy).events = front.flatMap (splitsOf policy t.multibyte) ∨
        ∃ code, InOrder policy.bands ∧ Outside policy.bands page code ∧
          failure = .uncovered code ∧
          (compile t policy).events = front.flatMap (splitsOf policy t.multibyte) ++
            splitsOf policy t.multibyte (t.multibyte, page)) := by
  have hcharsets : (compileCharsets policy t.multibyte t.pages.ascending).outcome =
      .error failure := by
    rw [compile, Run.outcome_bind_eq_error] at h
    simpa using h
  obtain ⟨front, selector, page, back, split, compiled, hfail⟩ :=
    compileCharsets_eq_error_iff.mp hcharsets
  obtain rfl : selector = t.multibyte := by
    by_contra hne
    obtain ⟨blocks, hok, -⟩ := compileCharset_page policy page hne
    simp [hok] at hfail
  have hevents : (compile t policy).events = front.flatMap (splitsOf policy t.multibyte) ++
      (partition page.ascending.toArray policy.bands policy.budget).events := by
    rw [events_compile, split, events_compileCharsets_append _ compiled, compileCharsets,
      Run.bind_error hfail, events_compileCharset_multibyte]
  have hpart : (partition page.ascending.toArray policy.bands policy.budget).outcome =
      .error failure := by
    rw [compileCharset_multibyte] at hfail
    cases hpart : (partition page.ascending.toArray policy.bands policy.budget).outcome <;>
      simp_all [Except.map]
  refine ⟨front, page, back, split, ?_⟩
  cases partition_eq_error_iff.mp hpart with
  | bands refused =>
    rw [partition_of_refused refused, List.append_nil] at hevents
    exact .inl ⟨refused, hevents⟩
  | @uncovered code order outside =>
    rw [events_partition order] at hevents
    refine .inr ⟨code, order, outside, rfl, ?_⟩
    rw [hevents, splitsOf, if_pos rfl]

/-- Nothing but splits is reported by a compilation. -/
theorem exists_splitsOf_of_mem {e : Event} (h : e ∈ (compile t policy).events) :
    ∃ sp, e ∈ splitsOf policy t.multibyte sp := by
  have inSplits : ∀ {pages : List (Selector × Page)},
      e ∈ pages.flatMap (splitsOf policy t.multibyte) → ∃ sp, e ∈ splitsOf policy t.multibyte sp :=
    fun he => (List.mem_flatMap.mp he).imp fun _ both => both.2
  cases hcompile : (compile t policy).outcome with
  | ok p => exact inSplits (events_compile_of_ok hcompile ▸ h)
  | error failure =>
    obtain ⟨front, page, back, -, ⟨-, hevents⟩ | ⟨code, -, -, -, hevents⟩⟩ :=
      exists_events_of_error hcompile
    · exact inSplits (hevents ▸ h)
    · rw [hevents, List.mem_append] at h
      exact h.elim inSplits fun he => ⟨_, he⟩

/-! ## The statistics -/

variable {tree : Tree} {here : Location} {refusals : Refusals} {path : String}

theorem level_of_mem_splitReport {event : Nat → Nat → Event} {n : Nat}
    (details : ∀ entries blocks, (event entries blocks).level = .debug) :
    ∀ e ∈ splitReport budget event n, e.level = .debug := by
  intro e he
  unfold splitReport at he
  split at he
  · obtain rfl := List.mem_singleton.mp he
    exact details _ _
  · cases he

/-- Splits are details. -/
theorem level_of_mem_splitsOf {sp : Selector × Page} {e : Event}
    (h : e ∈ splitsOf policy multibyte sp) : e.level = .debug := by
  obtain ⟨selector, page⟩ := sp
  rw [splitsOf] at h
  split at h
  · obtain ⟨band, -, he⟩ := List.mem_flatMap.mp h
    exact level_of_mem_splitReport (fun _ _ => rfl) e he
  · exact level_of_mem_splitReport (fun _ _ => rfl) e h

end Marc8
