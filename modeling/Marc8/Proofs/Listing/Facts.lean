/-
Marc8.Proofs.Listing.Facts — what directives say, apart from their order.

An entry belongs to the charset that is open where it stands; with the owner
written to it, it says the same anywhere. `facts` takes directives apart into
such statements, and nothing about a listing hangs on their order:

  `under_iff_mem_facts`   — an entry stands under a charset when the fact is there;
  `consistent_iff_facts`  — directives are consistent when no two facts clash and
                            no entry is without an owner;
  `Describes.sameContent` — directives with the same facts, in whatever order,
                            describe tables of the same content.
-/
import Marc8.Proofs.Content
import Marc8.Proofs.Listing.Grammar

namespace Marc8.Listing

/-- One thing that a listing says. -/
inductive Fact
  /-- The multi-byte charset is the one under the selector. -/
  | multibyte (selector : Selector)
  /-- There is a charset under the selector. -/
  | charset (selector : Selector)
  /-- There are combining codes under the selector, if only an empty list of them. -/
  | combining (selector : Selector)
  /-- The code combines under the selector. -/
  | combines (selector : Selector) (code : Code)
  /-- The charset of the owner has an entry for the code. -/
  | entry (owner : Option Selector) (code : Code) (value : Option Char)

/-- The facts of a directive that stands where a given charset is open. -/
def Directive.facts (current : Option Selector) : Directive → List Fact
  | .multibyte n => [.multibyte n]
  | .charset selector => [.charset selector]
  | .combining selector codes => .combining selector :: codes.map (.combines selector)
  | .entry code value => [.entry current code value]

/-- The facts of directives of which the first stands where a given charset is open. -/
def facts (current : Option Selector) : List Directive → List Fact
  | [] => []
  | dir :: rest => dir.facts current ++ facts (dir.opens?.or current) rest

variable {ds ds' front back : List Directive} {dir : Directive} {current : Option Selector}
  {selector : Selector} {code : Code} {value : Option Char}

/-! ## Facts of directives put together -/

theorem opened_cons (dir : Directive) (rest : List Directive) :
    opened (dir :: rest) = (opened rest).or dir.opens? := by
  rw [← List.singleton_append, opened_append]
  congr 1
  cases dir <;> rfl

/-- Behind some directives the charset is open that they have opened last. -/
theorem facts_append (current : Option Selector) (front back : List Directive) :
    facts current (front ++ back) =
      facts current front ++ facts ((opened front).or current) back := by
  induction front generalizing current with
  | nil => rfl
  | cons dir rest ih =>
    rw [List.cons_append, facts, facts, ih, opened_cons, Option.or_assoc, List.append_assoc]

theorem facts_concat (ds : List Directive) (dir : Directive) :
    facts none (ds ++ [dir]) = facts none ds ++ dir.facts (opened ds) := by
  rw [facts_append, facts, facts, List.append_nil, Option.or_none]

/-- A directive that opens no charset adds its facts, wherever it stands. -/
theorem facts_insert_perm (h : ∀ current current', dir.facts current = dir.facts current')
    (opens : dir.opens? = none) (current : Option Selector) (front back : List Directive) :
    (facts current (front ++ dir :: back)).Perm (dir.facts none ++ facts current (front ++ back)) := by
  rw [facts_append, facts, opens, Option.none_or, facts_append, h _ none, ← List.append_assoc,
    ← List.append_assoc]
  exact List.Perm.append_right _ List.perm_append_comm

/-- Where no charset is opened, each directive stands where the same one is open. -/
theorem facts_eq_flatMap (closed : ∀ dir ∈ ds, dir.opens? = none) (current : Option Selector) :
    facts current ds = ds.flatMap (Directive.facts current) := by
  induction ds with
  | nil => rfl
  | cons dir rest ih =>
    rw [facts, closed dir (by simp), Option.none_or, List.flatMap_cons,
      ih fun x hx => closed x (List.mem_cons_of_mem _ hx)]

/-- Directives of which none opens a charset may change places. -/
theorem facts_perm_of_closed (closed : ∀ dir ∈ ds, dir.opens? = none) (perm : ds.Perm ds')
    (current : Option Selector) (front back : List Directive) :
    (facts current (front ++ ds ++ back)).Perm (facts current (front ++ ds' ++ back)) := by
  have closed' : ∀ dir ∈ ds', dir.opens? = none := fun dir h => closed dir (perm.mem_iff.mpr h)
  have opens_none : ∀ {ds : List Directive}, (∀ dir ∈ ds, dir.opens? = none) → opened ds = none := by
    intro ds closed
    rw [opened, List.getLast?_eq_none_iff, List.filterMap_eq_nil_iff]
    exact closed
  rw [facts_append, facts_append, facts_append, facts_append, opened_append, opened_append,
    opens_none closed, opens_none closed', facts_eq_flatMap closed, facts_eq_flatMap closed']
  exact List.Perm.append_right _ (List.Perm.append_left _ (perm.flatMap_right _))

/-- The facts of directives that begin with a charset do not hang on where they stand. -/
theorem facts_charset_cons (selector : Selector) (rest : List Directive)
    (current current' : Option Selector) :
    facts current (.charset selector :: rest) = facts current' (.charset selector :: rest) := rfl

/-- Groups of directives that begin with a charset have their facts each for itself. -/
theorem facts_flatten {groups : List (List Directive)}
    (begins : ∀ group ∈ groups, ∃ selector rest, group = .charset selector :: rest)
    (current : Option Selector) : facts current groups.flatten = groups.flatMap (facts none) := by
  induction groups generalizing current with
  | nil => rfl
  | cons group groups ih =>
    obtain ⟨selector, rest, rfl⟩ := begins group (by simp)
    rw [List.flatten_cons, facts_append, ih fun group h => begins group (List.mem_cons_of_mem _ h),
      List.flatMap_cons, facts_charset_cons selector rest current none]

/-- Groups of directives that begin with a charset may change places. -/
theorem facts_perm_of_groups {groups groups' : List (List Directive)}
    (begins : ∀ group ∈ groups, ∃ selector rest, group = .charset selector :: rest)
    (perm : groups.Perm groups') (front : List Directive) :
    (facts current (front ++ groups.flatten)).Perm (facts current (front ++ groups'.flatten)) := by
  rw [facts_append, facts_append, facts_flatten begins,
    facts_flatten fun group h => begins group (perm.mem_iff.mpr h)]
  exact List.Perm.append_left _ (perm.flatMap_right _)

/-! ## What the facts tell -/

theorem mem_facts_multibyte {n : Selector} :
    .multibyte n ∈ facts current ds ↔ .multibyte n ∈ ds := by
  induction ds generalizing current with
  | nil => simp [facts]
  | cons dir rest ih => cases dir <;> simp [facts, Directive.facts, ih]

theorem mem_facts_charset : .charset selector ∈ facts current ds ↔ .charset selector ∈ ds := by
  induction ds generalizing current with
  | nil => simp [facts]
  | cons dir rest ih => cases dir <;> simp [facts, Directive.facts, ih]

theorem mem_facts_combining :
    .combining selector ∈ facts current ds ↔ ∃ codes, .combining selector codes ∈ ds := by
  induction ds generalizing current with
  | nil => simp [facts]
  | cons dir rest ih => cases dir <;> simp [facts, Directive.facts, ih, exists_or, eq_comm]

theorem mem_facts_combines :
    .combines selector code ∈ facts current ds ↔ code ∈ ds.flatMap (Directive.adds selector) := by
  induction ds generalizing current with
  | nil => simp [facts]
  | cons dir rest ih =>
    cases dir with
    | combining selector' codes =>
      by_cases h : selector' = selector <;> simp [facts, Directive.facts, Directive.adds, ih, h]
    | _ => simp [facts, Directive.facts, Directive.adds, ih]

theorem mem_directive_facts_entry {owner : Option Selector} :
    .entry owner code value ∈ dir.facts current ↔ dir = .entry code value ∧ owner = current := by
  cases dir <;> simp [Directive.facts, eq_comm]
  tauto

/-- An entry has the owner under whose charset it stands. -/
theorem under_iff_mem_facts :
    Under ds selector code value ↔ .entry (some selector) code value ∈ facts none ds := by
  induction ds using List.reverseRecOn with
  | nil => simp [Under, facts]
  | append_singleton ds dir ih =>
    rw [facts_concat, List.mem_append, ← ih, under_concat_iff, mem_directive_facts_entry,
      @eq_comm _ (some selector)]

/-! ## Facts that go together -/

/-- Do the two facts contradict each other? -/
def Fact.clashes : Fact → Fact → Bool
  | .multibyte _, .multibyte _ => true
  | .charset selector, .charset selector' => selector = selector'
  | .entry owner code _, .entry owner' code' _ => owner = owner' ∧ code = code'
  | _, _ => false

/-- The two facts contradict each other. -/
def Clash (f g : Fact) : Prop := f.clashes g = true

instance : DecidableRel Clash := fun f g => inferInstanceAs (Decidable (f.clashes g = true))

theorem Clash.symm {f g : Fact} (h : Clash f g) : Clash g f := by
  cases f <;> cases g <;> simp_all [Clash, Fact.clashes]

instance : Std.Symm fun f g => ¬ Clash f g := ⟨fun _ _ hfg hgf => hfg hgf.symm⟩

/-- No two facts contradict each other, and every entry has an owner. -/
structure Tenable (fs : List Fact) : Prop where
  apart : fs.Pairwise fun f g => ¬ Clash f g
  owned : ∀ code value, .entry none code value ∉ fs

/-- Tenable facts are so in every order. -/
theorem Tenable.perm {fs gs : List Fact} (h : Tenable fs) (perm : fs.Perm gs) : Tenable gs :=
  ⟨(perm.pairwise_iff fun hfg hgf => hfg hgf.symm).mp h.apart,
    fun code value hmem => h.owned code value (perm.mem_iff.mpr hmem)⟩

theorem tenable_append {fs gs : List Fact} : Tenable (fs ++ gs) ↔
    Tenable fs ∧ Tenable gs ∧ ∀ f ∈ fs, ∀ g ∈ gs, ¬ Clash f g := by
  constructor
  · intro ⟨apart, owned⟩
    obtain ⟨hfs, hgs, across⟩ := List.pairwise_append.mp apart
    exact ⟨⟨hfs, fun code value h => owned code value (List.mem_append_left _ h)⟩,
      ⟨hgs, fun code value h => owned code value (List.mem_append_right _ h)⟩, across⟩
  · intro ⟨hfs, hgs, across⟩
    refine ⟨List.pairwise_append.mpr ⟨hfs.apart, hgs.apart, across⟩, fun code value h => ?_⟩
    exact (List.mem_append.mp h).elim (hfs.owned code value) (hgs.owned code value)

/-- One fact alone is tenable, unless it is an entry without an owner. -/
theorem tenable_singleton {f : Fact} (h : ∀ code value, f ≠ .entry none code value) : Tenable [f] :=
  ⟨List.pairwise_singleton .., fun code value hmem => h code value (List.mem_singleton.mp hmem).symm⟩

theorem clash_multibyte_iff {f : Fact} {n : Selector} :
    Clash f (.multibyte n) ↔ ∃ n', f = .multibyte n' := by
  cases f <;> simp [Clash, Fact.clashes]

theorem clash_charset_iff {f : Fact} : Clash f (.charset selector) ↔ f = .charset selector := by
  cases f <;> simp [Clash, Fact.clashes]

theorem clash_entry_iff {f : Fact} {owner : Option Selector} :
    Clash f (.entry owner code value) ↔ ∃ value', f = .entry owner code value' := by
  cases f <;> simp [Clash, Fact.clashes]

/-- Facts about combining codes contradict nothing. -/
theorem not_clash_combining {f g : Fact} {codes : List Code}
    (h : g ∈ Directive.facts current (.combining selector codes)) : ¬ Clash f g := by
  rcases List.mem_cons.mp h with rfl | h
  · cases f <;> simp [Clash, Fact.clashes]
  · obtain ⟨code, _, rfl⟩ := List.mem_map.mp h
    cases f <;> simp [Clash, Fact.clashes]

/-- A directive fits consistent ones when its facts go with theirs. -/
theorem fits_iff_facts (h : Consistent ds) : Fits ds dir ↔
    Tenable (dir.facts (opened ds)) ∧
      ∀ f ∈ facts none ds, ∀ g ∈ dir.facts (opened ds), ¬ Clash f g := by
  cases dir with
  | multibyte n =>
    have tenable : Tenable [.multibyte n] := tenable_singleton (by simp)
    simp only [tenable, true_and, Directive.facts, List.mem_singleton, forall_eq,
      clash_multibyte_iff, not_exists]
    constructor
    · intro fits f hf n' heq
      exact fits n' (mem_facts_multibyte.mp (heq ▸ hf))
    · intro across n' hmem
      exact across _ (mem_facts_multibyte.mpr hmem) n' rfl
  | charset selector =>
    have tenable : Tenable [.charset selector] := tenable_singleton (by simp)
    simp only [tenable, true_and, Directive.facts, List.mem_singleton, forall_eq, clash_charset_iff]
    constructor
    · intro fits f hf heq
      exact fits (mem_facts_charset.mp (heq ▸ hf))
    · intro across hmem
      exact across _ (mem_facts_charset.mpr hmem) rfl
  | combining selector codes =>
    refine iff_of_true trivial ⟨⟨?_, ?_⟩, fun f _ g hg => not_clash_combining hg⟩
    · exact List.pairwise_of_forall_mem_list fun f _ g hg => not_clash_combining hg
    · simp [Directive.facts]
  | entry code value =>
    cases hopened : opened ds with
    | none =>
      refine iff_of_false (fun fits => ?_) fun tenable => ?_
      · obtain ⟨selector, hmem⟩ := fits.1
        exact opened_eq_none_iff.mp hopened selector hmem
      · exact tenable.1.owned code value (by simp [Directive.facts])
    | some selector =>
      have tenable : Tenable [.entry (some selector) code value] := tenable_singleton (by simp)
      simp only [tenable, true_and, Directive.facts, List.mem_singleton, forall_eq, clash_entry_iff,
        not_exists]
      constructor
      · intro fits f hf value' heq
        obtain ⟨front, between, split, hbetween⟩ :=
          (under_opened_iff h hopened).mp (under_iff_mem_facts.mpr (heq ▸ hf))
        obtain ⟨other, hother⟩ := fits.2 front value' between split
        exact hbetween other hother
      · intro across
        refine ⟨⟨selector, mem_of_opened hopened⟩, fun front value' between split => ?_⟩
        by_contra hbetween
        have under := (under_opened_iff h hopened).mpr
          ⟨front, between, split, not_exists.mp hbetween⟩
        exact across _ (under_iff_mem_facts.mp under) value' rfl

/-- Directives are consistent when their facts go together. -/
theorem consistent_iff_facts : Consistent ds ↔ Tenable (facts none ds) := by
  induction ds using List.reverseRecOn with
  | nil =>
    refine iff_of_true ⟨List.Pairwise.nil, List.Pairwise.nil, ?_, ?_⟩ ⟨List.Pairwise.nil, by simp [facts]⟩
    · intro front code value back split
      simp at split
    · intro front code value between value' back split
      simp at split
  | append_singleton ds dir ih =>
    rw [consistent_concat_iff, facts_concat, tenable_append, ← ih]
    exact and_congr_right fun h => fits_iff_facts h

/-- Directives go together in every order in which they have the same facts. -/
theorem WellFormed.of_facts_perm (h : WellFormed ds) (perm : (facts none ds).Perm (facts none ds')) :
    WellFormed ds' := by
  obtain ⟨n, named⟩ := h.named
  exact ⟨consistent_iff_facts.mpr ((consistent_iff_facts.mp h.toConsistent).perm perm), n,
    mem_facts_multibyte.mp (perm.mem_iff.mp (mem_facts_multibyte.mpr named))⟩

/-! ## The table -/

/-- The multi-byte charset is named once. -/
theorem Consistent.multibyte_unique (h : Consistent ds) {n n' : Selector} (hn : .multibyte n ∈ ds)
    (hn' : .multibyte n' ∈ ds) : n = n' := by
  by_contra hne
  have apart := (consistent_iff_facts.mp h).apart
  have differ : (Fact.multibyte n) ≠ .multibyte n' := fun heq => hne (Fact.multibyte.inj heq)
  exact apart.forall (mem_facts_multibyte.mpr hn) (mem_facts_multibyte.mpr hn') differ rfl

/-- Keys that two maps have in common, with related values, make them agree. -/
theorem agrees_of_contains_iff {α : Type} {R : α → α → Prop} {m m' : Assoc Selector α}
    (keys : ∀ k, m.contains k = true ↔ m'.contains k = true)
    (values : ∀ k a a', m.find? k = some a → m'.find? k = some a' → R a a') : m.Agrees R m' := by
  intro k
  have hk := keys k
  unfold Assoc.contains at hk
  cases hfind : m.find? k with
  | none =>
    cases hfind' : m'.find? k with
    | none => exact .none
    | some a' => simp [hfind, hfind'] at hk
  | some a =>
    cases hfind' : m'.find? k with
    | none => simp [hfind, hfind'] at hk
    | some a' => exact .some (values k a a' hfind hfind')

/-- Directives with the same facts describe tables of the same content. -/
theorem Describes.sameContent {t t' : CodeTable} (h : Describes ds t) (h' : Describes ds' t')
    (consistent : Consistent ds') (perm : (facts none ds).Perm (facts none ds')) :
    SameContent t t' := by
  refine ⟨?_, agrees_of_contains_iff (fun selector => ?_) fun selector page page' hpage hpage' => ?_,
    agrees_of_contains_iff (fun selector => ?_) fun selector codes codes' hcodes hcodes' => ?_⟩
  · refine consistent.multibyte_unique ?_ h'.multibyte
    exact mem_facts_multibyte.mp (perm.mem_iff.mp (mem_facts_multibyte.mpr h.multibyte))
  · rw [h.pages, h'.pages, ← @mem_facts_charset ds none, ← @mem_facts_charset ds' none, perm.mem_iff]
  · intro code
    apply Option.ext
    intro value
    rw [h.entries selector page hpage, h'.entries selector page' hpage', under_iff_mem_facts,
      under_iff_mem_facts, perm.mem_iff]
  · rw [h.combining, h'.combining, ← @mem_facts_combining ds none, ← @mem_facts_combining ds' none,
      perm.mem_iff]
  · intro code
    rw [h.codes selector codes hcodes, h'.codes selector codes' hcodes',
      ← @mem_facts_combines ds none, ← @mem_facts_combines ds' none, perm.mem_iff]

end Marc8.Listing
