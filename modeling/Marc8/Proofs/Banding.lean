/-
Marc8.Proofs.Banding — the multi-byte charset, cut by its bands.

Bands are in order (`InOrder`) when none is empty and each ends before the next
begins; `checkBands` accepts exactly these, and otherwise reports the first
offence (`checkBands_eq_error_iff`). Of ascending entries every band takes those
that lie in it (`toList_inBand`), and tiles them, so that its blocks and its
report hang on these alone (`bandBlocks`, `bandReport`). Bands in order divide
among them the entries that lie in some band:

  `cutBands_eq`              — the bands are cut and reported one by one;
  `partition_eq_of_ascends`  — the verifier can only report the first entry that
                               lies in no band, behind the reports of the bands;
  `partition_eq_ok_iff`      — when a charset can be partitioned, and to which blocks;
  `exists_tilePage_eq`       — any other charset has one band that holds every
                               code, so that nothing is left to report.
-/
import Marc8.Proofs.Dividing

namespace Marc8

/-! ## Bands in order -/

/-- No band is empty, and each ends before the next begins. -/
structure InOrder (bands : List Span) : Prop where
  nonempty : ∀ s ∈ bands, s.first ≤ s.last
  before : bands.Pairwise Span.Before

theorem isEmpty_eq_false_iff {s : Span} : s.isEmpty = false ↔ s.first ≤ s.last := by
  simp [Span.isEmpty]

/-- Where the search for an empty band finds none, none is empty. -/
theorem nonempty_of_find? {bands : List Span} (h : bands.find? Span.isEmpty = none) :
    ∀ s ∈ bands, s.first ≤ s.last :=
  fun s hs => isEmpty_eq_false_iff.mp (by simpa using List.find?_eq_none.mp h s hs)

theorem InOrder.tail {s : Span} {bands : List Span} (h : InOrder (s :: bands)) : InOrder bands :=
  ⟨fun t ht => h.nonempty t (List.mem_cons_of_mem _ ht), (List.pairwise_cons.mp h.before).2⟩

/-- Neighbours are accepted when each ends before the next begins. -/
theorem checkOrder_eq_ok_iff : ∀ {bands : List Span},
    checkOrder bands = .ok () ↔ bands.IsChain Span.Before
  | [] => by simp [checkOrder]
  | [_] => by simp [checkOrder]
  | s :: t :: rest => by
    rw [checkOrder, List.isChain_cons_cons, Span.Before, ← UInt32.not_le]
    by_cases h : t.first ≤ s.last
    · simp [h]
    · simp [h, @checkOrder_eq_ok_iff (t :: rest)]

/-- Of neighbours the first two are reported of which one does not end before the other begins. -/
theorem checkOrder_append {s t : Span} {back : List Span} (wrong : ¬ s.Before t) :
    ∀ {front : List Span}, (front ++ [s]).IsChain Span.Before →
      checkOrder (front ++ s :: t :: back) = .error (.bandOrder s t)
  | [], _ => by
    rw [List.nil_append, checkOrder, if_pos (UInt32.not_lt.mp wrong)]
  | [u], chain => by
    have hus : u.Before s := (List.isChain_cons_cons.mp chain).1
    rw [List.singleton_append, checkOrder, if_neg (UInt32.not_le.mpr hus)]
    exact @checkOrder_append s t back wrong [] (by simp)
  | u :: v :: front, chain => by
    obtain ⟨huv, chain⟩ := List.isChain_cons_cons.mp chain
    rw [List.cons_append, List.cons_append, checkOrder, if_neg (UInt32.not_le.mpr huv)]
    exact @checkOrder_append s t back wrong (v :: front) chain

/-- A report about neighbours is about the first two that are wrong. -/
theorem exists_of_checkOrder_eq_error {failure : Failure} : ∀ {bands : List Span},
    checkOrder bands = .error failure →
      ∃ front s t back, bands = front ++ s :: t :: back ∧ (front ++ [s]).IsChain Span.Before ∧
        ¬ s.Before t ∧ failure = .bandOrder s t
  | [], h => by cases h
  | [_], h => by cases h
  | s :: t :: rest, h => by
    rw [checkOrder] at h
    split at h
    · next hle =>
      obtain rfl : _ = failure := by simpa using h
      exact ⟨[], s, t, rest, rfl, by simp, UInt32.not_lt.mpr hle, rfl⟩
    · next hle =>
      have hst : s.Before t := UInt32.not_le.mp hle
      obtain ⟨front, a, b, back, heq, chain, wrong, rfl⟩ := exists_of_checkOrder_eq_error h
      refine ⟨s :: front, a, b, back, by rw [heq, List.cons_append], ?_, wrong, rfl⟩
      cases front with
      | nil =>
        obtain ⟨rfl, _⟩ := List.cons.inj heq
        simpa using hst
      | cons f front =>
        obtain ⟨rfl, _⟩ := List.cons.inj heq
        exact List.isChain_cons_cons.mpr ⟨hst, chain⟩

/-- The bands that are accepted are those in order. -/
theorem checkBands_eq_ok_iff {bands : List Span} : checkBands bands = .ok () ↔ InOrder bands := by
  unfold checkBands
  split
  · next s hfind =>
    simp only [reduceCtorEq, false_iff]
    intro h
    have hempty : s.isEmpty = true := by simpa using List.find?_some hfind
    have hle := isEmpty_eq_false_iff.mpr (h.nonempty s (List.mem_of_find?_eq_some hfind))
    rw [hempty] at hle
    cases hle
  · next hfind =>
    have nonempty := nonempty_of_find? hfind
    rw [checkOrder_eq_ok_iff]
    refine ⟨fun chain => ⟨nonempty, Span.pairwise_before nonempty chain⟩, fun h => ?_⟩
    exact h.before.isChain

/-- Why bands are refused: the first empty one is reported; if there is none, the first two
neighbours of which one does not end before the other begins. -/
inductive BandsRefused (bands : List Span) : Failure → Prop
  | empty {front s back} (split : bands = front ++ s :: back)
      (first : ∀ t ∈ front, t.first ≤ t.last) (wrong : s.last < s.first) :
      BandsRefused bands (.emptyBand s)
  | order {front s t back} (split : bands = front ++ s :: t :: back)
      (nonempty : ∀ u ∈ bands, u.first ≤ u.last) (first : (front ++ [s]).IsChain Span.Before)
      (wrong : ¬ s.Before t) : BandsRefused bands (.bandOrder s t)

/-- What is reported of bands that are not in order. -/
theorem checkBands_eq_error_iff {bands : List Span} {failure : Failure} :
    checkBands bands = .error failure ↔ BandsRefused bands failure := by
  constructor
  · intro h
    unfold checkBands at h
    split at h
    · next s hfind =>
      obtain rfl : _ = failure := by simpa using h
      obtain ⟨hempty, front, back, split, hfront⟩ := List.find?_eq_some_iff_append.mp hfind
      exact .empty split (fun t ht => isEmpty_eq_false_iff.mp (by simpa using hfront t ht))
        (by simpa [Span.isEmpty] using hempty)
    · next hfind =>
      obtain ⟨front, s, t, back, split, chain, wrong, rfl⟩ := exists_of_checkOrder_eq_error h
      exact .order split (nonempty_of_find? hfind) chain wrong
  · intro h
    unfold checkBands
    cases h with
    | @empty front s back split first wrong =>
      have hfind : bands.find? Span.isEmpty = some s := by
        refine List.find?_eq_some_iff_append.mpr ⟨by simpa [Span.isEmpty] using wrong, front, back,
          split, fun t ht => ?_⟩
        simpa using isEmpty_eq_false_iff.mpr (first t ht)
      rw [hfind]
    | order split nonempty first wrong =>
      have hfind : bands.find? Span.isEmpty = none := List.find?_eq_none.mpr fun u hu => by
        simpa using isEmpty_eq_false_iff.mpr (nonempty u hu)
      rw [hfind, split]
      exact checkOrder_append wrong first

/-! ## The entries of a band -/

/-- Does the code lie in one of the bands? -/
def inSome (bands : List Span) (code : Code) : Bool := bands.any (·.contains code)

theorem inSome_iff {bands : List Span} {code : Code} :
    inSome bands code = true ↔ ∃ s ∈ bands, s.contains code = true := by
  simp [inSome]

/-- A band takes the entries that lie in it. -/
theorem toList_inBand {entries : Array Entry} {band : Span}
    (order : entries.toList.Pairwise fun a b => a.1 ≤ b.1) :
    (inBand entries band).toList = entries.toList.filter fun e => band.contains e.1 := by
  rw [inBand, Search.extract_boundaries (Search.falls_lt order _) (Search.falls_le order _)]
  refine List.filter_congr fun e _ => ?_
  rw [Bool.eq_iff_iff]
  simp [Span.contains, and_comm]

/-- The two ends between which a band takes its entries are in order. -/
theorem boundary_le_boundary {entries : Array Entry} {band : Span} (le : band.first ≤ band.last)
    (order : entries.toList.Pairwise fun a b => a.1 ≤ b.1) :
    Search.boundary (fun e => e.1 < band.first) entries ≤
        Search.boundary (fun e => e.1 ≤ band.last) entries ∧
      Search.boundary (fun e => e.1 ≤ band.last) entries ≤ entries.size := by
  obtain ⟨size, below⟩ := Search.boundary_spec (Search.falls_lt order band.first)
  obtain ⟨size', upTo⟩ := Search.boundary_spec (Search.falls_le order band.last)
  refine ⟨Nat.le_of_not_lt fun hlt => ?_, size'⟩
  -- The entry at the second end would lie below the first code and above the last.
  have hless := (below _ (Nat.lt_of_lt_of_le hlt size)).mpr hlt
  refine Nat.lt_irrefl _ ((upTo _ (Nat.lt_of_lt_of_le hlt size)).mp ?_)
  simp only [decide_eq_true_eq] at hless ⊢
  exact UInt32.le_trans (UInt32.le_of_lt hless) le

/-- Of ascending elements, those with one of two properties come one property after the other if
the first property has the lower keys. -/
theorem filter_or {α : Type} {key : α → Code} {p q : α → Bool} : ∀ {xs : List α},
    Ascends key xs → (∀ x y, p x = true → q y = true → key x < key y) →
    xs.filter (fun x => p x || q x) = xs.filter p ++ xs.filter q
  | [], _, _ => rfl
  | x :: rest, ascends, below => by
    obtain ⟨front, back⟩ := List.pairwise_cons.mp ascends
    have ih := filter_or back below
    cases hp : p x with
    | true =>
      have hq : q x = false := by
        rw [← Bool.not_eq_true]
        exact fun hq => absurd (below x x hp hq) (UInt32.lt_irrefl _)
      simp [hp, hq, ih]
    | false =>
      cases hq : q x with
      | true =>
        have none_below : rest.filter p = [] := List.filter_eq_nil_iff.mpr fun y hy hpy =>
          UInt32.lt_asymm (below y x hpy hq) (front y hy)
        simp [hp, hq, ih, none_below]
      | false => simp [hp, hq, ih]

/-! ## Cutting by bands -/

section Cutting

open Block

/-- What becomes of each band: its own entries, tiled. -/
abbrev BandTilings (budget : Budget) (entries : List Entry) (bands : List Span)
    (groups : List (List Block)) : Prop :=
  List.Forall₂ (fun band group =>
    Tiling budget band (entries.filter fun e => band.contains e.1) group) bands groups

variable {entries : Array Entry} {bands : List Span} {budget : Budget}

/-- The entries that lie in a band. -/
def held (entries : List Entry) (band : Span) : List Entry :=
  entries.filter fun e => band.contains e.1

/-- The blocks that a band makes of the entries in it. -/
def bandBlocks (budget : Budget) (entries : List Entry) (band : Span) : List Block :=
  (tile budget band.first band.last (held entries band)).toOption.getD []

theorem bandBlocks_eq {entries : List Entry} {band : Span} {blocks : List Block}
    (h : tile budget band.first band.last (held entries band) = .ok blocks) :
    bandBlocks budget entries band = blocks := by
  rw [bandBlocks, h]
  rfl

/-- What is reported of entries that take several blocks: how many they are, and how many blocks. -/
def splitReport (budget : Budget) (event : Nat → Nat → Event) (entries : Nat) : List Event :=
  if budget.room < entries then [event entries ((entries + budget.room - 1) / budget.room)] else []

/-- A split is reported when there are several blocks, with their number. -/
theorem splitReport_eq (event : Nat → Nat → Event) (n : Nat) :
    splitReport budget event n =
      if 1 < budget.blocksFor n then [event n (budget.blocksFor n)] else [] := by
  by_cases h : budget.room < n
  · obtain ⟨several, count⟩ := Budget.blocksFor_of_lt h
    rw [splitReport, if_pos h, if_pos several, count]
  · have := Budget.blocksFor_of_le (Nat.le_of_not_lt h)
    rw [splitReport, if_neg h, if_neg (by omega)]

/-- What a band reports of the entries in it. -/
def bandReport (budget : Budget) (entries : List Entry) (band : Span) : List Event :=
  splitReport budget (.bandSplit band) (held entries band).length

/-- A band whose entries can be tiled reports their split, if there is one. -/
theorem cutBand_eq {band : Span} {blocks : List Block}
    (order : entries.toList.Pairwise fun a b => a.1 ≤ b.1)
    (htile : tile budget band.first band.last (held entries.toList band) = .ok blocks) :
    cutBand entries budget band = ⟨bandReport budget entries.toList band, .ok blocks⟩ := by
  have hheld : (inBand entries band).toList = held entries.toList band := toList_inBand order
  have hsize : (inBand entries band).size = (held entries.toList band).length := by
    rw [← hheld, Array.length_toList]
  rw [bandReport, splitReport_eq, ← (cut_of_tile htile).length_eq]
  unfold cutBand
  simp only [hheld, hsize]
  rw [htile, Run.bind_ok (Run.outcome_silent _)]
  split <;> rfl

/-- Bands whose entries can be tiled are gone through one after the other. -/
theorem cutBands_eq (order : entries.toList.Pairwise fun a b => a.1 ≤ b.1) : ∀ {bands : List Span},
    (∀ s ∈ bands, ∃ blocks, tile budget s.first s.last (held entries.toList s) = .ok blocks) →
      cutBands entries budget bands =
        ⟨bands.flatMap (bandReport budget entries.toList),
          .ok (bands.flatMap (bandBlocks budget entries.toList))⟩
  | [], _ => rfl
  | band :: rest, tiled => by
    obtain ⟨blocks, htile⟩ := tiled band (by simp)
    have hrest := cutBands_eq order fun s hs => tiled s (List.mem_cons_of_mem _ hs)
    rw [cutBands, Run.bind_ok (by rw [cutBand_eq order htile]), cutBand_eq order htile, hrest,
      Run.bind_ok rfl, List.flatMap_cons, List.flatMap_cons, bandBlocks_eq htile]
    simp [pure, Run.done]

/-- Ascending entries can be tiled in every band. -/
theorem cutBands_eq_of_ascends (ascends : Ascends Prod.fst entries.toList) (budget : Budget)
    (bands : List Span) : cutBands entries budget bands =
      ⟨bands.flatMap (bandReport budget entries.toList),
        .ok (bands.flatMap (bandBlocks budget entries.toList))⟩ :=
  cutBands_eq ascends.le fun _ _ => exists_tile (ascends.sublist List.filter_sublist)

/-- In a band that is not empty the blocks are a tiling. -/
theorem tiling_bandBlocks {entries : List Entry} {band : Span} (le : band.first ≤ band.last)
    (ascends : Ascends Prod.fst entries) (budget : Budget) :
    Tiling budget band (held entries band) (bandBlocks budget entries band) := by
  have within : ∀ e ∈ held entries band, band.contains e.1 = true :=
    fun e he => by simpa using (List.mem_filter.mp he).2
  obtain ⟨blocks, htile, tiling⟩ :=
    exists_tiling budget le (ascends.sublist List.filter_sublist) within
  rwa [bandBlocks_eq htile]

/-- Bands of which none is empty are tiled one after the other. -/
theorem bandTilings_bandBlocks {entries : List Entry} (ascends : Ascends Prod.fst entries)
    (budget : Budget) (nonempty : ∀ s ∈ bands, s.first ≤ s.last) :
    BandTilings budget entries bands (bands.map (bandBlocks budget entries)) := by
  rw [BandTilings, List.forall₂_map_right_iff, List.forall₂_same]
  exact fun s hs => tiling_bandBlocks (nonempty s hs) ascends budget

/-- The blocks of a band lie in that band. -/
theorem BandTilings.within {entries : List Entry} {groups : List (List Block)}
    (h : BandTilings budget entries bands groups) {b : Block} (hb : b ∈ groups.flatten) :
    ∃ s ∈ bands, s.first ≤ b.span.first ∧ b.span.last ≤ s.last := by
  induction h with
  | nil => simp at hb
  | @cons band group _ _ tiling _ ih =>
    rw [List.flatten_cons, List.mem_append] at hb
    rcases hb with hb | hb
    · exact ⟨band, by simp, tiling.within hb⟩
    · obtain ⟨s, hs, hin⟩ := ih hb
      exact ⟨s, List.mem_cons_of_mem _ hs, hin⟩

/-- Bands in order divide among them the entries that lie in one of them. -/
theorem BandTilings.divides {entries : List Entry} {groups : List (List Block)}
    (h : BandTilings budget entries bands groups) (order : InOrder bands)
    (ascends : Ascends Prod.fst entries) :
    Divides groups.flatten (entries.filter fun e => inSome bands e.1) := by
  induction h with
  | nil => exact ⟨by simp, by simp, by simp [inSome]⟩
  | @cons band group rest groups tiling tilings ih =>
    obtain ⟨sound, apart, whole⟩ := ih order.tail
    have first_before := (List.pairwise_cons.mp order.before).1
    refine ⟨?_, ?_, ?_⟩
    · intro b hb
      rw [List.flatten_cons, List.mem_append] at hb
      exact hb.elim (tiling.sound b) (sound b)
    · rw [List.flatten_cons, List.pairwise_append]
      refine ⟨tiling.divides.apart, apart, fun a ha b hb => ?_⟩
      obtain ⟨s, hs, hfirst, _⟩ := BandTilings.within tilings hb
      exact UInt32.lt_of_le_of_lt (tiling.within ha).2
        (UInt32.lt_of_lt_of_le (first_before s hs) hfirst)
    · rw [List.flatten_cons, List.flatMap_append, tiling.whole, whole]
      refine (filter_or ascends fun x y hx hy => ?_).symm
      obtain ⟨s, hs, hys⟩ := inSome_iff.mp hy
      have hlt := UInt32.lt_iff_toNat_lt.mp (first_before s hs)
      rw [Span.contains_iff] at hx hys
      exact UInt32.lt_iff_toNat_lt.mpr (by omega)

/-- The verifier reports of the blocks of bands the first entry that lies in no band. -/
theorem verify_of_bandTilings {groups : List (List Block)}
    (h : BandTilings budget entries.toList bands groups) (order : InOrder bands)
    (ascends : Ascends Prod.fst entries.toList) :
    verify groups.flatten entries.toList =
      match entries.toList.find? fun e => !inSome bands e.1 with
        | some e => .error (.uncovered e.1)
        | none => .ok () := by
  refine (h.divides order ascends).verify_eq (inSome bands) entries.toList fun e he => ?_
  constructor
  · intro hin
    exact ⟨e, List.mem_filter.mpr ⟨he, hin⟩, rfl⟩
  · rintro ⟨e', he', hkey⟩
    rw [← hkey]
    exact (List.mem_filter.mp he').2

/-- Some entries are cut by bands in order, and what was cut is verified. -/
theorem partition_eq (order : InOrder bands) (some_entry : entries.isEmpty = false) :
    partition entries bands budget =
      ⟨(cutBands entries budget bands).events,
        match (cutBands entries budget bands).outcome with
        | .error failure => .error failure
        | .ok blocks =>
          match verify blocks entries.toList with
          | .error failure => .error failure
          | .ok () => .ok blocks⟩ := by
  unfold partition
  rw [Run.bind_ok (by simpa using checkBands_eq_ok_iff.mpr order)]
  simp only [some_entry, Bool.false_eq_true, if_false]
  cases hcut : (cutBands entries budget bands).outcome with
  | error failure => rw [Run.bind_error hcut]; rfl
  | ok blocks =>
    rw [Run.bind_ok hcut]
    simp only
    cases verify blocks entries.toList with
    | error failure => rw [Run.bind_error (Run.outcome_silent _)]; simp [Run.silent]
    | ok _ => rw [Run.bind_ok (Run.outcome_silent _)]; simp [Run.silent, pure, Run.done]

/-- Reports aside, some entries are cut by bands in order, and what was cut is verified. -/
theorem outcome_partition_eq (order : InOrder bands) (some_entry : entries.isEmpty = false) :
    (partition entries bands budget).outcome =
      match (cutBands entries budget bands).outcome with
      | .error failure => .error failure
      | .ok blocks =>
        match verify blocks entries.toList with
        | .error failure => .error failure
        | .ok () => .ok blocks := by
  rw [partition_eq order some_entry]

/-- Bands in order that take all of some ascending entries are made into blocks; otherwise the first
entry is reported that lies in no band. Either way the splits of the bands are reported. -/
theorem partition_eq_of_ascends (budget : Budget) (ascends : Ascends Prod.fst entries.toList)
    (order : InOrder bands) (some_entry : entries.isEmpty = false) :
    partition entries bands budget =
      ⟨bands.flatMap (bandReport budget entries.toList),
        match entries.toList.find? fun e => !inSome bands e.1 with
        | some e => .error (.uncovered e.1)
        | none => .ok (bands.flatMap (bandBlocks budget entries.toList))⟩ := by
  have tilings := bandTilings_bandBlocks ascends budget order.nonempty
  have hverify := verify_of_bandTilings tilings order ascends
  rw [← List.flatMap_def] at hverify
  simp only [partition_eq order some_entry, cutBands_eq_of_ascends ascends, hverify]
  cases entries.toList.find? fun e => !inSome bands e.1 <;> rfl

/-- The blocks of bands in order that take all of some ascending entries. -/
theorem outcome_partition (budget : Budget) (ascends : Ascends Prod.fst entries.toList) (order : InOrder bands)
    (some_entry : entries.isEmpty = false) :
    ∃ groups, BandTilings budget entries.toList bands groups ∧
      (partition entries bands budget).outcome =
        match entries.toList.find? fun e => !inSome bands e.1 with
          | some e => .error (.uncovered e.1)
          | none => .ok groups.flatten := by
  refine ⟨_, bandTilings_bandBlocks ascends budget order.nonempty, ?_⟩
  rw [partition_eq_of_ascends budget ascends order some_entry]
  simp only [List.flatMap_def]

/-- Without entries there are no blocks and no reports, as long as the bands are in order. -/
theorem partition_empty (order : InOrder bands) : partition #[] bands budget = .done [] := by
  unfold partition
  rw [Run.bind_ok (by simpa using checkBands_eq_ok_iff.mpr order)]
  rfl

theorem outcome_partition_empty (order : InOrder bands) :
    (partition #[] bands budget).outcome = .ok [] := by
  rw [partition_empty order]
  rfl

/-- Bands out of order are refused before anything is reported, whatever the entries are. -/
theorem partition_of_refused {failure : Failure} (refused : BandsRefused bands failure) :
    partition entries bands budget = ⟨[], .error failure⟩ := by
  unfold partition
  rw [Run.bind_error (by simpa using checkBands_eq_error_iff.mpr refused)]
  rfl

theorem outcome_partition_of_refused {failure : Failure} (refused : BandsRefused bands failure) :
    (partition entries bands budget).outcome = .error failure := by
  rw [partition_of_refused refused]

/-- Some ascending entries can be partitioned when the bands are in order and take all of them. -/
theorem partition_eq_ok_iff {blocks : List Block} (ascends : Ascends Prod.fst entries.toList)
    (some_entry : entries.isEmpty = false) :
    (partition entries bands budget).outcome = .ok blocks ↔
      InOrder bands ∧ (∀ e ∈ entries.toList, inSome bands e.1 = true) ∧
        blocks = bands.flatMap (bandBlocks budget entries.toList) := by
  cases hcheck : checkBands bands with
  | error failure =>
    have refused := checkBands_eq_error_iff.mp hcheck
    have disorder : ¬ InOrder bands := by simp [← checkBands_eq_ok_iff, hcheck]
    simp [outcome_partition_of_refused refused, disorder]
  | ok _ =>
    have order := checkBands_eq_ok_iff.mp hcheck
    have covered : (∀ e ∈ entries.toList, inSome bands e.1 = true) ↔
        entries.toList.find? (fun e => !inSome bands e.1) = none := by simp
    rw [partition_eq_of_ascends budget ascends order some_entry, covered]
    cases entries.toList.find? fun e => !inSome bands e.1 with
    | some e => simp
    | none => simp [order, eq_comm]

/-- What could be partitioned has its bands in order. Without entries it has no blocks; otherwise
its blocks are those of the bands, which take all entries. -/
theorem tilings_of_partition {blocks : List Block} (ascends : Ascends Prod.fst entries.toList)
    (h : (partition entries bands budget).outcome = .ok blocks) :
    InOrder bands ∧ (entries = #[] ∧ blocks = [] ∨
      ∃ groups, blocks = groups.flatten ∧ BandTilings budget entries.toList bands groups ∧
        ∀ e ∈ entries.toList, inSome bands e.1 = true) := by
  cases hempty : entries.isEmpty with
  | true =>
    obtain rfl : entries = #[] := by simpa using hempty
    cases hcheck : checkBands bands with
    | error failure =>
      rw [outcome_partition_of_refused (checkBands_eq_error_iff.mp hcheck)] at h
      cases h
    | ok _ =>
      have order := checkBands_eq_ok_iff.mp hcheck
      rw [outcome_partition_empty order] at h
      exact ⟨order, .inl ⟨rfl, by simpa using h.symm⟩⟩
  | false =>
    obtain ⟨order, covered, hblocks⟩ := (partition_eq_ok_iff ascends hempty).mp h
    exact ⟨order, .inr ⟨_, hblocks.trans List.flatMap_def,
      bandTilings_bandBlocks ascends budget order.nonempty, covered⟩⟩

/-- Any other charset is tiled over all codes, and verified. -/
theorem tilePage_eq (entries : Array Entry) (budget : Budget) :
    tilePage entries budget =
      match tile budget Span.full.first Span.full.last entries.toList with
      | .error failure => ⟨[], .error failure⟩
      | .ok blocks =>
        ⟨splitReport budget .pageSplit entries.size,
          match verify blocks entries.toList with
          | .error failure => .error failure
          | .ok () => .ok blocks⟩ := by
  unfold tilePage
  cases htile : tile budget Span.full.first Span.full.last entries.toList with
  | error failure => rw [Run.bind_error (Run.outcome_silent _)]; rfl
  | ok blocks =>
    rw [Run.bind_ok (Run.outcome_silent _), splitReport_eq, ← Array.length_toList,
      ← (cut_of_tile htile).length_eq]
    simp only
    cases verify blocks entries.toList with
    | error failure =>
      split
      · rw [Run.bind_ok (Run.outcome_report _), Run.bind_error (Run.outcome_silent _)]
        rfl
      · rw [Run.bind_error (Run.outcome_silent _)]
        rfl
    | ok _ =>
      split
      · rw [Run.bind_ok (Run.outcome_report _), Run.bind_ok (Run.outcome_silent _)]
        rfl
      · rw [Run.bind_ok (Run.outcome_silent _)]
        rfl

theorem outcome_tilePage_eq (entries : Array Entry) (budget : Budget) :
    (tilePage entries budget).outcome =
      match tile budget Span.full.first Span.full.last entries.toList with
      | .error failure => .error failure
      | .ok blocks =>
        match verify blocks entries.toList with
        | .error failure => .error failure
        | .ok () => .ok blocks := by
  rw [tilePage_eq]
  cases tile budget Span.full.first Span.full.last entries.toList <;> rfl

/-- Ascending entries are tiled over all codes without fail, and the split is reported. -/
theorem exists_tilePage_eq (budget : Budget) (ascends : Ascends Prod.fst entries.toList) :
    ∃ blocks, tilePage entries budget =
        ⟨splitReport budget .pageSplit entries.size, .ok blocks⟩ ∧
      Tiling budget Span.full entries.toList blocks ∧
      Cut budget Span.full.last Span.full.first entries.toList blocks := by
  obtain ⟨blocks, htile, tiling⟩ := exists_tiling (s := Span.full) budget (by decide) ascends
    fun e _ => Span.contains_full e.1
  refine ⟨blocks, ?_, tiling, cut_of_tile htile⟩
  have hverify := tiling.divides.verify_eq (fun _ => true) entries.toList fun e he => by
    simp only [true_iff]
    exact ⟨e, he, rfl⟩
  rw [List.find?_eq_none.mpr (by simp)] at hverify
  simp only [tilePage_eq, htile, hverify]

theorem outcome_tilePage (budget : Budget) (ascends : Ascends Prod.fst entries.toList) :
    ∃ blocks, (tilePage entries budget).outcome = .ok blocks ∧
      Tiling budget Span.full entries.toList blocks ∧
      Cut budget Span.full.last Span.full.first entries.toList blocks := by
  obtain ⟨blocks, hrun, both⟩ := exists_tilePage_eq budget ascends
  exact ⟨blocks, by rw [hrun], both⟩

end Cutting

end Marc8
