/-
Marc8.Proofs.Ascending — what the sorters leave, and what halving search finds
in it.

`Ascends key xs` says that the keys of a list grow from one element to the
next, so that none occurs twice. The sorters of `Marc8.Ascending` leave such
lists, and on them the searches of `Marc8.Search` and `Marc8.Block` are exact:

  `Assoc.mem_ascending`      — sorting a map keeps what `find?` finds;
  `Search.find?_eq_some_iff` — halving search finds an element exactly when it
                               is there under the key;
  `Search.find?_eq_scan`     — so it finds what a scan from the front finds;
  `Search.extract_boundaries` — two boundaries cut out what lies between them;
  `searchEntries_eq`         — searching entries gives what they list.
-/
import Marc8.CompiledTable

namespace Marc8

variable {α κ : Type}

/-- The keys of the list ascend; so none occurs twice. -/
def Ascends [LT κ] (key : α → κ) (xs : List α) : Prop := xs.Pairwise fun a b => key a < key b

/-! ## Ascending lists -/

section Order

variable [LE κ] [LT κ] [Std.LawfulOrderLT κ] {key : α → κ} {xs : List α}

/-- Ascending keys do not descend. -/
theorem Ascends.le (h : Ascends key xs) : xs.Pairwise fun a b => key a ≤ key b :=
  List.Pairwise.imp (fun hlt => Std.le_of_lt hlt) h

/-- Ascending keys do not repeat. -/
theorem Ascends.nodup_map (h : Ascends key xs) : (xs.map key).Nodup :=
  List.pairwise_map.mpr (List.Pairwise.imp (fun hlt => Std.ne_of_lt hlt) h)

/-- Keys that do not descend and do not repeat ascend. -/
theorem ascends_of_nodup [Std.IsLinearOrder κ] (order : xs.Pairwise fun a b => key a ≤ key b)
    (nodup : (xs.map key).Nodup) : Ascends key xs := by
  have apart : xs.Pairwise fun a b => key a ≠ key b := List.pairwise_map.mp nodup
  refine (order.and apart).imp fun {a b} h => ?_
  exact Std.lt_of_le_of_ne h.1 h.2

/-- With ascending keys an element is told by its key. -/
theorem Ascends.eq_of_key_eq (h : Ascends key xs) {a b : α} (ha : a ∈ xs) (hb : b ∈ xs)
    (heq : key a = key b) : a = b := by
  induction xs with
  | nil => cases ha
  | cons x rest ih =>
    obtain ⟨front, back⟩ := List.pairwise_cons.mp h
    rcases List.mem_cons.mp ha with rfl | har <;> rcases List.mem_cons.mp hb with rfl | hbr
    · rfl
    · exact absurd heq (Std.ne_of_lt (front b hbr))
    · exact absurd heq.symm (Std.ne_of_lt (front a har))
    · exact ih back har hbr

/-- An ascending list is told by its elements. -/
theorem Ascends.eq_of_mem_iff [Std.IsLinearOrder κ] {ys : List α} (h : Ascends key xs)
    (h' : Ascends key ys) (mem : ∀ x, x ∈ xs ↔ x ∈ ys) : xs = ys := by
  have perm : xs.Perm ys :=
    (List.perm_ext_iff_of_nodup (h.imp fun hlt heq => Std.ne_of_lt hlt (congrArg key heq))
      (h'.imp fun hlt heq => Std.ne_of_lt hlt (congrArg key heq))).mpr mem
  refine perm.eq_of_pairwise (fun a b ha hb hab hba => ?_) h.le h'.le
  exact h.eq_of_key_eq ha ((mem b).mpr hb) (Std.le_antisymm hab hba)

/-- With ascending keys the first element under a key is the only one. -/
theorem Ascends.find?_eq_some_iff [DecidableEq κ] (h : Ascends key xs) {k : κ} {x : α} :
    xs.find? (key · = k) = some x ↔ x ∈ xs ∧ key x = k := by
  constructor
  · intro hfind
    exact ⟨List.mem_of_find?_eq_some hfind, by simpa using List.find?_some hfind⟩
  · rintro ⟨hmem, hkey⟩
    have hsome : (xs.find? (key · = k)).isSome = true :=
      List.find?_isSome.mpr ⟨x, hmem, by simpa using hkey⟩
    obtain ⟨y, hy⟩ := Option.isSome_iff_exists.mp hsome
    have hykey : key y = k := by simpa using List.find?_some hy
    rw [hy, h.eq_of_key_eq (List.mem_of_find?_eq_some hy) hmem (hykey.trans hkey.symm)]

end Order

/-! ## Sorting -/

section Sorting

variable [LE κ] [Std.IsLinearOrder κ]

/-- Sorting leaves a list that does not descend. -/
theorem le_mergeSort [DecidableLE κ] (key : α → κ) (xs : List α) :
    (xs.mergeSort fun a b => decide (key a ≤ key b)).Pairwise fun a b => key a ≤ key b := by
  have trans : ∀ a b c : α, decide (key a ≤ key b) = true → decide (key b ≤ key c) = true →
      decide (key a ≤ key c) = true := fun a b c hab hbc => by
    simp only [decide_eq_true_eq] at *
    exact Std.le_trans hab hbc
  have total : ∀ a b : α, (decide (key a ≤ key b) || decide (key b ≤ key a)) = true := fun a b => by
    simpa using Std.le_total (a := key a) (b := key b)
  simpa using List.pairwise_mergeSort trans total xs

variable [LT κ] [Std.LawfulOrderLT κ]

/-- The pairs of a map, sorted, ascend by key. -/
theorem Assoc.ascends_ascending [DecidableLE κ] (m : Assoc κ α) : Ascends Prod.fst m.ascending :=
  ascends_of_nodup (le_mergeSort Prod.fst m.entries)
    ((m.ascending_perm.map Prod.fst).nodup_iff.mpr m.nodup)

/-- Dropping repeats from a list that does not descend leaves an ascending one. -/
theorem ascends_dropRepeats [DecidableEq κ] {xs : List κ} (h : xs.Pairwise (· ≤ ·)) :
    Ascends id (dropRepeats xs) := by
  fun_induction dropRepeats xs with
  | case1 b rest ih => exact ih (List.pairwise_cons.mp h).2
  | case2 a b rest hne ih =>
    obtain ⟨front, back⟩ := List.pairwise_cons.mp h
    refine List.pairwise_cons.mpr ⟨fun x hx => ?_, ih back⟩
    have hab : a < b := Std.lt_of_le_of_ne (front b (by simp)) hne
    rcases List.mem_cons.mp (mem_dropRepeats.mp hx) with rfl | hx
    · exact hab
    · exact Std.lt_of_lt_of_le hab ((List.pairwise_cons.mp back).1 x hx)
  | case3 short hshort =>
    cases short with
    | nil => exact List.Pairwise.nil
    | cons a tail =>
      cases tail with
      | nil => exact List.pairwise_singleton ..
      | cons b rest => exact absurd rfl (hshort a b rest)

/-- The sorter without repeats leaves an ascending list. -/
theorem ascends_ascendingDistinct [DecidableEq κ] [DecidableLE κ] (xs : List κ) :
    Ascends id (ascendingDistinct xs) :=
  ascends_dropRepeats (le_mergeSort id xs)

end Sorting

/-- The sorted pairs of a map are what `find?` finds. -/
theorem Assoc.mem_ascending [LE κ] [DecidableLE κ] [DecidableEq κ] {m : Assoc κ α} {k : κ} {v : α} :
    (k, v) ∈ m.ascending ↔ m.find? k = some v := by
  rw [m.ascending_perm.mem_iff, Assoc.mem_entries_iff]

/-! ## Halving search -/

namespace Search

variable {key : α → UInt32} {xs : Array α}

/-- Below a bound come first the keys of a list that does not descend. -/
theorem falls_of_le {p : UInt32 → Bool} (down : ∀ a b, a ≤ b → p b = true → p a = true)
    (order : xs.toList.Pairwise fun a b => key a ≤ key b) : Falls (fun x => p (key x)) xs := by
  intro i j hi hj hij hp
  rcases Nat.lt_or_eq_of_le hij with hlt | rfl
  · have hle := List.pairwise_iff_getElem.mp order i j (by simpa using hi) (by simpa using hj) hlt
    exact down _ _ (by simpa using hle) hp
  · exact hp

theorem falls_lt (order : xs.toList.Pairwise fun a b => key a ≤ key b) (k : UInt32) :
    Falls (fun x => key x < k) xs :=
  falls_of_le (p := fun a => decide (a < k))
    (fun a b hab hb => by
      simp only [decide_eq_true_eq] at *
      exact UInt32.lt_of_le_of_lt hab hb) order

theorem falls_le (order : xs.toList.Pairwise fun a b => key a ≤ key b) (k : UInt32) :
    Falls (fun x => key x ≤ k) xs :=
  falls_of_le (p := fun a => decide (a ≤ k))
    (fun a b hab hb => by
      simp only [decide_eq_true_eq] at *
      exact UInt32.le_trans hab hb) order

/-- Halving search finds an element exactly when it is there under the key. -/
theorem find?_eq_some_iff (h : Ascends key xs.toList) {k : UInt32} {x : α} :
    find? key xs k = some x ↔ x ∈ xs ∧ key x = k := by
  obtain ⟨hsize, hcut⟩ := boundary_spec (falls_lt h.le k)
  constructor
  · intro hfind
    unfold find? at hfind
    split at hfind
    · next y hy =>
      split at hfind
      · next hkey =>
        obtain rfl : y = x := by simpa using hfind
        exact ⟨Array.mem_of_getElem? hy, hkey⟩
      · cases hfind
    · cases hfind
  · rintro ⟨hmem, hkey⟩
    obtain ⟨i, hi, rfl⟩ := Array.mem_iff_getElem.mp hmem
    -- The element itself is not below the key, and all before it are.
    have hle : boundary (fun x => decide (key x < k)) xs ≤ i := by
      refine Nat.le_of_not_lt fun hlt => ?_
      have hless := (hcut i hi).mpr hlt
      simp [hkey] at hless
    have hge : i ≤ boundary (fun x => decide (key x < k)) xs := by
      refine Nat.le_of_not_lt fun hlt => ?_
      have hless := List.pairwise_iff_getElem.mp h _ i (by simp; omega) (by simpa using hi) hlt
      rw [Array.getElem_toList, Array.getElem_toList, hkey] at hless
      exact absurd ((hcut _ (Nat.lt_trans hlt hi)).mp (by simpa using hless)) (Nat.lt_irrefl _)
    have heq : boundary (fun x => decide (key x < k)) xs = i := Nat.le_antisymm hle hge
    simp [find?, heq, hi, hkey]

/-- Halving search finds what a scan from the front finds. -/
theorem find?_eq_scan (h : Ascends key xs.toList) (k : UInt32) :
    find? key xs k = xs.toList.find? (key · = k) := by
  apply Option.ext
  intro x
  rw [find?_eq_some_iff h, h.find?_eq_some_iff, Array.mem_toList_iff]

/-- Halving search finds something exactly when some element has the key. Keys may repeat. -/
theorem isSome_find?_iff_of_le (order : xs.toList.Pairwise fun a b => key a ≤ key b) {k : UInt32} :
    (find? key xs k).isSome = true ↔ ∃ x ∈ xs, key x = k := by
  obtain ⟨hsize, hcut⟩ := boundary_spec (falls_lt order k)
  constructor
  · intro h
    obtain ⟨x, hfind⟩ := Option.isSome_iff_exists.mp h
    unfold find? at hfind
    split at hfind
    · next y hy =>
      split at hfind
      · next hkey => exact ⟨y, Array.mem_of_getElem? hy, hkey⟩
      · cases hfind
    · cases hfind
  · intro ⟨x, hmem, hkey⟩
    obtain ⟨i, hi, rfl⟩ := Array.mem_iff_getElem.mp hmem
    -- The boundary is not behind the element, and what stands there is not below the key.
    have hle : boundary (fun x => decide (key x < k)) xs ≤ i := by
      refine Nat.le_of_not_lt fun hlt => ?_
      have hless := (hcut i hi).mpr hlt
      simp [hkey] at hless
    have hlt : boundary (fun x => decide (key x < k)) xs < xs.size := Nat.lt_of_le_of_lt hle hi
    have hge : k ≤ key xs[boundary (fun x => decide (key x < k)) xs] := by
      refine UInt32.not_lt.mp fun hless => ?_
      exact absurd ((hcut _ hlt).mp (by simpa using hless)) (Nat.lt_irrefl _)
    have heq : key xs[boundary (fun x => decide (key x < k)) xs] = k := by
      rcases Nat.lt_or_eq_of_le hle with hbefore | hsame
      · have hup := List.pairwise_iff_getElem.mp order _ i (by simpa using hlt) (by simpa using hi)
          hbefore
        exact UInt32.le_antisymm (by simpa [hkey] using hup) hge
      · simp only [hsame, hkey]
    simp [find?, hlt, heq]

theorem isSome_find?_iff (h : Ascends key xs.toList) {k : UInt32} :
    (find? key xs k).isSome = true ↔ ∃ x ∈ xs, key x = k :=
  isSome_find?_iff_of_le h.le

/-- Halving search in codes finds one that is there. -/
theorem isSome_find?_id_iff {codes : Array UInt32} (h : Ascends id codes.toList) {code : UInt32} :
    (find? id codes code).isSome = true ↔ code ∈ codes := by
  rw [isSome_find?_iff h]
  simp

/-- A filter that asks for the places from `lo` up to `hi` cuts them out. -/
theorem filter_eq_take_drop {p : α → Bool} : ∀ (xs : List α) (lo hi : Nat),
    (∀ i (h : i < xs.length), p xs[i] = true ↔ lo ≤ i ∧ i < hi) →
    xs.filter p = (xs.drop lo).take (hi - lo)
  | [], _, _, _ => by simp
  | x :: rest, lo, hi, test => by
    have head := test 0 (by simp)
    simp only [List.getElem_cons_zero, Nat.le_zero_eq] at head
    have back := filter_eq_take_drop rest (lo - 1) (hi - 1) fun i h => by
      rw [← List.getElem_cons_succ x rest i (by simpa using h), test (i + 1) (by simpa using h)]
      omega
    rw [List.filter_cons, back]
    match lo, hi with
    | 0, 0 => simp [head]
    | 0, hi + 1 => simp [head]
    | lo + 1, hi =>
      rw [if_neg (by simp [head]), List.drop_succ_cons]
      congr 1
      omega

/-- The elements between two boundaries are those that the second test accepts and the first
refuses. -/
theorem extract_boundaries {p q : α → Bool} (hp : Falls p xs) (hq : Falls q xs) :
    (xs.extract (boundary p xs) (boundary q xs)).toList = xs.toList.filter fun x => q x && !p x := by
  obtain ⟨_, hpcut⟩ := boundary_spec hp
  obtain ⟨_, hqcut⟩ := boundary_spec hq
  rw [Array.toList_extract, List.extract_eq_take_drop]
  refine (filter_eq_take_drop xs.toList _ _ fun i h => ?_).symm
  have h' : i < xs.size := by simpa using h
  rw [Array.getElem_toList, Bool.and_eq_true, hqcut i h', Bool.not_eq_true', ← Bool.not_eq_true,
    hpcut i h']
  omega

end Search

/-- Searching ascending entries for a code gives the value that they list for it. -/
theorem searchEntries_eq {entries : Array Entry} (h : Ascends Prod.fst entries.toList) {code : Code}
    {value? : Option (Option Char)} (listed : ∀ v, (code, v) ∈ entries ↔ value? = some v) :
    searchEntries entries code = .ofListed value?.join := by
  have found : Search.find? Prod.fst entries code = value?.map (code, ·) := by
    apply Option.ext
    rintro ⟨c, v⟩
    rw [Search.find?_eq_some_iff h]
    simp only [Option.map_eq_some_iff, Prod.mk.injEq]
    constructor
    · rintro ⟨hmem, rfl⟩
      exact ⟨v, (listed v).mp hmem, rfl, rfl⟩
    · rintro ⟨w, hw, rfl, rfl⟩
      exact ⟨(listed w).mpr hw, rfl⟩
  rw [searchEntries, found]
  cases value? <;> rfl

/-- What ascending entries say about a code hangs on those under the code only. -/
theorem searchEntries_congr {entries entries' : Array Entry} (h : Ascends Prod.fst entries.toList)
    (h' : Ascends Prod.fst entries'.toList) {code : Code}
    (same : ∀ v, (code, v) ∈ entries ↔ (code, v) ∈ entries') :
    searchEntries entries code = searchEntries entries' code := by
  have found : Search.find? Prod.fst entries code = Search.find? Prod.fst entries' code := by
    apply Option.ext
    intro ⟨c, v⟩
    rw [Search.find?_eq_some_iff h, Search.find?_eq_some_iff h']
    refine and_congr_left fun hcode => ?_
    obtain rfl : c = code := hcode
    exact same v
  rw [searchEntries, searchEntries, found]

end Marc8
