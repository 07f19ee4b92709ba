/-
Marc8.Proofs.Bundled — the bundled table is compiled under the standard policy.

A compilation can only fail for a code of the multi-byte charset that lies in no
band. These codes come from entries, so it is enough that every entry behind the
line that opens the multi-byte charset has its code in a band
(`entries_in_bands`): a charset cannot be opened twice, so what stands in front
of that line adds nothing to it.

  `Bundled.exists_compiled` — the compiled table exists.
-/
import Marc8.Bundled
import Marc8.Proofs.Listing.Steps
import Marc8.Proofs.Refusal

namespace Marc8

namespace Listing

open Text

/-! ## The multi-byte charset of a listing -/

/-- Once the multi-byte charset has been named, its name stays. -/
theorem multibyte_readLine {d d' : Draft} {line : List Char} {selector : Selector}
    (hd : d.multibyte = some selector) (h : d.readLine line = .ok d') :
    d'.multibyte = some selector := by
  rcases readLine_eq_ok_iff.mp h with ⟨_, rfl⟩ | ⟨statement, _, step⟩
  · exact hd
  · cases step with
    | multibyte unnamed => simp [unnamed] at hd
    | _ => exact hd

/-- All codes of the charset lie in one of the bands. -/
def InBands (bands : List Span) (selector : Selector) (d : Draft) : Prop :=
  ∀ page, d.pages.find? selector = some page → ∀ code, page.contains code = true →
    inSome bands code = true

/-- If the line says that a code is an entry, the code lies in one of the bands. -/
def entryInBands (bands : List Span) (line : List Char) : Bool :=
  match Statement.ofLine line with
  | .ok (some (.entry field _)) =>
    match number field with
    | .ok code => inSome bands code
    | .error _ => true
  | _ => true

theorem inBands_readLine {bands : List Span} {selector : Selector} {d d' : Draft} {line : List Char}
    (hline : entryInBands bands line = true) (hd : InBands bands selector d)
    (h : d.readLine line = .ok d') : InBands bands selector d' := by
  rcases readLine_eq_ok_iff.mp h with ⟨_, rfl⟩ | ⟨statement, hstatement, step⟩
  · exact hd
  · cases step with
    | multibyte => exact hd
    | combining => exact hd
    | @charset field opened =>
      intro page hpage code hcode
      rw [Assoc.find?_insert] at hpage
      split at hpage
      · obtain rfl : .empty = page := by simpa using hpage
        simp [Assoc.contains] at hcode
      · exact hd page hpage code hcode
    | @entry codeField valueField opened listed value _ code_eq =>
      have hlisted : inSome bands listed = true := by
        simpa [entryInBands, hstatement, code_eq] using hline
      intro page hpage code hcode
      rw [Assoc.find?_insert] at hpage
      split at hpage
      · next heq =>
        subst heq
        obtain rfl : _ = page := by simpa using hpage
        rw [Assoc.contains, Assoc.find?_insert] at hcode
        split at hcode
        · next heq => rw [heq]; exact hlisted
        · cases hold : d.pages.find? selector with
          | none => simp [hold] at hcode
          | some old => exact hd old hold code (by simpa [hold, Assoc.contains] using hcode)
      · exact hd page hpage code hcode

/-- A line that says a statement carries it out. -/
theorem step_of_readLine {d d' : Draft} {line : List Char} {statement : Statement}
    (hline : Statement.ofLine line = .ok (some statement)) (h : d.readLine line = .ok d') :
    d.Step statement d' := by
  rcases readLine_eq_ok_iff.mp h with ⟨hnone, _⟩ | ⟨statement', hsome, step⟩
  · rw [hline] at hnone
    cases hnone
  · rw [hline] at hsome
    cases hsome
    exact step

/-- A listing that names its multi-byte charset first keeps to some bands if every entry does that
stands behind the line which opens the charset. -/
theorem inBands_of_readLines {bands : List Span} {named opened : Field} {selector : Selector}
    {first opening : List Char} {front back : List (List Char)} {d : Draft}
    (hfirst : Statement.ofLine first = .ok (some (.multibyte named)))
    (hopening : Statement.ofLine opening = .ok (some (.charset opened)))
    (hnamed : number named = .ok selector) (hopened : number opened = .ok selector)
    (hback : ∀ line ∈ back, entryInBands bands line = true)
    (h : ({} : Draft).readLines 1 (first :: (front ++ opening :: back)) = .ok d) :
    d.multibyte = some selector ∧ InBands bands selector d := by
  obtain ⟨d1, h1, h⟩ := readLines_cons_eq_ok_iff.mp h
  obtain ⟨d2, h2, h⟩ := readLines_append h
  obtain ⟨d3, h3, h⟩ := readLines_cons_eq_ok_iff.mp h
  have name1 : d1.multibyte = some selector := by
    cases step_of_readLine hfirst h1 with
    | multibyte unnamed selector_eq =>
      rw [hnamed] at selector_eq
      obtain rfl := Except.ok.inj selector_eq
      rfl
  have name2 : d2.multibyte = some selector :=
    readLines_keeps (fun _ _ _ _ hd hline => multibyte_readLine hd hline) name1 h2
  have bands3 : InBands bands selector d3 := by
    cases step_of_readLine hopening h3 with
    | charset selector_eq =>
      rw [hopened] at selector_eq
      obtain rfl := Except.ok.inj selector_eq
      intro page hpage code hcode
      rw [Assoc.find?_insert, if_pos rfl] at hpage
      obtain rfl : .empty = page := by simpa using hpage
      simp [Assoc.contains] at hcode
  have name3 := multibyte_readLine name2 h3
  refine ⟨?_, ?_⟩
  · exact readLines_keeps (fun _ _ _ _ hd hline => multibyte_readLine hd hline) name3 h
  · exact readLines_keeps (fun line hline _ _ hd hread =>
      inBands_readLine (hback line hline) hd hread) bands3 h

/-- A table that is read keeps to the bands if the draft it is made of does. -/
theorem codes_of_read {text : String} {t : CodeTable} {bands : List Span} {selector : Selector}
    (h : read text = .ok t)
    (hdraft : ∀ {d : Draft}, ({} : Draft).readLines 1 (lines text.toList) = .ok d →
      d.multibyte = some selector ∧ InBands bands selector d)
    {page : Page} (hpage : t.pages.find? t.multibyte = some page) {code : Code}
    (hcode : page.contains code = true) : inSome bands code = true := by
  obtain ⟨d, multibyte, hlines, hmultibyte, rfl⟩ := exists_draft_of_read h
  obtain ⟨hnamed, hbands⟩ := hdraft hlines
  rw [hnamed] at hmultibyte
  obtain rfl := Option.some.inj hmultibyte
  exact hbands page hpage code hcode

end Listing

namespace Bundled

open Listing Text

/-- A listing that does not read counts as the empty table. -/
theorem read_or_default (text : String) :
    Listing.read text = .ok (tableOf text) ∨ tableOf text = default := by
  unfold tableOf
  cases Listing.read text with
  | error e => exact .inr rfl
  | ok t => exact .inl rfl

/-- A list from its first element and one behind it. -/
theorem exists_front {α : Type} {xs : List α} {k : Nat} {a b : α} (ha : xs[0]? = some a)
    (hb : xs[k + 1]? = some b) :
    ∃ front, xs = a :: (front ++ b :: xs.drop (k + 2)) := by
  cases xs with
  | nil => cases ha
  | cons x rest =>
    obtain rfl : x = a := by simpa using ha
    obtain ⟨hk, rfl⟩ := List.getElem?_eq_some_iff.mp (by simpa using hb)
    refine ⟨rest.take k, ?_⟩
    rw [List.drop_succ_cons, ← List.drop_eq_getElem_cons hk, List.take_append_drop]

/-- How many lines stand between the first one and the one that opens the multi-byte charset. -/
def between : Nat := 209

/-- Behind the line that opens the multi-byte charset every entry has its code in a band. -/
theorem entries_in_bands : ∀ text ∈ lines.drop (between + 2),
    ∀ line ∈ Text.lines (text.toList ++ ['\n']), entryInBands standardBands line = true := by
  decide +kernel

/-- The bundled table, if its listing can be read at all, has its multi-byte charset in the standard
bands. -/
theorem inBands_of_read {d : Draft}
    (h : ({} : Draft).readLines 1 (Text.lines listing.toList) = .ok d) :
    d.multibyte = some 0x31 ∧ InBands standardBands 0x31 d := by
  have hfirst : lines[0]? = some "multibyte 0x31" := by decide +kernel
  have hopening : lines[between + 1]? = some "charset 0x31" := by decide +kernel
  obtain ⟨front, hsplit⟩ := exists_front hfirst hopening
  have hfirstLine : Text.lines ("multibyte 0x31".toList ++ ['\n']) = ["multibyte 0x31".toList] := by
    decide
  have hopeningLine : Text.lines ("charset 0x31".toList ++ ['\n']) = ["charset 0x31".toList] := by
    decide
  have hnamed : Statement.ofLine "multibyte 0x31".toList =
      .ok (some (.multibyte "0x31".toList)) := by decide
  have hopened : Statement.ofLine "charset 0x31".toList =
      .ok (some (.charset "0x31".toList)) := by decide
  have hnumber : number "0x31".toList = .ok 0x31 := by decide
  rw [listing, lines_ofLines, hsplit] at h
  simp only [List.flatMap_cons, List.flatMap_append, hfirstLine, hopeningLine,
    List.singleton_append] at h
  refine inBands_of_readLines hnamed hopened hnumber hnumber (fun line hline => ?_) h
  obtain ⟨text, htext, hline⟩ := List.mem_flatMap.mp hline
  exact entries_in_bands text htext line hline

/-- The codes of the bundled multi-byte charset lie in the standard bands. -/
theorem codes_in_bands {page : Page} (hpage : table.pages.find? table.multibyte = some page)
    {code : Code} (hcode : page.contains code = true) : inSome standardBands code = true := by
  rcases read_or_default listing with hread | hdefault
  · exact codes_of_read hread inBands_of_read hpage hcode
  · rw [table, hdefault] at hpage
    cases hpage

/-- The bundled table is compiled under the standard policy. -/
theorem exists_compiled : ∃ p, (compile table .standard).outcome = .ok p := by
  have order : InOrder Policy.standard.bands := checkBands_eq_ok_iff.mp (by decide)
  exact Marc8.exists_compiled order fun _ hpage _ hcode => codes_in_bands hpage hcode

end Bundled

end Marc8
