/-
Marc8.Proofs.Listing.Locating — where a listing is refused, and what hangs on it.

A listing is refused at the first line that cannot be read behind those in front
of it, or, when there is no such line, because no line names the multi-byte
charset. The lines in front of a refused line are no reason to refuse anything
but this name, and the lines behind it are never looked at. Told without the
reader, lines can be read one after another when the directives they say do not
contradict each other (`Coherent`).

  `isSome_multibyte_iff`     — the name is known behind the line that gives it;
  `exists_head`              — a text can be broken off behind any of its lines;
  `exists_draft_iff_coherent` — the lines that can be read are the coherent ones;
  `read_refuses_first_offence` — an error is at the first line that offends, and
                               a text broken off earlier lacks the name at most.
-/
import Marc8.Proofs.Listing.Acceptance
import Marc8.Proofs.Listing.Layout

namespace Marc8.Listing

open Text

variable {d d' : Draft} {first : Nat} {line : List Char} {lines' : List (List Char)}
  {text part : String} {e : Error}

/-! ## The line that names the multi-byte charset -/

/-- The line begins with the word for the multi-byte charset. -/
def NamesMultibyte (line : List Char) : Prop :=
  (fields (withoutComment line)).head? = some "multibyte".toList

instance : DecidablePred NamesMultibyte := fun _ => inferInstanceAs (Decidable (_ = _))

/-- Among the lines that say something, those with a name begin with the word for it. -/
theorem namesMultibyte_iff {statement : Statement}
    (h : Statement.ofLine line = .ok (some statement)) :
    NamesMultibyte line ↔ ∃ field, statement = .multibyte field := by
  obtain ⟨words, clear⟩ := ofFields_eq_some_iff.mp h
  rw [NamesMultibyte, words]
  cases statement with
  | multibyte field => simp [fieldsOf]
  | charset field => simp [fieldsOf]
  | combining field codes => simp [fieldsOf]
  | entry code value =>
    have := (not_mem_keywords_iff.mp clear).1
    simpa [fieldsOf] using this

/-- The name can be given to a draft that has none. -/
theorem multibyte_of_names (h : d.readLine line = .ok d') (names : NamesMultibyte line) :
    d.multibyte = none ∧ d'.multibyte.isSome = true := by
  obtain ⟨blank, -⟩ | ⟨statement, said, step⟩ := readLine_eq_ok_iff.mp h
  · rw [NamesMultibyte, ofFields_eq_none_iff.mp blank] at names
    cases names
  · obtain ⟨field, rfl⟩ := (namesMultibyte_iff said).mp names
    cases step with
    | multibyte unnamed _ => exact ⟨unnamed, rfl⟩

/-- Any other line leaves the name as it is. -/
theorem multibyte_of_not_names (h : d.readLine line = .ok d') (other : ¬ NamesMultibyte line) :
    d'.multibyte = d.multibyte := by
  obtain ⟨-, rfl⟩ | ⟨statement, said, step⟩ := readLine_eq_ok_iff.mp h
  · rfl
  · cases step with
    | multibyte _ _ => exact absurd ((namesMultibyte_iff said).mpr ⟨_, rfl⟩) other
    | charset _ _ => rfl
    | combining _ _ => rfl
    | entry _ _ _ _ => rfl

/-- Behind some lines the name is known if it was before, or if one of them gives it. -/
theorem isSome_multibyte_iff (h : d.readLines first lines' = .ok d') :
    d'.multibyte.isSome = true ↔ d.multibyte.isSome = true ∨ ∃ line ∈ lines', NamesMultibyte line := by
  induction lines' generalizing d first with
  | nil =>
    obtain rfl : d = d' := by simpa [Draft.readLines] using h
    simp
  | cons line rest ih =>
    obtain ⟨between, hline, hrest⟩ := readLines_cons_eq_ok_iff.mp h
    rw [ih hrest, List.exists_mem_cons_iff]
    by_cases names : NamesMultibyte line
    · simp [names, (multibyte_of_names hline names).2]
    · rw [multibyte_of_not_names hline names]
      simp [names]

/-- Lines that can be read give the name once at most. -/
theorem names_once {front back : List (List Char)}
    (h : ({} : Draft).readLines first (front ++ line :: back) = .ok d)
    (names : NamesMultibyte line) : ∀ other ∈ front ++ back, ¬ NamesMultibyte other := by
  obtain ⟨before, hfront, hback⟩ := readLines_append h
  obtain ⟨behind, hline, hrest⟩ := readLines_cons_eq_ok_iff.mp hback
  obtain ⟨unnamed, named⟩ := multibyte_of_names hline names
  intro other hother names'
  rcases List.mem_append.mp hother with hmem | hmem
  · have := (isSome_multibyte_iff hfront).mpr (.inr ⟨other, hmem, names'⟩)
    simp [unnamed] at this
  · -- A second name would find the first one there.
    obtain ⟨front', back', rfl⟩ := List.append_of_mem hmem
    obtain ⟨between, hfront', hback'⟩ := readLines_append hrest
    obtain ⟨_, hother, -⟩ := readLines_cons_eq_ok_iff.mp hback'
    have := (isSome_multibyte_iff hfront').mpr (.inl named)
    simp [(multibyte_of_names hother names').1] at this

/-! ## Texts that are broken off -/

/-- The lines of the part are the first `n` lines of the text. -/
def IsHead (part text : String) (n : Nat) : Prop :=
  lines part.toList = (lines text.toList).take n

theorem exists_head_toList (text : List Char) (n : Nat) :
    ∃ part rest, text = part ++ rest ∧ lines part = (lines text).take n := by
  induction n generalizing text with
  | zero => exact ⟨[], text, rfl, rfl⟩
  | succ n ih =>
    by_cases h : '\n' ∈ text
    · obtain ⟨line, behind, rfl, oneLine⟩ := List.eq_append_cons_of_mem h
      obtain ⟨part, rest, rfl, hpart⟩ := ih behind
      refine ⟨line ++ '\n' :: part, rest, by simp, ?_⟩
      rw [lines_append_cons, lines_append_cons line (part ++ rest), lines_concat oneLine, hpart,
        List.singleton_append, List.singleton_append, List.take_succ_cons]
    · refine ⟨text, [], (List.append_nil _).symm, (List.take_of_length_le ?_).symm⟩
      have single : (lines text).length ≤ 1 := by
        rw [lines_of_oneLine h]
        exact List.length_filter_le _ _
      omega

/-- A text can be broken off behind any number of lines. -/
theorem exists_head (text : String) (n : Nat) :
    ∃ part rest, text = part ++ rest ∧ IsHead part text n := by
  obtain ⟨part, rest, split, hpart⟩ := exists_head_toList text.toList n
  refine ⟨.ofList part, .ofList rest, ?_, by simpa [IsHead] using hpart⟩
  rw [← String.ofList_append, ← split, String.ofList_toList]

/-! ## What is refused -/

/-- The text is read, or the one thing against it is that no line gives the name. -/
def Passes (text : String) : Prop :=
  (∃ t, read text = .ok t) ∨ read text = .error ⟨0, .noMultibyte⟩

/-- The line with the number is refused behind those in front of it, which are read. -/
def RefusedAt (text : String) (n : Nat) (fault : Fault) : Prop :=
  ∃ front line d, (lines text.toList).take n = front ++ [line] ∧ n = front.length + 1 ∧
    ({} : Draft).readLines 1 front = .ok d ∧ d.readLine line = .error fault

/-- The lines say directives that do not contradict each other. -/
def Coherent (lines' : List (List Char)) : Prop :=
  ∃ ds, List.Forall₂ Says (said lines') ds ∧ Consistent ds

/-- Lines can be read when they are coherent. -/
theorem exists_draft_iff_coherent :
    (∃ d, ({} : Draft).readLines 1 lines' = .ok d) ↔ Coherent lines' := by
  constructor
  · rintro ⟨d, h⟩
    obtain ⟨ds, hsays, run⟩ := readLines_eq_ok_iff_run.mp h
    exact ⟨ds, hsays, (reflects_nil.run run).consistent⟩
  · rintro ⟨ds, hsays, consistent⟩
    obtain ⟨d, run⟩ : ∃ d, ({} : Draft).Run ds d := exists_run reflects_nil consistent
    exact ⟨d, readLines_eq_ok_iff_run.mpr ⟨ds, hsays, run⟩⟩

/-- An error of a line is one at the line with its number. -/
theorem readLines_eq_error_iff_refusedAt :
    ({} : Draft).readLines 1 (lines text.toList) = .error e ↔ RefusedAt text e.line e.fault := by
  rw [readLines_eq_error_iff]
  constructor
  · rintro ⟨front, line, back, d, fault, split, hfront, hline, rfl⟩
    refine ⟨front, line, d, ?_, Nat.add_comm _ _, hfront, hline⟩
    rw [split, Nat.add_comm, List.take_length_add_append]
    rfl
  · rintro ⟨front, line, d, head, hlength, hfront, hline⟩
    refine ⟨front, line, (lines text.toList).drop e.line, d, e.fault, ?_, hfront, hline, ?_⟩
    · rw [List.append_cons, ← head, List.take_append_drop]
    · rw [Nat.add_comm, ← hlength]

/-- A text is read when its lines are and one of them gives the name. -/
theorem exists_read_iff : (∃ t, read text = .ok t) ↔
    ∃ d, ({} : Draft).readLines 1 (lines text.toList) = .ok d ∧
      ∃ line ∈ lines text.toList, NamesMultibyte line := by
  constructor
  · rintro ⟨t, h⟩
    obtain ⟨d, multibyte, hlines, hmultibyte, -⟩ := exists_draft_of_read h
    have named := (isSome_multibyte_iff hlines).mp (by simp [hmultibyte])
    exact ⟨d, hlines, by simpa using named⟩
  · rintro ⟨d, hlines, names⟩
    have named := (isSome_multibyte_iff hlines).mpr (.inr names)
    obtain ⟨multibyte, hmultibyte⟩ := Option.isSome_iff_exists.mp named
    exact ⟨⟨multibyte, d.pages, d.combining⟩, by simp [read, hlines, Draft.close, hmultibyte]⟩

/-- A text is refused at one of its lines, or for want of the name. -/
theorem read_eq_error_iff : read text = .error e ↔ RefusedAt text e.line e.fault ∨
    (e = ⟨0, .noMultibyte⟩ ∧ (∃ d, ({} : Draft).readLines 1 (lines text.toList) = .ok d) ∧
      ∀ line ∈ lines text.toList, ¬ NamesMultibyte line) := by
  rw [← readLines_eq_error_iff_refusedAt]
  unfold read
  cases hlines : ({} : Draft).readLines 1 (lines text.toList) with
  | error e' => simp
  | ok d =>
    have unnamed : d.multibyte = none ↔ ∀ line ∈ lines text.toList, ¬ NamesMultibyte line := by
      have := not_congr (isSome_multibyte_iff hlines)
      simpa using this
    cases hmultibyte : d.multibyte with
    | none => simp [Draft.close, hmultibyte, ← unnamed, eq_comm]
    | some multibyte => simp [Draft.close, hmultibyte, ← unnamed]

/-- What can be read line by line is refused for want of the name at most. -/
theorem passes_of_readLines (h : ({} : Draft).readLines 1 (lines text.toList) = .ok d) :
    Passes text := by
  by_cases names : ∃ line ∈ lines text.toList, NamesMultibyte line
  · exact .inl (exists_read_iff.mpr ⟨d, h, names⟩)
  · exact .inr (read_eq_error_iff.mpr (.inr ⟨rfl, ⟨d, h⟩, by simpa using names⟩))

/-! ## The first offence -/

/-- What an error with the number of a line says of a text. -/
structure OffenceAt (text : String) (e : Error) : Prop where
  /-- The text has a line with this number. -/
  within : e.line ≤ (lines text.toList).length
  /-- It is refused for the fault of the error. -/
  refused : RefusedAt text e.line e.fault
  /-- Broken off in front of it the text lacks the name at most. -/
  front : ∀ part, IsHead part text (e.line - 1) → Passes part
  /-- The lines in front of it are coherent, and with it they are not. -/
  coherent : ∀ n, Coherent ((lines text.toList).take n) ↔ n < e.line
  /-- Whatever follows it, the error is the same. -/
  back : ∀ other,
    (lines other.toList).take e.line = (lines text.toList).take e.line → read other = .error e

/-- The lines in front of others can be read when all can. -/
theorem exists_draft_of_append {front back : List (List Char)}
    (h : ({} : Draft).readLines 1 (front ++ back) = .ok d) :
    ∃ between, ({} : Draft).readLines 1 front = .ok between :=
  (readLines_append h).imp fun _ both => both.1

/-- A refused line is the first that offends. -/
theorem offenceAt_of_refusedAt (h : RefusedAt text e.line e.fault) : OffenceAt text e := by
  have refused := h
  obtain ⟨front, line, d, head, hlength, hfront, hline⟩ := h
  have within : e.line ≤ (lines text.toList).length := by
    have := congrArg List.length head
    rw [List.length_take, List.length_append, List.length_singleton, ← hlength] at this
    omega
  have hbefore : ∀ n < e.line, (lines text.toList).take n = front.take n := by
    intro n hn
    have htake := congrArg (List.take n) head
    rwa [List.take_take, Nat.min_eq_left (by omega), List.take_append_of_le_length (by omega)] at htake
  refine ⟨within, refused, ?_, fun n => ?_, ?_⟩
  · intro part hpart
    rw [IsHead, hbefore _ (by omega), List.take_of_length_le (by omega)] at hpart
    exact passes_of_readLines (hpart ▸ hfront)
  · rw [← exists_draft_iff_coherent]
    constructor
    · rintro ⟨d', h⟩
      by_contra hn
      have hsplit : (lines text.toList).take n =
          front ++ line :: ((lines text.toList).take n).drop e.line := by
        have htake := List.take_take (i := e.line) (j := n) (l := lines text.toList)
        rw [Nat.min_eq_left (by omega), head] at htake
        rw [List.append_cons, ← htake, List.take_append_drop]
      rw [hsplit] at h
      obtain ⟨between, hfront', hback⟩ := readLines_append h
      obtain rfl : d = between := by simpa [hfront] using hfront'
      obtain ⟨_, hline', -⟩ := readLines_cons_eq_ok_iff.mp hback
      simp [hline] at hline'
    · intro hn
      rw [hbefore n hn]
      exact exists_draft_of_append ((List.take_append_drop n front).symm ▸ hfront)
  · intro other same
    refine read_eq_error_iff.mpr (.inl ?_)
    exact ⟨front, line, d, same.trans head, hlength, hfront, hline⟩

/-- No line is refused when the lines can be read. -/
theorem not_refusedAt_iff : (∀ n fault, ¬ RefusedAt text n fault) ↔
    ∃ d, ({} : Draft).readLines 1 (lines text.toList) = .ok d := by
  constructor
  · intro h
    cases hlines : ({} : Draft).readLines 1 (lines text.toList) with
    | error e => exact absurd (readLines_eq_error_iff_refusedAt.mp hlines) (h _ _)
    | ok d => exact ⟨d, rfl⟩
  · rintro ⟨d, hlines⟩ n fault refused
    have : ({} : Draft).readLines 1 (lines text.toList) = .error ⟨n, fault⟩ :=
      readLines_eq_error_iff_refusedAt.mpr refused
    simp [hlines] at this

/-- An error without a line is for want of the name, in lines of which none is refused. -/
theorem line_eq_zero_iff (h : read text = .error e) : e.line = 0 ↔
    (∀ n fault, ¬ RefusedAt text n fault) ∧ ∀ line ∈ lines text.toList, ¬ NamesMultibyte line := by
  obtain refused | ⟨rfl, hlines, unnamed⟩ := read_eq_error_iff.mp h
  · have hline : e.line ≠ 0 := by
      obtain ⟨front, _, _, _, hlength, _⟩ := refused
      omega
    exact iff_of_false hline fun both => both.1 _ _ refused
  · exact iff_of_true rfl ⟨not_refusedAt_iff.mpr hlines, unnamed⟩

/-- In front of the line that gives the name a text that can be read lacks it, and nothing else. -/
theorem passes_of_isHead {front back : List (List Char)} {n : Nat}
    (h : ({} : Draft).readLines 1 (lines text.toList) = .ok d)
    (split : lines text.toList = front ++ line :: back) (names : NamesMultibyte line)
    (once : ∀ other ∈ front ++ back, ¬ NamesMultibyte other) (hpart : IsHead part text n) :
    Passes part ∧ ((∃ t, read part = .ok t) ↔ front.length < n) := by
  rw [← List.take_append_drop n (lines text.toList), ← hpart] at h
  obtain ⟨between, hread⟩ := exists_draft_of_append h
  refine ⟨passes_of_readLines hread, ?_⟩
  have hnames : (∃ l ∈ lines part.toList, NamesMultibyte l) ↔ front.length < n := by
    rw [hpart, split]
    constructor
    · rintro ⟨l, hl, hnames⟩
      by_contra hn
      rw [List.take_append_of_le_length (by omega)] at hl
      exact once l (List.mem_append_left _ (List.mem_of_mem_take hl)) hnames
    · intro hn
      refine ⟨line, ?_, names⟩
      obtain ⟨m, rfl⟩ := Nat.exists_eq_add_of_lt hn
      simp [Nat.add_assoc, List.take_length_add_append]
  rw [exists_read_iff, ← hnames]
  exact ⟨fun ⟨_, _, found⟩ => found, fun found => ⟨between, hread, found⟩⟩

/-- An error is at the first line that offends: in front of it nothing is missing but the name of the
multi-byte charset at most, and what stands behind it changes nothing. An error has no line when no
line is refused and none gives the name. A text that can be read gives the name in one line. Broken
off it is still read when this line is left, and lacks the name when it is not. A text can be broken
off behind any number of lines, and none is refused when they are coherent. -/
theorem read_refuses_first_offence (text : String) :
    (∀ e, read text = .error e →
      (1 ≤ e.line → OffenceAt text e) ∧
      (e.line = 0 ↔ (∀ n fault, ¬ RefusedAt text n fault) ∧
        ∀ line ∈ lines text.toList, ¬ NamesMultibyte line)) ∧
    (∀ t, read text = .ok t → ∃ front line back, lines text.toList = front ++ line :: back ∧
      NamesMultibyte line ∧ (∀ other ∈ front ++ back, ¬ NamesMultibyte other) ∧
      ∀ n part, IsHead part text n →
        Passes part ∧ ((∃ t, read part = .ok t) ↔ front.length < n)) ∧
    ((∀ n fault, ¬ RefusedAt text n fault) ↔ Coherent (lines text.toList)) ∧
    ∀ n, ∃ part rest, text = part ++ rest ∧ IsHead part text n := by
  refine ⟨fun e h => ⟨fun hline => ?_, line_eq_zero_iff h⟩, fun t h => ?_, ?_, exists_head text⟩
  · obtain refused | ⟨rfl, -, -⟩ := read_eq_error_iff.mp h
    · exact offenceAt_of_refusedAt refused
    · cases hline
  · obtain ⟨d, hlines, line, mem, names⟩ := exists_read_iff.mp ⟨t, h⟩
    obtain ⟨front, back, split⟩ := List.append_of_mem mem
    have once := names_once (split ▸ hlines) names
    exact ⟨front, line, back, split, names, once, fun n part hpart =>
      passes_of_isHead hlines split names once hpart⟩
  · rw [not_refusedAt_iff, exists_draft_iff_coherent]

/-- A listing is refused at the second entry for a code, and so is whatever begins with these lines.
Its first three lines make a listing, and the first of them is the one it cannot do without. -/
theorem read_refuses_first_offence_second_entry :
    let text := "multibyte 0x31\r\ncharset 0x42 # Latin\n0x41 0x41\n0x41 0x42\nmultibyte 0x31"
    let again := "multibyte 0x31\ncharset 0x42 # Latin\r\n0x41 0x41\n0x41 0x42\n0x43"
    let listing := "multibyte 0x31\r\ncharset 0x42 # Latin\n0x41 0x41\n"
    read text = .error ⟨4, .codeAgain 0x41 0x42⟩ ∧ RefusedAt text 4 (.codeAgain 0x41 0x42) ∧
      read again = .error ⟨4, .codeAgain 0x41 0x42⟩ ∧
      (∃ t, read listing = .ok t) ∧ ¬ ∃ t, read "" = .ok t := by
  intro text again listing
  have herror : read text = .error ⟨4, .codeAgain 0x41 0x42⟩ := by
    have hfound : (match read text with | .error e => some e | .ok _ => none) =
        some ⟨4, .codeAgain 0x41 0x42⟩ := by decide +kernel
    cases h : read text with
    | error e => simpa [h] using hfound
    | ok t => simp [h] at hfound
  have hok : (read listing).toBool = true := by decide +kernel
  have offence := ((read_refuses_first_offence text).1 _ herror).1 (by decide)
  have hagain := offence.back again (by decide +kernel)
  cases hread : read listing with
  | error e =>
    rw [hread] at hok
    cases hok
  | ok t =>
    obtain ⟨front, line, back, -, -, -, heads⟩ := (read_refuses_first_offence listing).2.1 t hread
    have hempty := (heads 0 "" rfl).2
    exact ⟨herror, offence.refused, hagain, ⟨t, rfl⟩, fun found => by simpa using hempty.mp found⟩

end Marc8.Listing
